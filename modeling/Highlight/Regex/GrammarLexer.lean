import Highlight.Regex.Error
import Highlight.Regex.Node
import Highlight.Regex.PropertyName

/-!
# Tokens of grammar patterns

The patterns of grammars are read token by token, where the options in force decide whether white
space and `#` comments count. `GrammarPattern.lex` gives the first token of a pattern and what
follows it, `GrammarPattern.lexInClass` the first token inside a bracketed class.
-/

namespace Highlight.GrammarPattern

/-- The options that a pattern can turn on and off. -/
structure Options where
  ignoreCase : Bool
  /-- The dot matches the line feed too. -/
  dotAll : Bool
  /-- White space and `#` comments do not count. -/
  extended : Bool
  deriving Repr, DecidableEq

/-- How a pattern refers to a group. -/
inductive GroupRef where
  | number (n : Nat)
  | name (s : String)
  deriving Repr, DecidableEq

/-- How often and how eagerly a repetition matches. -/
structure Quantifier where
  low : Nat
  high : Option Nat
  greedy : Bool
  possessive : Bool
  deriving Repr, DecidableEq

/-- The tokens outside classes. -/
inductive Token where
  | done
  | bar
  | openGroup
  | closeGroup
  | openClass
  | repetition (q : Quantifier)
  | char (c : Char)
  | dot
  | set (s : CharSet)
  | property (s : CharSet)
  | newline
  | assertion (a : Assertion)
  | keep
  | backReference (r : GroupRef)
  | call (r : GroupRef)
  deriving Repr

/-! ## Numbers -/

/-- The value of at most `limit` leading digits, and the rest. -/
def digits (base : Nat) (value : Nat) : Nat → List Char → Nat × List Char
  | 0, cs => (value, cs)
  | _ + 1, [] => (value, [])
  | limit + 1, c :: cs =>
    match Numeral.digit? base c with
    | some v => digits base (value * base + v) limit cs
    | none => (value, c :: cs)

/-- The value of all leading decimal digits, if there are any. -/
def decimal? (cs : List Char) : Option (Nat × List Char) :=
  match cs with
  | c :: _ => if c.isDigit then some (digits 10 0 cs.length cs) else none
  | [] => none

/-- The continuation bytes of a character, written as `\xHH` each. -/
def continuation : Nat → Nat → List Char → Except RegexError (Nat × List Char)
  | 0, value, cs => .ok (value, cs)
  | n + 1, value, '\\' :: 'x' :: a :: b :: cs =>
    match Numeral.digit? 16 a, Numeral.digit? 16 b with
    | some a, some b =>
      if 8 ≤ a && a ≤ 11 then continuation n (value * 64 + (a * 16 + b - 128)) cs
      else .error .invalidCharacter
    | _, _ => .error .invalidCharacter
  | _ + 1, _, _ => .error .invalidCharacter

/-- The character that starts with the given byte. -/
def fromByte (byte : Nat) (cs : List Char) : Except RegexError (Char × List Char) := do
  if byte < 128 then .ok (Char.ofNat byte, cs)
  else
    let (value, rest) ←
      if 0xC2 ≤ byte && byte < 0xE0 then continuation 1 (byte - 0xC0) cs
      else if 0xE0 ≤ byte && byte < 0xF0 then continuation 2 (byte - 0xE0) cs
      else if 0xF0 ≤ byte && byte < 0xF5 then continuation 3 (byte - 0xF0) cs
      else .error .invalidCharacter
    .ok (← Regex.character value, rest)

/-- The code point in braces after `\x` or `\o`; nothing where the braces hold something else. -/
def braced? (base limit : Nat) (cs : List Char) : Except RegexError (Option (Char × List Char)) :=
  match cs with
  | '\x7b' :: cs =>
    let (value, rest) := digits base 0 limit cs
    match rest with
    | '\x7d' :: after =>
      if rest.length = cs.length then .ok none
      else do .ok (some (← Regex.character value, after))
    | c :: _ => if (Numeral.digit? base c).isSome then .error .invalidCharacter else .ok none
    | [] => .ok none
  | _ => .ok none

/-- The control character of a letter. -/
def controlOf (c : Char) : Char := if c == '?' then '\x7f' else Char.ofNat (c.toNat % 32)

/-- The character that an escaped one stands for, where the escape has no other meaning. -/
def escaped (c : Char) (cs : List Char) : Except RegexError (Char × List Char) :=
  match c with
  | 'n' => .ok ('\n', cs)
  | 't' => .ok ('\t', cs)
  | 'r' => .ok ('\r', cs)
  | 'f' => .ok ('\x0c', cs)
  | 'a' => .ok ('\x07', cs)
  | 'b' => .ok ('\x08', cs)
  | 'e' => .ok ('\x1b', cs)
  | 'v' => .ok ('\x0b', cs)
  | 'c' =>
    match cs with
    | [] => .error .unexpectedEnd
    | c :: cs => .ok (controlOf c, cs)
  | 'C' =>
    match cs with
    | '-' :: c :: cs => .ok (controlOf c, cs)
    | _ => .error .invalidEscape
  | 'M' => .error .invalidEscape
  | c => .ok (c, cs)

/-- The characters before the next `stop`, and what follows it. -/
def upTo? (stop : Char) : List Char → Option (List Char × List Char)
  | [] => none
  | c :: cs => if c == stop then some ([], cs) else (upTo? stop cs).map fun (a, b) => (c :: a, b)

/-- The set of `\p` with a name in braces, where `cs` follows the opening brace. -/
def bracedProperty (negated : Bool) (cs : List Char) : Except RegexError (CharSet × List Char) :=
  match upTo? '\x7d' cs with
  | none => .error .unknownProperty
  | some (name, rest) =>
    let (caret, name) :=
      match name with
      | '^' :: name => (true, name)
      | name => (false, name)
    match CharSet.ofPropertyName? name with
    | some s => .ok (CharSet.complIf (negated != caret) s, rest)
    | none => .error .unknownProperty

/-- The sets that a letter after the backslash names, inside and outside classes. -/
def namedSet? : Char → Option CharSet
  | 'w' => some .word
  | 'W' => some (.compl .word)
  | 'd' => some .digit
  | 'D' => some (.compl .digit)
  | 's' => some .space
  | 'S' => some (.compl .space)
  | 'h' => some .hexDigit
  | 'H' => some (.compl .hexDigit)
  | _ => none

/-- The character of `\x`, `\o`, `\u` and octal escapes, where `c` follows the backslash. -/
def coded? (c : Char) (cs : List Char) : Except RegexError (Option (Char × List Char)) :=
  match c with
  | 'x' => do
    match ← braced? 16 8 cs, cs with
    | some r, _ => .ok (some r)
    | none, '\x7b' :: _ => .ok (some ('x', cs))
    | none, _ =>
      let (byte, rest) := digits 16 0 2 cs
      .ok (some (← fromByte byte rest))
  | 'o' => do
    match ← braced? 8 11 cs with
    | some r => .ok (some r)
    | none => .ok (some ('o', cs))
  | 'u' => do
    let (value, rest) := digits 16 0 4 cs
    if rest.length + 4 = cs.length then .ok (some (← Regex.character value, rest))
    else .error .invalidEscape
  | c => do
    if '0' ≤ c && c ≤ '7' then
      let (value, rest) := digits 8 (c.toNat - 48) 2 cs
      if 255 < value then .error .invalidCharacter
      else .ok (some (← fromByte value rest))
    else .ok none

/-! ## Outside classes -/

/-- Whether a character is skipped where white space does not count. -/
def isFiller (c : Char) : Bool := [' ', '\t', '\n', '\r', '\x0c'].contains c

/-- What follows the closing parenthesis of a comment. -/
def afterComment : List Char → Except RegexError (List Char)
  | [] => .error .unexpectedEnd
  | '\\' :: _ :: cs => afterComment cs
  | c :: cs => if c == ')' then .ok cs else afterComment cs

/-- What follows the line of a comment. -/
def afterLine (cs : List Char) : List Char := (cs.dropWhile (· != '\n')).drop 1

/-- The pattern from the next token on, past comments and past white space that does not count. At
most `fuel` of them are skipped. -/
def skipFiller (extended : Bool) : Nat → List Char → Except RegexError (List Char)
  | 0, cs => .ok cs
  | fuel + 1, cs =>
    match cs with
    | '(' :: '?' :: '#' :: rest => do skipFiller extended fuel (← afterComment rest)
    | '#' :: rest => if extended then skipFiller extended fuel (afterLine rest) else .ok cs
    | c :: rest => if extended && isFiller c then skipFiller extended fuel rest else .ok cs
    | [] => .ok []

/-- The greatest bound that a repetition may have. -/
def maxRepetition : Nat := 100000

/-- The bounds in braces, where `cs` follows the opening brace; nothing where the brace is itself
meant. The flag tells a single bound. -/
def bounds? (cs : List Char) :
    Except RegexError (Option (Nat × Option Nat × Bool × List Char)) :=
  match decimal? cs with
  | some (low, rest) =>
    if maxRepetition < low then .error .invalidRepetition
    else match rest with
      | '\x7d' :: rest => .ok (some (low, some low, true, rest))
      | ',' :: rest =>
        match decimal? rest with
        | some (high, rest) =>
          if maxRepetition < high then .error .invalidRepetition
          else match rest with
            | '\x7d' :: rest => .ok (some (low, some high, false, rest))
            | _ => .ok none
        | none =>
          match rest with
          | '\x7d' :: rest => .ok (some (low, none, false, rest))
          | _ => .ok none
      | _ => .ok none
  | none =>
    match cs with
    | ',' :: rest =>
      match decimal? rest with
      | some (high, rest) =>
        if maxRepetition < high then .error .invalidRepetition
        else match rest with
          | '\x7d' :: rest => .ok (some (0, some high, false, rest))
          | _ => .ok none
      | none => .ok none
    | _ => .ok none

/-- The quantifier after its bounds: a question mark makes it lazy, and a plus sign possessive
where the bounds were not in braces. -/
def quantifier (low : Nat) (high : Option Nat) (braces : Bool) (cs : List Char) :
    Quantifier × List Char :=
  match cs with
  | '?' :: rest => (⟨low, high, false, false⟩, rest)
  | '+' :: rest =>
    if braces then (⟨low, high, true, false⟩, cs) else (⟨low, high, true, true⟩, rest)
  | _ => (⟨low, high, true, false⟩, cs)

/-- The quantifier in braces. A single bound is never lazy, and bounds in the wrong order make the
repetition possessive. -/
def braces? (cs : List Char) : Except RegexError (Option (Quantifier × List Char)) := do
  match ← bounds? cs with
  | none => .ok none
  | some (low, some high, single, rest) =>
    if single then .ok (some (⟨low, some high, true, false⟩, rest))
    else if high < low then .ok (some (⟨high, some low, true, true⟩, rest))
    else .ok (some (quantifier low (some high) true rest))
  | some (low, none, _, rest) => .ok (some (quantifier low none true rest))

/-- Whether a text is a group name: it starts with no digit and holds only characters of words. -/
def isGroupName (name : List Char) : Bool :=
  match name with
  | [] => false
  | c :: _ => !Category.decimalNumber.holds c && name.all Property.isWord

/-- The group that a reference between delimiters names, where `count` groups have been opened. -/
def groupRef (count : Nat) (text : List Char) : Except RegexError GroupRef :=
  let number := fun (cs : List Char) =>
    match decimal? cs with
    | some (n, []) => some n
    | _ => none
  match text with
  | [] => .error .invalidGroupName
  | '-' :: cs =>
    match number cs with
    | some n => if 0 < n && n ≤ count then .ok (.number (count + 1 - n)) else .error .unknownGroup
    | none => .error .invalidGroupName
  | '+' :: cs =>
    match number cs with
    | some n => if 0 < n then .ok (.number (count + n)) else .error .unknownGroup
    | none => .error .invalidGroupName
  | c :: _ =>
    if c.isDigit then
      match number text with
      | some n => .ok (.number n)
      | none => .error .invalidGroupName
    else if isGroupName text then .ok (.name (String.ofList text))
    else .error .invalidGroupName

/-- The delimited reference after `\k` or `\g`; nothing where no delimiter follows. -/
def delimitedRef? (count : Nat) (cs : List Char) :
    Except RegexError (Option (GroupRef × List Char)) := do
  let close? :=
    match cs with
    | '<' :: rest => some ('>', rest)
    | '\'' :: rest => some ('\'', rest)
    | _ => none
  match close? with
  | none => .ok none
  | some (close, rest) =>
    match upTo? close rest with
    | none => .error .invalidGroupName
    | some (text, rest) => .ok (some (← groupRef count text, rest))

/-- The positions that a letter after the backslash tests. -/
def namedAssertion? : Char → Option Assertion
  | 'A' => some .textStart
  | 'Z' => some .textEndOrLastNewline
  | 'z' => some .textEnd
  | 'G' => some .searchStart
  | 'b' => some .wordBoundary
  | 'B' => some .notWordBoundary
  | _ => none

/-- The token after a backslash, where `count` groups have been opened. Digits refer to a group if
there is one of that number so far, or if there is only one digit. -/
def lexEscape (count : Nat) (c : Char) (cs : List Char) :
    Except RegexError (Token × List Char) := do
  if let some s := namedSet? c then return (.set s, cs)
  if let some a := namedAssertion? c then return (.assertion a, cs)
  match c with
  | 'K' => return (.keep, cs)
  | 'R' => return (.newline, cs)
  | 'N' => return (.set .notNewline, cs)
  | 'O' => return (.set .everything, cs)
  | 'X' => throw .unsupported
  | 'y' => throw .unsupported
  | 'Y' => throw .unsupported
  | 'p' =>
    if let '\x7b' :: rest := cs then
      let (s, rest) ← bracedProperty false rest
      return (.property s, rest)
    return (.char 'p', cs)
  | 'P' =>
    if let '\x7b' :: rest := cs then
      let (s, rest) ← bracedProperty true rest
      return (.property s, rest)
    return (.char 'P', cs)
  | 'k' =>
    if let some (r, rest) ← delimitedRef? count cs then return (.backReference r, rest)
    return (.char 'k', cs)
  | 'g' =>
    if let some (r, rest) ← delimitedRef? count cs then return (.call r, rest)
    return (.char 'g', cs)
  | c =>
    if '1' ≤ c && c ≤ '9' then
      if let some (n, rest) := decimal? (c :: cs) then
        if n ≤ 9 || (n ≤ count && n ≤ 1000) then return (.backReference (.number n), rest)
    if c == '8' || c == '9' then return (.char c, cs)
    if let some (c, rest) ← coded? c cs then return (.char c, rest)
    let (c, rest) ← escaped c cs
    return (.char c, rest)

/-- The first token and what follows it. -/
def lex (o : Options) (count : Nat) (pattern : List Char) :
    Except RegexError (Token × List Char) := do
  match ← skipFiller o.extended pattern.length pattern with
  | [] => return (.done, [])
  | '\\' :: [] => throw .unexpectedEnd
  | '\\' :: c :: cs => lexEscape count c cs
  | '|' :: cs => return (.bar, cs)
  | '(' :: cs => return (.openGroup, cs)
  | ')' :: cs => return (.closeGroup, cs)
  | '[' :: cs => return (.openClass, cs)
  | '.' :: cs => return (.dot, cs)
  | '^' :: cs => return (.assertion .lineStart, cs)
  | '$' :: cs => return (.assertion .lineEnd, cs)
  | '*' :: cs =>
    let (q, rest) := quantifier 0 none false cs
    return (.repetition q, rest)
  | '+' :: cs =>
    let (q, rest) := quantifier 1 none false cs
    return (.repetition q, rest)
  | '?' :: cs =>
    let (q, rest) := quantifier 0 (some 1) false cs
    return (.repetition q, rest)
  | '\x7b' :: cs =>
    match ← braces? cs with
    | some (q, rest) => return (.repetition q, rest)
    | none => return (.char '\x7b', cs)
  | c :: cs => return (.char c, cs)

/-! ## Inside classes -/

/-- The tokens inside classes. -/
inductive ClassToken where
  | close
  | dash
  | conjunction
  | openClass
  | set (s : CharSet)
  | char (c : Char)
  deriving Repr

/-- Whether `:]` comes before the next `]` that is not escaped. -/
def closesBracket : List Char → Bool
  | [] => false
  | '\\' :: _ :: cs => closesBracket cs
  | ':' :: ']' :: _ => true
  | c :: cs => if c == ']' then false else closesBracket cs

/-- The set named between `[:` and `:]`, where `cs` follows `[:`; nothing where a bracket is meant
that only looks like one. -/
def posixClass? (cs : List Char) : Except RegexError (Option (CharSet × List Char)) :=
  let (negated, body) :=
    match cs with
    | '^' :: body => (true, body)
    | body => (false, body)
  let name := body.takeWhile fun c => !(c == ':' || c == ']')
  match body.dropWhile fun c => !(c == ':' || c == ']') with
  | ':' :: ']' :: rest =>
    match CharSet.posixNames.lookup (String.ofList name) with
    | some s => .ok (some (CharSet.complIf negated s, rest))
    | none => if name.length ≤ 20 then .error .unknownProperty else .ok none
  | _ => .ok none

/-- The class token after a backslash. -/
def lexClassEscape (c : Char) (cs : List Char) : Except RegexError (ClassToken × List Char) := do
  if let some s := namedSet? c then return (.set s, cs)
  match c with
  | 'p' =>
    if let '\x7b' :: rest := cs then
      let (s, rest) ← bracedProperty false rest
      return (.set s, rest)
    return (.char 'p', cs)
  | 'P' =>
    if let '\x7b' :: rest := cs then
      let (s, rest) ← bracedProperty true rest
      return (.set s, rest)
    return (.char 'P', cs)
  | c =>
    if let some (c, rest) ← coded? c cs then return (.char c, rest)
    let (c, rest) ← escaped c cs
    return (.char c, rest)

/-- The first token of the rest of a class and what follows it. -/
def lexInClass : List Char → Except RegexError (ClassToken × List Char)
  | [] => .error .unclosedClass
  | ']' :: cs => .ok (.close, cs)
  | '-' :: cs => .ok (.dash, cs)
  | '&' :: '&' :: cs => .ok (.conjunction, cs)
  | '\\' :: [] => .error .unexpectedEnd
  | '\\' :: c :: cs => lexClassEscape c cs
  | '[' :: ':' :: cs => do
    if closesBracket cs then
      match ← posixClass? cs with
      | some (s, rest) => .ok (.set s, rest)
      | none => .ok (.char '[', ':' :: cs)
    else .ok (.openClass, ':' :: cs)
  | '[' :: cs => .ok (.openClass, cs)
  | c :: cs => .ok (.char c, cs)

end Highlight.GrammarPattern
