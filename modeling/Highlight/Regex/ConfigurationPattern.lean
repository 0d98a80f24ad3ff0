import Highlight.Regex.BracketClass
import Highlight.Regex.Match

/-!
# Patterns of language configurations

The dialect of the patterns in language configurations. `^` and `$` stand for the ends of the text
unless the option `m` is on, the dot does not match a line feed unless `s` is on, and only what
consumes text can be repeated. `Regex.ofConfigurationPattern` reads such a pattern.
-/

namespace Highlight.ConfigurationPattern

/-- The options that a pattern can turn on and off. -/
structure Options where
  ignoreCase : Bool
  /-- `^` and `$` match at every line. -/
  multiLine : Bool
  /-- The dot matches the line feed too. -/
  dotAll : Bool
  /-- Repetitions are lazy where they would be greedy, and the other way round. -/
  swapGreed : Bool
  /-- White space and `#` comments do not count. -/
  extended : Bool
  deriving Repr, DecidableEq

/-- No options. -/
def Options.off : Options := ⟨false, false, false, false, false⟩

/-- The state of reading a pattern. -/
structure Reader where
  rest : List Char
  options : Options
  /-- The number of groups so far. -/
  count : Nat
  names : List (String × Nat)
  /-- Numbers of groups that are referred to. -/
  references : List Nat
  /-- Some of the references are by number. -/
  byNumber : Bool
  groups : List (Nat × Node)

/-- Whether something can be repeated. -/
inductive Kind where
  /-- Nothing at all. -/
  | empty
  /-- A test of a position. -/
  | test
  | repeatable
  deriving Repr, DecidableEq

/-- A part of a pattern. -/
structure Part where
  node : Node
  kind : Kind

namespace Part

/-- Nothing at all. -/
def empty : Part := ⟨.empty, .empty⟩

/-- A part that can be repeated. -/
def of (n : Node) : Part := ⟨n, .repeatable⟩

/-- A test of a position. -/
def test (a : Assertion) : Part := ⟨.assertion a, .test⟩

/-- One part after another. -/
def sequence (ps : List Part) : Part :=
  match ps.filter (·.kind != .empty) with
  | [] => empty
  | [p] => p
  | ps => of (.ofList (ps.map (·.node)))

/-- One of several parts. -/
def choice : List Part → Part
  | [p] => p
  | ps => of (.anyOf (ps.map (·.node)))

end Part

namespace Reader

/-- The state with another rest. -/
def at_ (r : Reader) (rest : List Char) : Reader := { r with rest := rest }

/-- The state after a number of characters. -/
def skip (r : Reader) (n : Nat) : Reader := r.at_ (r.rest.drop n)

end Reader

/-! ## White space and numbers -/

/-- What follows a comment in parentheses. -/
def afterComment : List Char → Except RegexError (List Char)
  | [] => .error .unclosedGroup
  | ')' :: cs => .ok cs
  | '\\' :: _ :: cs => afterComment cs
  | _ :: cs => afterComment cs

/-- Past comments and, in extended patterns, white space. -/
def skipBlanks (extended : Bool) : Nat → List Char → Except RegexError (List Char)
  | 0, cs => .ok cs
  | fuel + 1, cs =>
    match cs with
    | '(' :: '?' :: '#' :: rest => do skipBlanks extended fuel (← afterComment rest)
    | '#' :: rest =>
      if extended then skipBlanks extended fuel ((rest.dropWhile (· != '\n')).drop 1) else .ok cs
    | c :: rest =>
      if extended && (c == ' ' || c == '\t' || c == '\r' || c == '\n') then
        skipBlanks extended fuel rest
      else .ok cs
    | [] => .ok []

/-- The state past comments and white space that does not count. -/
def Reader.trim (r : Reader) : Except RegexError Reader := do
  return r.at_ (← skipBlanks r.options.extended r.rest.length r.rest)

/-- The leading decimal number, if it fits 64 bits. -/
def decimal? (cs : List Char) : Option (Nat × List Char) :=
  let ds := cs.takeWhile Char.isDigit
  ((Numeral.value? 10 ds).filter (· < UInt64.size)).map (·, cs.drop ds.length)

/-- The character of a code point written in digits of the base sixteen. -/
def codePoint (digits : List Char) : Except RegexError Char :=
  match Numeral.value? 16 digits with
  | some n => Regex.character n
  | none => .error .invalidEscape

/-- The character of an escape with a fixed number of digits, or up to eight in braces. -/
def coded (width : Nat) (cs : List Char) : Except RegexError (Char × List Char) :=
  match cs with
  | '\x7b' :: cs =>
    let ds := cs.takeWhile Numeral.isHexDigit
    match cs.drop ds.length with
    | '\x7d' :: rest =>
      if ds.isEmpty || 8 < ds.length then .error .invalidEscape
      else do return (← codePoint ds, rest)
    | _ => .error .invalidEscape
  | cs =>
    if (cs.take width).length == width then do return (← codePoint (cs.take width), cs.drop width)
    else .error .invalidEscape

/-! ## Names -/

/-- A letter, a number or an underscore. -/
def isNameChar (c : Char) : Bool :=
  c == '_' || Property.isAlphabetic c || Category.numbers.any (·.holds c)

/-- The name up to a closing character, and what follows that. -/
def nameUpTo? (close : Char) (cs : List Char) : Option (String × List Char) :=
  let name := cs.takeWhile isNameChar
  match cs.drop name.length with
  | c :: rest => if c == close && !name.isEmpty then some (String.ofList name, rest) else none
  | [] => none

/-- The number of a group that is counted from here. -/
def relative? (count : Nat) (close : Char) (cs : List Char) : Option (Nat × List Char) :=
  match cs with
  | sign :: cs =>
    match decimal? cs with
    | some (n, c :: rest) =>
      if c != close then none
      else if sign == '-' then (if 0 < n && n ≤ count then some (count + 1 - n, rest) else none)
      else if sign == '+' then (if 0 < n then some (count + n, rest) else none)
      else none
    | _ => none
  | [] => none

/-- The group that a name or number up to a closing character stands for. -/
def groupNamed (r : Reader) (close : Char) (cs : List Char) :
    Except RegexError (Nat × List Char) :=
  match nameUpTo? close cs with
  | some (name, rest) =>
    match r.names.lookup name, decimal? name.toList with
    | some i, _ => .ok (i, rest)
    | none, some (i, []) => .ok (i, rest)
    | none, _ => .error .unknownGroup
  | none =>
    match relative? r.count close cs with
    | some found => .ok found
    | none => .error .invalidGroupName

/-! ## Escapes -/

/-- Characters of words, joiners included. -/
def wordSet : CharSet := .union .word (.range '\u200c' '\u200d')

/-- Digits of the base sixteen, ASCII only. -/
def asciiHex : CharSet := .union (.range '0' '9') (.union (.range 'a' 'f') (.range 'A' 'F'))

/-- The sets that a letter after the backslash names. -/
def namedSet? : Char → Option CharSet
  | 'd' => some .digit
  | 'D' => some (.compl .digit)
  | 's' => some .space
  | 'S' => some (.compl .space)
  | 'w' => some wordSet
  | 'W' => some (.compl wordSet)
  | _ => none

/-- The characters that a letter after the backslash stands for. -/
def control? : Char → Option Char
  | 'a' => some '\x07'
  | 'f' => some '\x0c'
  | 'n' => some '\n'
  | 'r' => some '\r'
  | 't' => some '\t'
  | 'v' => some '\x0b'
  | 'e' => some '\x1b'
  | _ => none

/-- The set of `\p`, where `cs` follows the letter. -/
def property (negated ignoreCase : Bool) (cs : List Char) :
    Except RegexError (CharSet × List Char) := do
  let (name, rest) ←
    match cs with
    | [] => throw .unexpectedEnd
    | '\x7b' :: cs =>
      let name := cs.takeWhile (· != '\x7d')
      match cs.drop name.length with
      | _ :: rest => pure (name, rest)
      | [] => throw .unknownProperty
    | c :: rest => pure ([c], rest)
  match CharSet.ofNormalName? (CharSet.normalName name) with
  | some s =>
    let s := if ignoreCase then CharSet.anyCase s else s
    return (CharSet.complIf negated s, rest)
  | none => throw .unknownProperty

/-- A character, in any case if case does not matter. -/
def charNode (ignoreCase : Bool) (c : Char) : Node :=
  if ignoreCase then .set (.anyCase (.single c)) else .char c

/-- What an escape inside brackets stands for, where `c` follows the backslash. -/
def classEscape (ignoreCase : Bool) (c : Char) (cs : List Char) :
    Except RegexError (BracketClass.Piece × List Char) :=
  if c.isDigit then .error .invalidEscape
  else
    match namedSet? c, control? c with
    | some s, _ => .ok (.item s, cs)
    | none, some x => .ok (.literal x, cs)
    | none, none =>
      if c == 'h' then .ok (.nested asciiHex, cs)
      else if c == 'H' then .ok (.nested (.compl asciiHex), cs)
      else if c == 'x' then do
        let (x, cs) ← coded 2 cs
        return (.literal x, cs)
      else if c == 'u' then do
        let (x, cs) ← coded 4 cs
        return (.literal x, cs)
      else if c == 'U' then do
        let (x, cs) ← coded 8 cs
        return (.literal x, cs)
      else if c == 'p' || c == 'P' then do
        let (s, cs) ← property (c == 'P') ignoreCase cs
        return (.item s, cs)
      else if c == 'b' then .ok (.literal '\x08', cs)
      else if c.isAlpha && !(['k', 'g', 'A', 'z', 'B', 'K', 'G'].contains c) then
        .error .invalidEscape
      else .ok (.literal c, cs)

/-- A line break of any kind. -/
def newline : Node :=
  .atomic (.alt (.literal ['\r', '\n'])
    (.set (.ofList ['\n', '\x0b', '\x0c', '\r', '\u0085', '\u2028', '\u2029'])))

/-- The position tests that an escaped character stands for. -/
def testOf? : Char → Option Part
  | 'A' => some (.test .textStart)
  | 'z' => some (.test .textEnd)
  | 'Z' => some ⟨.lookAhead false
      (.seq (.repetition (.char '\n') 0 none true) (.assertion .textEnd)), .test⟩
  | 'b' => some (.test .wordBoundary)
  | 'B' => some (.test .notWordBoundary)
  | '<' => some (.test .wordStart)
  | '>' => some (.test .wordEnd)
  | 'G' => some (.of (.assertion .searchStart))
  | 'K' => some (.of .keep)
  | 'O' => some (.of (.set .everything))
  | 'N' => some (.of (.set .notNewline))
  | 'R' => some (.of newline)
  | _ => none

/-- A reference to a group. -/
def reference (r : Reader) (i : Nat) (rest : List Char) : Part × Reader :=
  (.of (.backReference [i] r.options.ignoreCase),
   { r with rest := rest, references := i :: r.references })

/-- A reference to a group by its number. -/
def numberedGroup (r : Reader) (cs : List Char) : Except RegexError (Nat × Reader) :=
  match decimal? cs with
  | some (i, rest) =>
    .ok (i, { r with rest := rest, references := i :: r.references, byNumber := true })
  | none => .error .unknownGroup

/-- What an escape outside brackets stands for, where `r` is at the character after the backslash.
-/
def escape (r : Reader) : Except RegexError (Part × Reader) :=
  match r.rest with
  | [] => .error .unexpectedEnd
  | c :: cs =>
    if c.isDigit then do
      let (i, r) ← numberedGroup r r.rest
      return (.of (.backReference [i] r.options.ignoreCase), r)
    else if c == 'k' then
      match cs with
      | '\'' :: cs => do
        let (i, rest) ← groupNamed r '\'' cs
        return reference r i rest
      | '<' :: cs => do
        let (i, rest) ← groupNamed r '>' cs
        return reference r i rest
      | _ => .error .invalidGroupName
    else if c == 'g' then
      match cs with
      | '<' :: cs => do
        let (i, rest) ← groupNamed r '>' cs
        return (.of (.call i), { r with rest := rest, references := i :: r.references })
      | _ => .error .invalidGroupName
    else if (c == 'b' || c == 'B') && cs.head? == some '\x7b' then .error .invalidEscape
    else
      match testOf? c with
      | some p => .ok (p, r.at_ cs)
      | none => do
        let (piece, cs) ← classEscape r.options.ignoreCase c cs
        let r := r.at_ cs
        match piece with
        | .plain x => return (.of (charNode r.options.ignoreCase x), r)
        | .literal x => return (.of (charNode r.options.ignoreCase x), r)
        | .item s => return (.of (.set s), r)
        | .nested s => return (.of (.set s), r)

/-! ## Classes -/

/-- The pieces of a class up to the bracket that closes it, where `depth` brackets are open. -/
def classPieces (o : Options) :
    Nat → (depth : Nat) → List Char → Except RegexError (List BracketClass.Piece × List Char)
  | 0, _, _ => .error .unclosedClass
  | fuel + 1, depth, cs => do
    let cs ← skipBlanks o.extended cs.length cs
    match cs with
    | [] => .error .unclosedClass
    | '\\' :: [] => .error .unexpectedEnd
    | '\\' :: c :: cs =>
      let (p, cs) ← classEscape o.ignoreCase c cs
      let (ps, rest) ← classPieces o fuel depth cs
      return (p :: ps, rest)
    | '[' :: cs =>
      let (ps, rest) ← classPieces o fuel (depth + 1) cs
      return (.plain '[' :: ps, rest)
    | ']' :: cs =>
      if depth ≤ 1 then return ([.plain ']'], cs)
      else
        let (ps, rest) ← classPieces o fuel (depth - 1) cs
        return (.plain ']' :: ps, rest)
    | c :: cs =>
      let (ps, rest) ← classPieces o fuel depth cs
      return (.plain c :: ps, rest)

/-- A class after its opening bracket. A closing bracket that comes first stands for itself. -/
def bracketed (r : Reader) : Except RegexError (Part × Reader) := do
  let (front, cs) : List BracketClass.Piece × List Char := match r.rest with
    | '^' :: ']' :: cs => ([.plain '^', .literal ']'], cs)
    | '^' :: cs => ([.plain '^'], cs)
    | ']' :: cs => ([.literal ']'], cs)
    | cs => ([], cs)
  let (ps, rest) ← classPieces r.options (cs.length + 1) 1 cs
  let s ← BracketClass.read r.options.ignoreCase (front ++ ps)
  return (.of (.set s), r.at_ rest)

/-! ## Repetitions -/

/-- The bounds of a repetition in braces and what follows it; nothing where the brace stands for
itself. -/
def braces (extended : Bool) (cs : List Char) :
    Except RegexError (Option (Nat × Option Nat × List Char)) := do
  let trim := fun (cs : List Char) => skipBlanks extended cs.length cs
  let cs ← trim cs
  let (low, cs) := match cs with
    | ',' :: _ => (some 0, cs)
    | cs =>
      match decimal? cs with
      | some (n, rest) => (some n, rest)
      | none => (none, cs)
  match low with
  | none => return none
  | some low =>
    match ← trim cs with
    | '\x7d' :: rest => return some (low, some low, rest)
    | ',' :: rest =>
      let rest ← trim rest
      let (high, rest) := match decimal? rest with
        | some (n, rest) => (some n, rest)
        | none => (none, rest)
      match ← trim rest with
      | '\x7d' :: rest => return some (low, high, rest)
      | _ => return none
    | _ => return none

/-- The bounds of a repetition that starts here. -/
def bounds (extended : Bool) (cs : List Char) :
    Except RegexError (Option (Nat × Option Nat × List Char)) :=
  match cs with
  | '?' :: rest => .ok (some (0, some 1, rest))
  | '*' :: rest => .ok (some (0, none, rest))
  | '+' :: rest => .ok (some (1, none, rest))
  | '\x7b' :: rest => braces extended rest
  | _ => .ok none

/-- The part with the repetition that follows it, if one does. -/
def repeated (p : Part) (r : Reader) : Except RegexError (Part × Reader) := do
  let r ← r.trim
  match ← bounds r.options.extended r.rest with
  | none => return (p, r)
  | some (low, high, rest) =>
    if p.kind != .repeatable then throw .nothingToRepeat
    if high.any (· < low) then throw .invalidRepetition
    let r ← (r.at_ rest).trim
    let (lazy, r) := match r.rest with
      | '?' :: rest => (true, r.at_ rest)
      | _ => (false, r)
    let n := Node.repetition p.node low high (lazy == r.options.swapGreed)
    match r.rest with
    | '+' :: rest => return (.of (.atomic n), r.at_ rest)
    | _ => return (.of n, r)

/-! ## Groups -/

/-- The state after a closing parenthesis. -/
def close (r : Reader) : Except RegexError Reader := do
  let r ← r.trim
  match r.rest with
  | ')' :: rest => return r.at_ rest
  | _ => throw .unclosedGroup

/-- The options after a letter, turned on or off. -/
def Options.change? (o : Options) (off : Bool) : Char → Option Options
  | 'i' => some { o with ignoreCase := !off }
  | 'm' => some { o with multiLine := !off }
  | 's' => some { o with dotAll := !off }
  | 'U' => some { o with swapGreed := !off }
  | 'x' => some { o with extended := !off }
  | 'u' => if off then none else some o
  | _ => none

/-- The letters of options up to what ends them. The flag tells that a group with these options
starts. -/
def optionLetters : Nat → (first off afterSign : Bool) → Reader → Except RegexError (Bool × Reader)
  | 0, _, _, _, _ => .error .unclosedGroup
  | fuel + 1, first, off, afterSign, r => do
    let r ← r.trim
    match r.rest with
    | [] => throw .unclosedGroup
    | '-' :: rest =>
      if off then throw .unknownOption else optionLetters fuel false true true (r.at_ rest)
    | ')' :: rest =>
      if first || afterSign then throw .unknownOption else return (false, r.at_ rest)
    | ':' :: rest => if afterSign then throw .unknownOption else return (true, r.at_ rest)
    | c :: rest =>
      match r.options.change? off c with
      | some o => optionLetters fuel false off false { r with rest := rest, options := o }
      | none => throw .unknownOption

/-- What a group is. -/
inductive GroupKind where
  | capture (index : Nat)
  | atomic
  | lookAhead (negated : Bool)
  | lookBehind (negated : Bool)

namespace GroupKind

/-- The part of a group with the given content. -/
def part (k : GroupKind) (body : Node) : Part :=
  match k with
  | capture i => .of (.group i body)
  | atomic => .of (.atomic body)
  | lookAhead negated => ⟨.lookAhead negated body, .test⟩
  | lookBehind negated =>
    let w := body.width
    ⟨.lookBehind negated w.low w.high body, .test⟩

end GroupKind

/-- A group that captures starts, with a name if it has one. -/
def startCapture (r : Reader) (name : Option String) (rest : List Char) : GroupKind × Reader :=
  let i := r.count + 1
  let names := match name with
    | some n => (n, i) :: r.names
    | none => r.names
  (.capture i, { r with rest := rest, count := i, names := names })

/-- What the characters after an opening parenthesis start, if it is a group with content of its
own. -/
def groupStart (r : Reader) : Except RegexError (Option (GroupKind × Reader)) :=
  let named := fun (close : Char) (cs : List Char) =>
    match nameUpTo? close cs with
    | some (n, rest) => .ok (some (startCapture r (some n) rest))
    | none => .error .invalidGroupName
  match r.rest with
  | '?' :: '=' :: rest => .ok (some (.lookAhead false, r.at_ rest))
  | '?' :: '!' :: rest => .ok (some (.lookAhead true, r.at_ rest))
  | '?' :: '<' :: '=' :: rest => .ok (some (.lookBehind false, r.at_ rest))
  | '?' :: '<' :: '!' :: rest => .ok (some (.lookBehind true, r.at_ rest))
  | '?' :: '<' :: rest => named '>' rest
  | '?' :: '\'' :: rest => named '\'' rest
  | '?' :: 'P' :: '<' :: rest => named '>' rest
  | '?' :: '>' :: rest => .ok (some (.atomic, r.at_ rest))
  | '?' :: _ => .ok none
  | rest => .ok (some (startCapture r none rest))

/-- How deep groups nest. -/
def maxDepth : Nat := 64

/-- The first alternative, and the others together. -/
def splitChoice : List Part → Part × Part
  | [] => (.empty, .empty)
  | [p] => (p, .empty)
  | p :: ps => (p, .choice ps)

mutual

/-- The alternatives up to what ends them. -/
def alternatives : Nat → (depth : Nat) → Reader → Except RegexError (List Part × Reader)
  | 0, _, _ => .error .unclosedGroup
  | fuel + 1, depth, r => do
    let (ps, r) ← branch fuel depth r
    let r ← r.trim
    match r.rest with
    | '|' :: rest =>
      let (others, r) ← alternatives fuel depth (r.at_ rest)
      return (.sequence ps :: others, r)
    | _ =>
      if r.byNumber && !r.names.isEmpty then throw .ambiguousGroup
      return ([.sequence ps], r)

/-- The parts of one alternative. -/
def branch : Nat → (depth : Nat) → Reader → Except RegexError (List Part × Reader)
  | 0, _, _ => .error .unclosedGroup
  | fuel + 1, depth, r => do
    let (p, after) ← atom fuel depth r
    let (p, after) ← repeated p after
    if after.rest.length == r.rest.length then return ([], after)
    else
      let (ps, r) ← branch fuel depth after
      return (p :: ps, r)

/-- One part without its repetition. -/
def atom : Nat → (depth : Nat) → Reader → Except RegexError (Part × Reader)
  | 0, _, _ => .error .unclosedGroup
  | fuel + 1, depth, r => do
    let r ← r.trim
    let o := r.options
    match r.rest with
    | [] => return (.empty, r)
    | '.' :: rest => return (.of (.set (if o.dotAll then .everything else .notNewline)), r.at_ rest)
    | '^' :: rest =>
      return (.test (if o.multiLine then .lineStartStrict else .textStart), r.at_ rest)
    | '$' :: rest => return (.test (if o.multiLine then .lineEnd else .textEnd), r.at_ rest)
    | '(' :: rest => group fuel (depth + 1) (r.at_ rest)
    | '\\' :: rest => escape (r.at_ rest)
    | '[' :: rest => bracketed (r.at_ rest)
    | c :: rest =>
      if ['+', '*', '?', '|', ')'].contains c then return (.empty, r)
      else return (.of (charNode o.ignoreCase c), r.at_ rest)

/-- A group after its opening parenthesis. -/
def group : Nat → (depth : Nat) → Reader → Except RegexError (Part × Reader)
  | 0, _, _ => .error .unclosedGroup
  | fuel + 1, depth, r => do
    if maxDepth ≤ depth then throw .unsupported
    let r ← r.trim
    let outer := r.options
    match ← groupStart r with
    | some (kind, r) =>
      let (ps, r) ← alternatives fuel depth r
      let r ← close r
      let p := kind.part (Part.choice ps).node
      let groups := match kind with
        | .capture i => (i, p.node) :: r.groups
        | _ => r.groups
      return (p, { r with options := outer, groups := groups })
    | none =>
      match r.rest with
      | '?' :: 'P' :: '=' :: rest =>
        let (i, rest) ← groupNamed r ')' rest
        return reference r i rest
      | '?' :: 'P' :: '>' :: rest =>
        let (i, rest) ← groupNamed r ')' rest
        return (.of (.call i), { r with rest := rest, references := i :: r.references })
      | '?' :: '(' :: rest => condition fuel depth (r.at_ rest)
      | _ =>
        let (opens, r) ← optionLetters (r.rest.length + 1) true false false (r.skip 1)
        if opens then
          let (ps, r) ← alternatives fuel depth r
          match r.rest with
          | ')' :: rest => return (.choice ps, { r with rest := rest, options := outer })
          | _ => throw .unclosedGroup
        else return (.empty, r)

/-- A group that depends on a condition, after the parenthesis that opens the condition. -/
def condition : Nat → (depth : Nat) → Reader → Except RegexError (Part × Reader)
  | 0, _, _ => .error .unclosedGroup
  | fuel + 1, depth, r => do
    let (asked, given, r) ←
      match r.rest with
      | '<' :: rest => do
        let (i, rest) ← groupNamed r '>' rest
        pure (some i, Part.empty, (reference r i rest).2)
      | '\'' :: rest => do
        let (i, rest) ← groupNamed r '\'' rest
        pure (some i, Part.empty, (reference r i rest).2)
      | c :: _ =>
        if c.isDigit then do
          let (i, r) ← numberedGroup r r.rest
          pure (some i, Part.empty, r)
        else do
          let (ps, r) ← alternatives fuel depth r
          pure (none, Part.choice ps, r)
      | [] => throw .unclosedGroup
    let r ← close r
    let (ps, after) ← alternatives fuel depth r
    let isBare := after.rest.length == r.rest.length
    let r ← close after
    let (yes, no) := splitChoice ps
    match asked with
    | some i => return (.of (.ifGroup i yes.node (if isBare then .fail else no.node)), r)
    | none =>
      if isBare then throw .invalidGroupName
      let held := Node.seq (.atomic given.node) yes.node
      let missed := Node.seq (.lookAhead true given.node) no.node
      return (.of (.alt held missed), r)

end

/-- The state before a pattern. -/
def start (cs : List Char) : Reader := ⟨cs, .off, 0, [], [], false, []⟩

end Highlight.ConfigurationPattern

namespace Highlight.Regex

open ConfigurationPattern in
/-- Reads a pattern of a language configuration. -/
def ofConfigurationPattern (pattern : String) : Except RegexError Regex := do
  let cs := pattern.toList
  let (ps, r) ← alternatives (4 * cs.length + 4) 0 (start cs)
  if !r.rest.isEmpty then throw .unmatchedClose
  if r.references.any fun i => i == 0 || r.count < i then throw .unknownGroup
  let body := (Part.choice ps).node
  let node := fun i => if i = 0 then body else (r.groups.lookup i).getD .fail
  return ⟨body, ((List.range (r.count + 1)).map node).toArray⟩

end Highlight.Regex
