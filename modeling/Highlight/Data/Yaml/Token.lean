import Highlight.Data.Yaml.Scalar

/-!
# Tokens of YAML

A text as tokens. Indentation becomes tokens that open and close block collections. Whether a scalar
is a key is known only at the colon after it, so the token that says so is inserted before the
scalar when the colon is met.
-/

namespace Highlight.Yaml

/-- A token. -/
inductive Token where
  | version (major minor : Nat)
  | tagShorthand (handle expansion : String)
  | documentStart
  | documentEnd
  | blockList
  | blockDict
  | blockEnd
  | openList
  | closeList
  | openDict
  | closeDict
  | entry
  | comma
  | key
  | value
  | anchor (name : String)
  | alias (name : String)
  | tag (handle suffix : String)
  /-- A scalar; `isPlain` where it has neither quotes nor a block indicator. -/
  | scalar (text : String) (isPlain : Bool)
  deriving Repr, DecidableEq, Inhabited

/-- A place where a key may have started. -/
structure KeyPlace where
  possible : Bool
  /-- Only a key may stand there. -/
  required : Bool
  /-- The number of tokens before it. -/
  count : Nat
  start : Cursor

/-- The state of reading tokens. -/
structure Lexer where
  here : Cursor
  tokens : Array Token
  /-- The columns of the open block collections, the innermost first. -/
  indents : List Nat
  /-- A place for each open flow collection and one for the block around them, the innermost
  first. -/
  keys : List KeyPlace
  /-- A key may start here. -/
  keyAllowed : Bool

namespace Lexer

/-- Whether the lexer is inside a flow collection. -/
def inFlow (l : Lexer) : Bool := 1 < l.keys.length

/-- No place for a key. -/
def noPlace (c : Cursor) : KeyPlace := ⟨false, false, 0, c⟩

/-- The state before a text. -/
def ofList (cs : List Char) : Lexer :=
  let c := Cursor.ofList cs
  ⟨c, #[], [], [noPlace c], true⟩

/-- The state with one more token. -/
def emit (l : Lexer) (t : Token) : Lexer := { l with tokens := l.tokens.push t }

/-- The state after `n` characters. -/
def skip (l : Lexer) (n : Nat) : Lexer := { l with here := l.here.steps n }

/-- The state with a token inserted before the last ones. -/
def insert (l : Lexer) (count : Nat) (t : Token) : Lexer :=
  { l with tokens := l.tokens.insertIdxIfInBounds count t }

/-! ## Places for keys -/

/-- Gives up places that have become too old for a key; nothing where a key was required there. -/
def dropStale (l : Lexer) : Option Lexer := do
  let keys ← l.keys.mapM fun k =>
    if k.possible && (k.start.line < l.here.line || k.start.index + 1024 < l.here.index) then
      if k.required then none else some { k with possible := false }
    else some k
  return { l with keys := keys }

/-- Gives up the innermost place; nothing where a key was required there. -/
def dropKey (l : Lexer) : Option Lexer :=
  match l.keys with
  | k :: ks =>
    if k.possible && k.required then none
    else some { l with keys := { k with possible := false } :: ks }
  | [] => some l

/-- Notes that a key may start here. -/
def saveKey (l : Lexer) : Option Lexer :=
  if l.keyAllowed then do
    let required := !l.inFlow && l.indents.head? == some l.here.column
    let l ← l.dropKey
    return { l with keys := ⟨true, required, l.tokens.size, l.here⟩ :: l.keys.tail }
  else some l

/-! ## Indentation -/

/-- Closes the block collections that are indented more than `column`, all where there is none. -/
def closeBlocks (l : Lexer) (column : Option Nat) : Lexer :=
  if l.inFlow then l
  else
    let (deeper, rest) := l.indents.span fun i => column.all (· < i)
    { l with
      tokens := l.tokens ++ (deeper.map fun _ => Token.blockEnd).toArray
      indents := rest }

/-- Opens a block collection at a column beyond the innermost one, with its token at the given
place. -/
def openBlock (l : Lexer) (column : Nat) (t : Token) (count : Nat) : Lexer :=
  if !l.inFlow && l.indents.head?.all (· < column) then
    { l.insert count t with indents := column :: l.indents }
  else l

/-! ## White space -/

/-- Past blanks, comments and line breaks. -/
def toToken : Nat → Lexer → Lexer
  | 0, l => l
  | fuel + 1, l =>
    match l.here.here with
    | some ' ' => toToken fuel (l.skip 1)
    | some '\t' => if l.inFlow || !l.keyAllowed then toToken fuel (l.skip 1) else l
    | some '#' => toToken fuel { l with here := l.here.toBreak }
    | some '\ufeff' => if l.here.index == 0 then toToken fuel (l.skip 1) else l
    | some c =>
      if isBreak c then
        toToken fuel
          { l with here := l.here.line'.1, keyAllowed := l.keyAllowed || !l.inFlow }
      else l
    | none => l

/-! ## Names -/

/-- The characters of names. -/
def isNameChar (c : Char) : Bool := c.isAlphanum || c == '_' || c == '-'

/-- The name at a cursor. -/
def name (c : Cursor) : String × Cursor :=
  let cs := c.rest.takeWhile isNameChar
  (String.ofList cs, c.steps cs.length)

/-- The name of an anchor or alias. -/
def anchorName? (c : Cursor) : Option (String × Cursor) :=
  let (n, after) := name c
  let bounded := match after.here with
    | some x => isBlank x || isBreak x || ['?', ':', ',', ']', '\x7d', '%', '@', '`'].contains x
    | none => true
  if n == "" || !bounded then none else some (n, after)

/-- The characters of tags beside those of names. -/
def isTagChar (verbatim : Bool) (c : Char) : Bool :=
  isNameChar c
    || [';', '/', '?', ':', '@', '&', '=', '+', '$', '.', '!', '~', '*', '\'', '(', ')'].contains c
    || (verbatim && [',', '[', ']'].contains c)

/-- The byte that two digits of the base sixteen write after a percent sign. -/
def codedByte? : List Char → Option (Nat × List Char)
  | '%' :: a :: b :: cs => (Numeral.value? 16 [a, b]).map (·, cs)
  | _ => none

/-- The characters of a tag up to one that belongs to none; bytes are written after percent
signs. -/
def tagBytes (verbatim : Bool) : Nat → List Char → Option (List UInt8 × Nat)
  | 0, _ => some ([], 0)
  | _ + 1, [] => some ([], 0)
  | fuel + 1, c :: cs =>
    if c == '%' then
      match codedByte? (c :: cs) with
      | some (b, rest) => (tagBytes verbatim fuel rest).map fun (bs, n) =>
          (UInt8.ofNat b :: bs, n + 3)
      | none => none
    else if isTagChar verbatim c then
      (tagBytes verbatim fuel cs).map fun (bs, n) => (c.toString.toUTF8.toList ++ bs, n + 1)
    else some ([], 0)

/-- The tag text at a cursor. -/
def tagText? (verbatim : Bool) (c : Cursor) : Option (String × Cursor) := do
  let (bytes, n) ← tagBytes verbatim (c.rest.length + 1) c.rest
  let text ← String.fromUTF8? ⟨bytes.toArray⟩
  return (text, c.steps n)

/-- The handle at a cursor: an exclamation mark, with a name and a second mark if there are. -/
def tagHandle? (c : Cursor) : Option (String × Cursor) :=
  if c.here == some '!' then
    let (n, after) := name c.step
    if after.here == some '!' then some ("!" ++ n ++ "!", after.step) else some ("!" ++ n, after)
  else none

/-- The token of a tag. -/
def tag? (inFlow : Bool) (c : Cursor) : Option (Token × Cursor) := do
  let (handle, suffix, c) ←
    if c.next == some '<' then do
      let (text, c) ← tagText? true (c.steps 2)
      if text == "" || c.here != some '>' then none
      else some ("", text, c.step)
    else do
      let (handle, after) ← tagHandle? c
      if 2 ≤ handle.length && handle.endsWith "!" then
        let (text, after) ← tagText? false after
        if text == "" then none else some (handle, text, after)
      else
        let (text, after) ← tagText? false after
        let suffix := String.ofList (handle.toList.drop 1) ++ text
        if suffix == "" then some ("", "!", after) else some ("!", suffix, after)
  if isBlankOrEnd c.here || (inFlow && c.here == some ',') then some (.tag handle suffix, c)
  else none

/-! ## Directives -/

/-- The number at a cursor, of at most nine digits. -/
def number? (c : Cursor) : Option (Nat × Cursor) :=
  let ds := c.rest.takeWhile Char.isDigit
  if ds.isEmpty || 9 < ds.length then none
  else some (ds.foldl (fun n d => n * 10 + (d.toNat - 48)) 0, c.steps ds.length)

/-- The token of a directive. -/
def directive? (c : Cursor) : Option (Token × Cursor) := do
  let (word, c) := name c.step
  if !isBlankOrEnd c.here then none
  let (token, c) ←
    if word == "YAML" then do
      let (major, c) ← number? c.skipBlanks
      if c.here != some '.' then none
      let (minor, c) ← number? c.step
      some (Token.version major minor, c)
    else if word == "TAG" then do
      let (handle, c) ← tagHandle? c.skipBlanks
      if !handle.endsWith "!" || !c.here.any isBlank then none
      let (text, c) ← tagText? true c.skipBlanks
      if text == "" || !isBlankOrEnd c.here then none
      some (Token.tagShorthand handle text, c)
    else none
  let c := c.skipBlanks
  let c := if c.here == some '#' then c.toBreak else c
  if isBreakOrEnd c.here then some (token, c.line'.1) else none

/-! ## Tokens -/

/-- A token of one character that opens a flow collection. -/
def openFlow (l : Lexer) (t : Token) : Option Lexer := do
  let l ← l.saveKey
  let l := (l.emit t).skip 1
  return { l with keys := noPlace l.here :: l.keys, keyAllowed := true }

/-- A token of one character that closes a flow collection. -/
def closeFlow (l : Lexer) (t : Token) : Option Lexer := do
  let l ← l.dropKey
  let keys := if l.inFlow then l.keys.tail else l.keys
  return { (l.emit t).skip 1 with keys := keys, keyAllowed := false }

/-- Opens a block collection for a key or entry that starts here, where one may. -/
def openBlockHere (l : Lexer) (t : Token) : Option Lexer :=
  if l.inFlow then some l
  else if l.keyAllowed then some (l.openBlock l.here.column t l.tokens.size)
  else none

/-- The hyphen of an entry. -/
def readEntry (l : Lexer) : Option Lexer := do
  let l ← l.openBlockHere .blockList
  let l ← l.dropKey
  return { (l.emit .entry).skip 1 with keyAllowed := true }

/-- The question mark of a key. -/
def readKey (l : Lexer) : Option Lexer := do
  let l ← l.openBlockHere .blockDict
  let l ← l.dropKey
  return { (l.emit .key).skip 1 with keyAllowed := !l.inFlow }

/-- The colon before a value, which may turn what stands before it into a key. -/
def readValue (l : Lexer) : Option Lexer :=
  match l.keys with
  | k :: ks =>
    if k.possible then
      let l := l.insert k.count .key
      let l := l.openBlock k.start.column .blockDict k.count
      some { (l.emit .value).skip 1 with
        keys := { k with possible := false } :: ks
        keyAllowed := false }
    else do
      let l ← l.openBlockHere .blockDict
      return { (l.emit .value).skip 1 with keyAllowed := !l.inFlow }
  | [] => none

/-- The comma between entries of a flow collection. -/
def readComma (l : Lexer) : Option Lexer := do
  let l ← l.dropKey
  return { (l.emit .comma).skip 1 with keyAllowed := true }

/-- A token that a key may start with, given how to read it. -/
def readKeyPart (l : Lexer) (read : Cursor → Option (Token × Cursor)) : Option Lexer := do
  let l ← l.saveKey
  let (t, c) ← read l.here
  return { l.emit t with here := c, keyAllowed := false }

/-- A plain scalar. A key may start after it where it ends with a line. -/
def readPlain (l : Lexer) : Option Lexer := do
  let l ← l.saveKey
  let indent := match l.indents with
    | i :: _ => i + 1
    | [] => 0
  let (cs, broken, c) ← plainScalar l.inFlow indent l.here
  return { l.emit (.scalar (String.ofList cs) true) with here := c, keyAllowed := broken }

/-- A quoted scalar. -/
def readQuoted (double : Bool) (l : Lexer) : Option Lexer :=
  l.readKeyPart fun c => (quotedScalar double c).map fun (cs, c) =>
    (.scalar (String.ofList cs) false, c)

/-- A block scalar. -/
def readBlock (literal : Bool) (l : Lexer) : Option Lexer := do
  let l ← l.dropKey
  let (cs, c) ← blockScalar literal l.indents.head? l.here
  return { l.emit (.scalar (String.ofList cs) false) with here := c, keyAllowed := true }

/-- A token at the start of a line that belongs to no document content. -/
def readBound (l : Lexer) (read : Cursor → Option (Token × Cursor)) : Option Lexer := do
  let l ← (l.closeBlocks none).dropKey
  let (t, c) ← read l.here
  return { l.emit t with here := c, keyAllowed := false }

/-- The characters that no plain scalar starts with. -/
def isIndicator (c : Char) : Bool :=
  ['-', '?', ':', ',', '[', ']', '\x7b', '\x7d', '#', '&', '*', '!', '|', '>', '\'', '"', '%', '@',
   '`'].contains c

/-- Whether a plain scalar starts with `c` before `next`. -/
def startsPlain (inFlow : Bool) (c : Char) (next : Option Char) : Bool :=
  !(isBlank c || isBreak c || isIndicator c)
    || (c == '-' && !next.any isBlank)
    || (!inFlow && (c == '?' || c == ':') && !isBlankOrEnd next)

/-- The state after the next token; nothing where no token starts. -/
def readToken (l : Lexer) (c : Char) : Option Lexer :=
  let next := l.here.next
  let alone := isBlankOrEnd next
  if l.here.column == 0 && c == '%' then l.readBound directive?
  else if l.here.atMarker '-' then l.readBound fun c => some (.documentStart, c.steps 3)
  else if l.here.atMarker '.' then l.readBound fun c => some (.documentEnd, c.steps 3)
  else if c == '[' then l.openFlow .openList
  else if c == '\x7b' then l.openFlow .openDict
  else if c == ']' then l.closeFlow .closeList
  else if c == '\x7d' then l.closeFlow .closeDict
  else if c == ',' then l.readComma
  else if c == '-' && alone then l.readEntry
  else if c == '?' && (l.inFlow || alone) then l.readKey
  else if c == ':' && (l.inFlow || alone) then l.readValue
  else if c == '*' then
    l.readKeyPart fun c => (anchorName? c.step).map fun (n, c) => (.alias n, c)
  else if c == '&' then
    l.readKeyPart fun c => (anchorName? c.step).map fun (n, c) => (.anchor n, c)
  else if c == '!' then l.readKeyPart (tag? l.inFlow)
  else if c == '|' && !l.inFlow then l.readBlock true
  else if c == '>' && !l.inFlow then l.readBlock false
  else if c == '\'' then l.readQuoted false
  else if c == '"' then l.readQuoted true
  else if startsPlain l.inFlow c next then l.readPlain
  else none

/-- The tokens from a state on. The `fuel` is more than the number of characters left. -/
def finish : Nat → Lexer → Option (List Token)
  | 0, _ => none
  | fuel + 1, l => do
    let l ← (toToken (l.here.rest.length + 1) l).dropStale
    match l.here.here with
    | none =>
      let l ← (l.closeBlocks none).dropKey
      return l.tokens.toList
    | some c =>
      let l ← (l.closeBlocks (some l.here.column)).readToken c
      finish fuel l

end Lexer

/-- Whether a text may contain the character. -/
def isAllowed (c : Char) : Bool :=
  c == '\t' || c == '\n' || c == '\r' || (' ' ≤ c && c ≤ '~') || c == '\u0085'
    || ('\u00a0' ≤ c && c ≤ '\ufffd') || 0x10000 ≤ c.toNat

/-- The tokens of a text; nothing where it is malformed. -/
def tokens? (cs : List Char) : Option (List Token) :=
  if cs.all isAllowed then (Lexer.ofList cs).finish (cs.length + 2) else none

end Highlight.Yaml
