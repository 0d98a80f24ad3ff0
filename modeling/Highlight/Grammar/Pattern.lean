import Highlight.Regex.GrammarPattern
import Highlight.Scope.Template
import Highlight.Text.Bytes

/-!
# Patterns of rules

The anchors `\A` and `\G` of a rule's pattern hold only at certain times: `\A` at the start of a
document, `\G` where the last begin match ended. A `Pattern` is therefore compiled four times, with
the anchors that must not hold replaced by a character that no text contains. The anchors are looked
for once among the bytes of the pattern (`anchorPlaces`), and what stands between those that are
replaced is cut out of it (`replaceAnchors?`). Ends of regions can refer to what their begin match
captured: `resolveReferences` writes the captured text into them.
-/

namespace Highlight

/-- Which anchors hold at a position. -/
structure Anchors where
  /-- `\A` holds. -/
  documentStart : Bool
  /-- `\G` holds. -/
  lastMatch : Bool
  deriving Repr, DecidableEq

namespace Anchors

/-- The anchors at a position, given whether the document starts here and where the last match of
interest ended. -/
def ofPosition (documentStart : Bool) (anchor : Option Nat) (position : Nat) : Anchors :=
  ⟨documentStart, anchor == some position⟩

/-- All anchors hold. -/
def every : Anchors := ⟨true, true⟩

end Anchors

/-- Stands for anchors that must not hold: it occurs in no text. -/
def neverMatched : Char := '\uffff'

/-! ## Bytes of a pattern -/

/-- The characters before a byte of a text and those from it on. There are none where the byte lies
inside a character or behind the text. -/
def cutAt? : Nat → List Char → Option (List Char × List Char)
  | 0, cs => some ([], cs)
  | _ + 1, [] => none
  | n + 1, c :: cs =>
    if c.utf8Size ≤ n + 1 then do
      let (before, after) ← cutAt? (n + 1 - c.utf8Size) cs
      return (c :: before, after)
    else none

/-- The characters of a text between two bytes, if both bytes start characters and the first one
comes first. -/
def slice? (cs : List Char) (start stop : Nat) : Option (List Char) :=
  if start ≤ stop then do
    let (_, rest) ← cutAt? start cs
    let (part, _) ← cutAt? (stop - start) rest
    return part
  else none

/-- An anchor of a pattern: the byte that its backslash is, and whether it is `\G`. -/
structure AnchorPlace where
  offset : Nat
  lastMatch : Bool
  deriving Repr, DecidableEq

/-- Whether the anchor holds. -/
def AnchorPlace.holds (place : AnchorPlace) (a : Anchors) : Bool :=
  if place.lastMatch then a.lastMatch else a.documentStart

/-- The anchors among bytes, the first of which has the given offset. A backslash takes the byte
behind it along: an escaped backslash starts no anchor. -/
def anchorsFrom (offset : Nat) : List UInt8 → List AnchorPlace
  | b :: next :: bs =>
    if b == '\\'.toUInt8 then
      if next == 'A'.toUInt8 then ⟨offset, false⟩ :: anchorsFrom (offset + 2) bs
      else if next == 'G'.toUInt8 then ⟨offset, true⟩ :: anchorsFrom (offset + 2) bs
      else anchorsFrom (offset + 2) bs
    else anchorsFrom (offset + 1) (next :: bs)
  | _ => []

/-- The anchors of a pattern. -/
def anchorPlaces (cs : List Char) : List AnchorPlace := anchorsFrom 0 (utf8 cs)

/-- The pattern from a byte on, with the anchors that do not hold replaced. -/
def replaceAnchors? (a : Anchors) (cs : List Char) (last : Nat) :
    List AnchorPlace → Option (List Char)
  | [] => slice? cs last (utf8 cs).length
  | place :: places =>
    if place.holds a then replaceAnchors? a cs last places
    else do
      let kept ← slice? cs last place.offset
      let rest ← replaceAnchors? a cs (place.offset + 2) places
      return kept ++ neverMatched :: rest

/-- A pattern that could not be compiled. -/
structure PatternError where
  pattern : String
  reason : RegexError
  deriving Repr, DecidableEq

/-- A compiled pattern: one regex for each choice of anchors. -/
structure Pattern where
  source : String
  full : Regex
  noDocumentStart : Regex
  noLastMatch : Regex
  bare : Regex
  deriving Inhabited

namespace Pattern

/-- Compiles a text. -/
def compileText (source : String) : Except PatternError Regex :=
  match Regex.ofGrammarPattern source with
  | .ok r => .ok r
  | .error e => .error ⟨source, e⟩

/-- Compiles a pattern without the anchors that do not hold. -/
def compileVariant (source : String) (places : List AnchorPlace) (a : Anchors) :
    Except PatternError Regex :=
  match replaceAnchors? a source.toList 0 places with
  | some cs => compileText (String.ofList cs)
  | none => .error ⟨source, .splitCharacter⟩

/-- Compiles a pattern for every choice of anchors. -/
def compile (source : String) : Except PatternError Pattern := do
  let full ← compileText source
  let places := anchorPlaces source.toList
  if places.isEmpty then return ⟨source, full, full, full, full⟩
  else
    let noDocumentStart ← compileVariant source places ⟨false, true⟩
    let noLastMatch ← compileVariant source places ⟨true, false⟩
    let bare ← compileVariant source places ⟨false, false⟩
    return ⟨source, full, noDocumentStart, noLastMatch, bare⟩

/-- The regex for a choice of anchors. -/
def regex (p : Pattern) (a : Anchors) : Regex :=
  match a.documentStart, a.lastMatch with
  | true, true => p.full
  | false, true => p.noDocumentStart
  | true, false => p.noLastMatch
  | false, false => p.bare

/-- The first match at or after a position in a text that ends at `stop`. -/
def search (p : Pattern) (chars : Array Char) (start stop : Nat) (a : Anchors) : Option Match :=
  (p.regex a).search chars start stop

/-- The better of two candidates: the earlier match, the first one where they start together. -/
def earlier {α : Type} : Option (α × Match) → Option (α × Match) → Option (α × Match)
  | some (i, m), some (j, n) => if n.start < m.start then some (j, n) else some (i, m)
  | some c, none => some c
  | none, d => d

/-- The earliest match of the tagged patterns, the first pattern's where several start together.
Nothing starts before a match at the position searched from, so the search ends with it. -/
def first {α : Type} (chars : Array Char) (start stop : Nat) (a : Anchors)
    (best : Option (α × Match)) : List (α × Pattern) → Option (α × Match)
  | [] => best
  | (tag, p) :: ps =>
    match p.search chars start stop a with
    | none => first chars start stop a best ps
    | some m =>
      match best with
      | some (_, old) =>
        if m.start < old.start then
          if m.start == start then some (tag, m) else first chars start stop a (some (tag, m)) ps
        else first chars start stop a best ps
      | none =>
        if m.start == start then some (tag, m) else first chars start stop a (some (tag, m)) ps

end Pattern

/-! ## References to captured text -/

/-- Whether the text has a backslash before a digit. -/
def hasReferences : List Char → Bool
  | '\\' :: c :: cs => Template.isDigit c || hasReferences (c :: cs)
  | _ :: cs => hasReferences cs
  | [] => false

/-- The characters that a backslash keeps from having a meaning in patterns. -/
def isSpecial (c : Char) : Bool :=
  ['-', '\\', '\x7b', '\x7d', '*', '+', '?', '|', '^', '$', '.', ',', '[', ']', '(', ')', '#', ' ']
    |>.contains c

/-- The text as a pattern that matches it. -/
def escapeText (cs : List Char) : List Char :=
  cs.flatMap fun c => if isSpecial c then ['\\', c] else [c]

/-- The pattern with each backslash and number replaced. The `fuel` is at least the number of
characters. -/
def replaceReferences (value : List Char → List Char) : Nat → List Char → List Char
  | 0, cs => cs
  | fuel + 1, '\\' :: cs =>
    let digits := cs.takeWhile Template.isDigit
    if digits.isEmpty then '\\' :: replaceReferences value fuel cs
    else value digits ++ replaceReferences value fuel (cs.dropWhile Template.isDigit)
  | fuel + 1, c :: cs => c :: replaceReferences value fuel cs
  | _ + 1, [] => []

/-- The text that a group of a match captured, as a pattern for itself; nothing for a group that
took no part. -/
def capturedPattern (text : Subject) (groups : List (Option Span)) (digits : List Char) :
    List Char :=
  match (Template.number? digits).bind fun i => (groups[i]?).join with
  | some s => escapeText (text.slice s.start s.stop).toList
  | none => []

/-- The pattern with the captured texts in place of the references. -/
def resolveReferences (source : String) (text : Subject) (groups : List (Option Span)) : String :=
  let cs := source.toList
  String.ofList (replaceReferences (capturedPattern text groups) cs.length cs)

/-- The pattern without its references. -/
def dropReferences (source : String) : String :=
  let cs := source.toList
  String.ofList (replaceReferences (fun _ => []) cs.length cs)

end Highlight
