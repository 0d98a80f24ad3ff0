import Highlight.Scope.Name
import Highlight.Text.Case
import Highlight.Text.Subject
import Highlight.Regex.Match

/-!
# Scope templates

The names that a rule gives its match may refer to captured text: `$1` inserts the first group, and
with the number in braces after the dollar sign, `:/downcase` or `:/upcase` change its case. A
template expands to the words of the text after the insertions, so captured text is never read as a
reference.
-/

namespace Highlight

/-- What happens to the letters of captured text. -/
inductive CaseChange where
  | keep
  | downcase
  | upcase
  deriving Repr, DecidableEq

namespace CaseChange

/-- The text after the change. -/
def apply (s : String) : CaseChange → String
  | keep => s
  | downcase => Case.lower s
  | upcase => Case.upper s

end CaseChange

/-- A piece of a template: text as written, or a reference with its spelling. -/
inductive TemplatePiece where
  | text (c : Char)
  | reference (spelling : List Char) (digits : List Char) (change : CaseChange)
  deriving Repr

/-- Whether a piece is a reference. -/
def TemplatePiece.isReference : TemplatePiece → Bool
  | text _ => false
  | reference .. => true

namespace Template

/-- A decimal digit of any script. -/
def isDigit (c : Char) : Bool := Category.decimalNumber.holds c

/-- The reference that follows a dollar sign and its rest. -/
def reference? (cs : List Char) : Option (TemplatePiece × List Char) :=
  match cs with
  | '\x7b' :: body =>
    let digits := body.takeWhile isDigit
    let rest := body.dropWhile isDigit
    let found := fun (word : String) (change : CaseChange) =>
      let tail := (":/" ++ word ++ "\x7d").toList
      if tail.isPrefixOf rest then
        some (.reference ('$' :: '\x7b' :: digits ++ tail) digits change, rest.drop tail.length)
      else none
    if digits.isEmpty then none
    else (found "downcase" .downcase).or (found "upcase" .upcase)
  | cs =>
    let digits := cs.takeWhile isDigit
    if digits.isEmpty then none
    else some (.reference ('$' :: digits) digits .keep, cs.dropWhile isDigit)

/-- The pieces of a template. The `fuel` is at least the number of characters. -/
def piecesFrom : Nat → List Char → List TemplatePiece
  | 0, _ => []
  | _ + 1, [] => []
  | fuel + 1, c :: cs =>
    match (if c == '$' then reference? cs else none) with
    | some (piece, rest) => piece :: piecesFrom fuel rest
    | none => .text c :: piecesFrom fuel cs

/-- The pieces of a template. -/
def pieces (template : String) : List TemplatePiece :=
  let cs := template.toList
  piecesFrom cs.length cs

/-- The number that ASCII digits write, if it fits 64 bits. -/
def number? (digits : List Char) : Option Nat :=
  if !digits.isEmpty && digits.all Char.isDigit then
    let n := digits.foldl (fun n c => n * 10 + (c.toNat - 48)) 0
    if n < UInt64.size then some n else none
  else none

/-- The characters of a captured range, which no leading dots belong to. -/
def captured (text : Subject) (s : Span) : String :=
  String.ofList ((text.slice s.start s.stop).toList.dropWhile (· == '.'))

/-- The text of a piece: references to groups that took no part stay as written. -/
def fill (text : Subject) (groups : List (Option Span)) : TemplatePiece → List Char
  | .text c => [c]
  | .reference spelling digits change =>
    match (number? digits).bind fun i => (groups[i]?).join with
    | some s => (change.apply (captured text s)).toList
    | none => spelling

/-- The scope names that a template expands to. One without references is cut into its words as it is
written. -/
def expand (template : String) (text : Subject) (groups : List (Option Span)) : List ScopeName :=
  let ps := pieces template
  if ps.any (·.isReference) then Blank.words (String.ofList (ps.flatMap (fill text groups)))
  else Blank.words template

end Template

end Highlight
