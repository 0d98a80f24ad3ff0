import Highlight.Text.Case

/-!
# Sets of characters

What a pattern can say about one character: a description of a set, and `CharSet.mem` to decide
membership.
-/

namespace Highlight

/-- A set of characters as a pattern describes it. -/
inductive CharSet where
  | nothing
  | range (first last : Char)
  | property (p : Property)
  | union (a b : CharSet)
  | inter (a b : CharSet)
  | compl (a : CharSet)
  /-- The characters with a case variant in the set. -/
  | anyCase (a : CharSet)
  deriving Repr, DecidableEq

namespace CharSet

/-- The set of one character. -/
def single (c : Char) : CharSet := range c c

/-- The set of the listed characters. -/
def ofList (cs : List Char) : CharSet := cs.foldr (fun c s => union (single c) s) nothing

/-- Every character. -/
def everything : CharSet := compl nothing

/-- Every character but the line feed. -/
def notNewline : CharSet := compl (single '\n')

/-- The complement where asked for. -/
def complIf (negated : Bool) (s : CharSet) : CharSet := if negated then compl s else s

/-- Membership. -/
def mem : CharSet → Char → Bool
  | nothing, _ => false
  | range first last, c => first ≤ c && c ≤ last
  | property p, c => p.holds c
  | union a b, c => a.mem c || b.mem c
  | inter a b, c => a.mem c && b.mem c
  | compl a, c => !a.mem c
  | anyCase a, c => a.mem c || (Case.variants c).any a.mem

end CharSet

end Highlight
