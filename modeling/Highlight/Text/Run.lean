/-!
# Runs of code points

A table of characters is an array of runs in ascending order. `Run.find?` looks a code point up by
bisection, and `Run.table` asks only whether it is there.
-/

namespace Highlight

/-- The code points `first`, `first + step`, and so on up to `last`. -/
structure Run where
  first : Nat
  last : Nat
  step : Nat
  deriving Repr, DecidableEq

namespace Run

/-- Whether the run holds the code point. -/
def contains (r : Run) (c : Nat) : Bool :=
  r.first ≤ c && c ≤ r.last && (c - r.first) % r.step == 0

/-- The place of the only run of an ascending table, between `lo` and `hi`, whose bounds can hold
the code point. -/
def locate (bounds : Nat → Run) (c : Nat) (lo hi : Nat) : Option Nat :=
  if h : lo < hi then
    let mid := (lo + hi) / 2
    let r := bounds mid
    if c < r.first then locate bounds c lo mid
    else if r.last < c then locate bounds c (mid + 1) hi
    else some mid
  else none
termination_by hi - lo
decreasing_by all_goals omega

/-- A run that holds nothing. -/
def void : Run := ⟨1, 0, 1⟩

/-- Whether an ascending table holds the code point. -/
def table (runs : Array Run) (c : Nat) : Bool :=
  match locate (fun i => runs.getD i void) c 0 runs.size with
  | some i => (runs.getD i void).contains c
  | none => false

end Run

end Highlight
