import Highlight.Tokenize.Stack

/-!
# Choosing the next match

Of all patterns that apply at a place, the one that matches first wins; of those that match at the
same place, the first in order. The patterns of the innermost region come in their written order
with its end before or after them. Injected patterns that start where one of the region's starts win
only if their selector gives them priority.
-/

namespace Highlight

/-- Why a line cannot be scanned. -/
inductive ScanError where
  /-- The grammar has no such rule. -/
  | unknownRule (r : RuleRef)
  /-- The end of a region refers to captured text but no begin match gave any. -/
  | unresolvedEnd (r : RuleRef)
  /-- An end matched but the innermost rule has none. -/
  | endOutsideRegion (r : RuleRef)
  /-- A rule without a pattern was to be applied. -/
  | noPattern (r : RuleRef)
  /-- The end of a region cannot be compiled with the captured text in it. -/
  | badEnd (e : PatternError)
  /-- Captured texts are scanned within captured texts beyond any limit. -/
  | capturesTooDeep
  /-- The scan stays in place. -/
  | endless
  deriving Repr, DecidableEq

/-- What a pattern belongs to. -/
inductive Candidate where
  /-- The end of the innermost region. -/
  | ending
  | rule (r : RuleRef)
  deriving Repr, DecidableEq

namespace Frame

/-- The pattern that ends or continues a region. -/
def resolvedEnd (f : Frame) (e : EndPattern) : Except ScanError Pattern :=
  match f.endPattern, e with
  | some p, _ => .ok p
  | none, .fixed p => .ok p
  | none, .dynamic _ => .error (.unresolvedEnd f.rule)

end Frame

namespace Grammar

/-- The rule that a reference names. -/
def rule (g : Grammar) (r : RuleRef) : Except ScanError Rule :=
  match g.rule? r with
  | some rule => .ok rule
  | none => .error (.unknownRule r)

/-- The patterns of a region, in order. -/
def regionPatterns (g : Grammar) (f : Frame) : Except ScanError (List (Candidate × Pattern)) := do
  let inside := (g.childPatterns f.rule).map fun (r, p) => (Candidate.rule r, p)
  match ← g.rule f.rule with
  | .beginEnd r => do
    let e ← f.resolvedEnd r.endPattern
    return if r.endLast then inside ++ [(.ending, e)] else (.ending, e) :: inside
  | _ => return inside

/-- The injections that apply to a scope path with their priorities, those that come before the
region's patterns first and those that come after them last. -/
def activeInjections (g : Grammar) (scopes : ScopePath) : List (Priority × RuleRef) :=
  let active := g.injections.filterMap fun i =>
    (i.selector.priority? scopes).map fun p => (p, i.target)
  [Priority.before, Priority.normal, Priority.after].flatMap fun p => active.filter (·.1 == p)

end Grammar

/-- The place of a scan: a text that ends at `stop`, the position, and the anchors that hold
there. -/
structure Place where
  text : Subject
  stop : Nat
  position : Nat
  anchors : Anchors

namespace Place

/-- The first match of the patterns at or after the place. -/
def first {α : Type} (p : Place) (patterns : List (α × Pattern)) : Option (α × Match) :=
  Pattern.first p.text.chars p.position p.stop p.anchors none patterns

/-- The first match of injected patterns, where `best` is the best so far. Nothing starts before a
match at the place itself. -/
def firstInjected (p : Place) (g : Grammar) (best : Option (Priority × RuleRef × Match)) :
    List (Priority × RuleRef) → Option (Priority × RuleRef × Match)
  | [] => best
  | (priority, target) :: rest =>
    match p.first (g.injectedPatterns target) with
    | none => firstInjected p g best rest
    | some (r, m) =>
      if best.any fun (_, _, old) => old.start ≤ m.start then firstInjected p g best rest
      else if m.start == p.position then some (priority, r, m)
      else firstInjected p g (some (priority, r, m)) rest

/-- The better of a match of the region's patterns and one of injected patterns. -/
def prefer : Option (Candidate × Match) → Option (Priority × RuleRef × Match) →
    Option (Candidate × Match)
  | own, none => own
  | none, some (_, r, m) => some (.rule r, m)
  | some (c, m), some (priority, r, n) =>
    if n.start < m.start || (n.start == m.start && priority == .before) then some (.rule r, n)
    else some (c, m)

/-- The next match with a stack of open regions. -/
def nextMatch (p : Place) (g : Grammar) (stack : RuleStack) :
    Except ScanError (Option (Candidate × Match)) :=
  match stack with
  | [] => .ok none
  | f :: _ => do
    let patterns ← g.regionPatterns f
    let injected := p.firstInjected g none (g.activeInjections (RuleStack.scopes stack))
    return prefer (p.first patterns) injected

end Place

end Highlight
