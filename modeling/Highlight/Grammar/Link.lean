import Highlight.Data.Lemmas
import Highlight.Grammar.Compile

/-!
# Linked grammars

A `Grammar` is a compiled grammar together with the grammars that it refers to and those injected
into it. References between them are looked up by scope. `flatten` turns rules that may be groups
and references into the list of rules with a pattern of their own that they stand for; it visits a
group or reference once, so cycles do no harm.
-/

namespace Highlight

/-- A rule of a linked grammar. -/
structure RuleRef where
  grammar : ScopeName
  rule : RuleId
  deriving Repr, DecidableEq, Inhabited

/-- A rule that applies wherever its selector holds. -/
structure Injection where
  selector : Selector
  target : RuleRef

/-- A grammar with all that it refers to. -/
structure Grammar where
  scopeName : ScopeName
  /-- The linked grammars by scope, this one among them; each scope occurs once. -/
  documents : List (ScopeName × CompiledGrammar)
  /-- The grammar's own injections first, then those of the injected grammars. -/
  injections : List Injection
  deriving Inhabited

namespace Grammar

/-- The linked grammar with a scope. -/
def document? (g : Grammar) (scope : ScopeName) : Option CompiledGrammar := g.documents.lookup scope

/-- The scopes of the linked grammars. -/
def scopes (g : Grammar) : List ScopeName := g.documents.map (·.1)

/-- The rule that a reference names. -/
def rule? (g : Grammar) (r : RuleRef) : Option Rule :=
  (g.document? r.grammar).bind fun d => d.rule? r.rule

/-- The root of a linked grammar. -/
def root? (g : Grammar) (scope : ScopeName) : Option RuleRef :=
  (g.document? scope).map fun d => ⟨scope, d.root⟩

/-! ## Flattening -/

/-- The rule that a reference in the grammar with the scope `own` stands for. -/
def includeTarget? (g : Grammar) (own : ScopeName) : IncludeTarget → Option RuleRef
  | .rule id => some ⟨own, id⟩
  | .ownRoot => g.root? own
  | .baseRoot => g.root? g.scopeName
  | .grammar scope none => g.root? scope
  | .grammar scope (some entry) =>
    (g.document? scope).bind fun d => (d.entry? entry).map fun id => ⟨scope, id⟩

/-- The pattern that starts a rule; groups and references have none. -/
def startPattern? : Rule → Option Pattern
  | .matching r => some r.pattern
  | .beginEnd r => some r.beginPattern
  | .beginWhile r => some r.beginPattern
  | .group _ => none
  | .inclusion _ => none

/-- The rules that a group or reference stands for. -/
def members (g : Grammar) (own : ScopeName) : Rule → List RuleRef
  | .group r => r.patterns.map fun id => ⟨own, id⟩
  | .inclusion target => (g.includeTarget? own target).toList
  | _ => []

/-- All rules of the linked grammars. -/
def rules (g : Grammar) : List RuleRef :=
  g.documents.flatMap fun (scope, d) => (List.range d.rules.size).map fun id => ⟨scope, id⟩

theorem mem_rules {g : Grammar} {r : RuleRef} {rule : Rule} (h : g.rule? r = some rule) :
    r ∈ g.rules := by
  obtain ⟨d, hd, hr⟩ := Option.bind_eq_some_iff.1 h
  have bound : r.rule < d.rules.size := by
    obtain ⟨bound, _⟩ := Array.getElem?_eq_some_iff.1 hr
    exact bound
  exact List.mem_flatMap.2 ⟨(r.grammar, d), mem_of_lookup_eq_some hd,
    List.mem_map.2 ⟨r.rule, List.mem_range.2 bound, rfl⟩⟩

/-- How many rules a visit of the rule puts in its place, and the rule itself. -/
def weight (g : Grammar) (r : RuleRef) : Nat :=
  ((g.rule? r).elim 0 fun rule => (g.members r.grammar rule).length) + 1

/-- The weight of the rules of a list that a condition holds of. -/
def weightWhere (g : Grammar) (p : RuleRef → Bool) : List RuleRef → Nat
  | [] => 0
  | r :: rs => (if p r then g.weight r else 0) + weightWhere g p rs

/-- The weight of the rules not yet visited. -/
def unvisited (g : Grammar) (visited : List RuleRef) : Nat :=
  g.weightWhere (fun r => !visited.contains r) g.rules

theorem weightWhere_le {g : Grammar} {p q : RuleRef → Bool} (imp : ∀ x, p x = true → q x = true) :
    ∀ rs : List RuleRef, g.weightWhere p rs ≤ g.weightWhere q rs
  | [] => Nat.le_refl 0
  | r :: rs => by
    have le := weightWhere_le (g := g) imp rs
    simp only [weightWhere]
    cases hp : p r
    · simp only [Bool.false_eq_true, if_false]
      omega
    · rw [imp r hp]
      omega

theorem weightWhere_add_le {g : Grammar} {p q : RuleRef → Bool} {r : RuleRef}
    (imp : ∀ x, p x = true → q x = true) (hp : p r = false) (hq : q r = true) :
    ∀ {rs : List RuleRef}, r ∈ rs → g.weightWhere p rs + g.weight r ≤ g.weightWhere q rs
  | x :: xs, mem => by
    simp only [weightWhere]
    rcases List.mem_cons.1 mem with same | later
    · subst same
      have le := weightWhere_le (g := g) imp xs
      rw [hp, hq]
      simp only [Bool.false_eq_true, if_false, if_true]
      omega
    · have le := weightWhere_add_le (g := g) imp hp hq later
      have head : (if p x then g.weight x else 0) ≤ if q x then g.weight x else 0 := by
        cases hx : p x
        · exact Nat.zero_le _
        · exact Nat.le_of_eq (by rw [imp x hx])
      omega

theorem unvisited_add_weight_le {g : Grammar} {r : RuleRef} {rule : Rule} {visited : List RuleRef}
    (h : g.rule? r = some rule) (fresh : visited.contains r = false) :
    g.unvisited (r :: visited) + g.weight r ≤ g.unvisited visited := by
  refine weightWhere_add_le ?_ ?_ ?_ (mem_rules h)
  · intro x hx
    simp only [List.contains_cons, Bool.not_or, Bool.and_eq_true] at hx
    exact hx.2
  · simp
  · rw [fresh]
    rfl

/-- The rules with a pattern of their own that the rules in `todo` stand for, with their patterns
and in order. Groups and references in `visited` stand for nothing more. -/
def flatten (g : Grammar) (visited : List RuleRef) : List RuleRef → List (RuleRef × Pattern)
  | [] => []
  | r :: todo =>
    match _h : g.rule? r with
    | none => flatten g visited todo
    | some rule =>
      match startPattern? rule with
      | some p => (r, p) :: flatten g visited todo
      | none =>
        if _fresh : visited.contains r = false then
          flatten g (r :: visited) (g.members r.grammar rule ++ todo)
        else flatten g visited todo
termination_by todo => g.unvisited visited + todo.length
decreasing_by
  · simp
  · simp
  · have le := unvisited_add_weight_le _h _fresh
    simp only [weight, _h, Option.elim_some] at le
    simp only [List.length_append, List.length_cons]
    omega
  · simp

/-- The patterns that apply inside a rule. -/
def childPatterns (g : Grammar) (r : RuleRef) : List (RuleRef × Pattern) :=
  match g.rule? r with
  | some rule => g.flatten [] (rule.children.map fun id => ⟨r.grammar, id⟩)
  | none => []

/-- The patterns that an injected rule stands for. -/
def injectedPatterns (g : Grammar) (r : RuleRef) : List (RuleRef × Pattern) := g.flatten [] [r]

/-! ## Linking -/

/-- Whether a reference to another grammar leads to a rule. -/
def resolves (documents : List (ScopeName × CompiledGrammar)) :
    ScopeName × Option String → Bool
  | (scope, entry) =>
    match documents.lookup scope, entry with
    | none, _ => false
    | some _, none => true
    | some d, some name => (d.entry? name).isSome

/-- A reference to another grammar as it is written. -/
def spell : ScopeName × Option String → String
  | (scope, none) => scope
  | (scope, some entry) => scope ++ "#" ++ entry

/-- Fails where a reference to another grammar leads nowhere. -/
def checkIncludes (documents : List (ScopeName × CompiledGrammar)) : Except GrammarError Unit :=
  documents.forM fun (_, d) =>
    match d.externalIncludes.find? fun i => !resolves documents i with
    | some i => .error (.unresolved d.scopeName (spell i))
    | none => .ok ()

/-- What the injected grammars inject; those without a selector inject nothing. -/
def injectionsOf (documents : List (ScopeName × CompiledGrammar)) :
    List ScopeName → Except GrammarError (List Injection)
  | [] => .ok []
  | scope :: scopes =>
    match documents.lookup scope with
    | none => .error (.notFound scope)
    | some d => do
      let rest ← injectionsOf documents scopes
      match d.injectionSelector with
      | none => return rest
      | some selector => return ⟨selector, ⟨scope, d.root⟩⟩ :: rest

/-- Links a grammar with the documents that it can reach and with the grammars injected into it. Of
documents that declare the same scope the last one counts, and the root before all. -/
def link (root : CompiledGrammar) (documents : List CompiledGrammar)
    (injectors : List ScopeName) : Except GrammarError Grammar := do
  let byScope := (documents ++ [root]).foldl (fun m d => Value.put d.scopeName d m) []
  checkIncludes byScope
  let own := root.injections.map fun (selector, id) =>
    Injection.mk selector ⟨root.scopeName, id⟩
  let others ← injectionsOf byScope injectors
  return ⟨root.scopeName, byScope, own ++ others⟩

end Grammar

end Highlight
