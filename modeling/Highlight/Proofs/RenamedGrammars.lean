import Mathlib.Data.List.Forall2
import Mathlib.Logic.Equiv.Defs
import Highlight.Proofs.LinkedDocuments

/-!
# Renamed rules

The place that a rule has in the table of its grammar is a name for it and nothing more. A grammar
is `Renamed` to another if, for each scope, the one's table holds at renamed places what the other's
holds, with the places that rules refer to renamed as well. All that is read off a linked grammar
then differs by the renaming: the rules that references lead to, the patterns that groups stand for
in their order, for which it matters only that different rules keep different places
(`Renamed.flatten`), and the injections that apply. Renamed documents link to renamed grammars
(`link_renamed`).
-/

namespace Highlight

/-! ## Renaming -/

section

variable (f : RuleId → RuleId)

/-- The captures with renamed places. -/
def CaptureRules.rename (cs : CaptureRules) : CaptureRules := cs.map (·.map f)

/-- The target with a renamed place. -/
def IncludeTarget.rename : IncludeTarget → IncludeTarget
  | .rule id => .rule (f id)
  | .ownRoot => .ownRoot
  | .baseRoot => .baseRoot
  | .grammar scope entry => .grammar scope entry

/-- The rule with renamed places. -/
def Rule.rename : Rule → Rule
  | .matching r => .matching { r with captures := r.captures.rename f }
  | .beginEnd r => .beginEnd { r with
      beginCaptures := r.beginCaptures.rename f
      endCaptures := r.endCaptures.rename f
      patterns := r.patterns.map f }
  | .beginWhile r => .beginWhile { r with
      beginCaptures := r.beginCaptures.rename f
      whileCaptures := r.whileCaptures.rename f
      patterns := r.patterns.map f }
  | .group r => .group { r with patterns := r.patterns.map f }
  | .inclusion target => .inclusion (target.rename f)

end

namespace Rule

variable {f : RuleId → RuleId} (r : Rule)

@[simp] theorem name?_rename : (r.rename f).name? = r.name? := by cases r <;> rfl

@[simp] theorem contentName?_rename : (r.rename f).contentName? = r.contentName? := by
  cases r <;> rfl

@[simp] theorem children_rename : (r.rename f).children = r.children.map f := by cases r <;> rfl

@[simp] theorem startPattern?_rename :
    Grammar.startPattern? (r.rename f) = Grammar.startPattern? r := by
  cases r <;> rfl

end Rule

/-- The compiled grammar with its places renamed. Entries of its repository may come in another
order. -/
structure CompiledGrammar.Renamed (σ : Equiv.Perm RuleId) (d d' : CompiledGrammar) : Prop where
  size : d'.rules.size = d.rules.size
  rule : ∀ id, d'.rule? (σ id) = (d.rule? id).map (Rule.rename σ)
  root : d'.root = σ d.root
  repository : d'.repository.Perm (d.repository.map fun e => (e.1, σ e.2))
  entry : ∀ name, d'.entry? name = (d.entry? name).map σ
  injections : d'.injections = d.injections.map fun e => (e.1, σ e.2)
  embedded : ∀ scope, scope ∈ d'.embedded ↔ scope ∈ d.embedded
  header : d'.scopeName = d.scopeName ∧ d'.name = d.name ∧ d'.fileTypes = d.fileTypes ∧
    d'.firstLineMatch = d.firstLineMatch ∧ d'.injectionSelector = d.injectionSelector ∧
    d'.injectTo = d.injectTo

/-- Renamings of the places in the tables of grammars. -/
abbrev Renaming := ScopeName → Equiv.Perm RuleId

variable (ρ : Renaming)

/-- The reference with a renamed place. -/
def RuleRef.rename (r : RuleRef) : RuleRef := ⟨r.grammar, ρ r.grammar r.rule⟩

/-- The injection with a renamed target. -/
def Injection.rename (i : Injection) : Injection := ⟨i.selector, i.target.rename ρ⟩

theorem RuleRef.rename_injective : Function.Injective (RuleRef.rename ρ) := by
  rintro ⟨s, id⟩ ⟨s', id'⟩ h
  obtain ⟨hs, hid⟩ := RuleRef.mk.inj h
  dsimp only at hs hid
  subst hs
  rw [(ρ s).injective hid]

@[simp] theorem RuleRef.rename_beq (r r' : RuleRef) :
    (r.rename ρ == r'.rename ρ) = (r == r') := by
  rw [Bool.eq_iff_iff, beq_iff_eq, beq_iff_eq, (RuleRef.rename_injective ρ).eq_iff]

namespace Grammar

/-- The number of rules of the linked grammars. -/
def ruleCount (g : Grammar) : Nat := g.documents.foldl (fun n (_, d) => n + d.rules.size) 0

/-- The grammar is linked from documents with renamed places. -/
structure Renamed (g g' : Grammar) : Prop where
  scopeName : g'.scopeName = g.scopeName
  document : ∀ scope,
    Option.Rel (CompiledGrammar.Renamed (ρ scope)) (g.document? scope) (g'.document? scope)
  injections : g'.injections = g.injections.map (Injection.rename ρ)
  count : g'.ruleCount = g.ruleCount

variable {ρ} {g g' : Grammar}

namespace Renamed

variable (h : g.Renamed ρ g')

include h

theorem document_cases (scope : ScopeName) :
    (g.document? scope = none ∧ g'.document? scope = none) ∨
      ∃ d d', g.document? scope = some d ∧ g'.document? scope = some d' ∧
        d.Renamed (ρ scope) d' := by
  have hdocument := h.document scope
  cases hd : g.document? scope with
  | none =>
    rw [hd] at hdocument
    cases hd' : g'.document? scope with
    | none => exact .inl ⟨rfl, rfl⟩
    | some d' =>
      rw [hd'] at hdocument
      cases hdocument
  | some d =>
    rw [hd] at hdocument
    cases hd' : g'.document? scope with
    | none =>
      rw [hd'] at hdocument
      cases hdocument
    | some d' =>
      rw [hd'] at hdocument
      cases hdocument with
      | some hrenamed => exact .inr ⟨d, d', rfl, rfl, hrenamed⟩

theorem rule? (r : RuleRef) :
    g'.rule? (r.rename ρ) = (g.rule? r).map (Rule.rename (ρ r.grammar)) := by
  rcases h.document_cases r.grammar with ⟨hd, hd'⟩ | ⟨d, d', hd, hd', hrenamed⟩
  · simp [Grammar.rule?, RuleRef.rename, hd, hd']
  · simpa [Grammar.rule?, RuleRef.rename, hd, hd'] using hrenamed.rule r.rule

theorem root? (scope : ScopeName) : g'.root? scope = (g.root? scope).map (RuleRef.rename ρ) := by
  rcases h.document_cases scope with ⟨hd, hd'⟩ | ⟨d, d', hd, hd', hrenamed⟩
  · simp [Grammar.root?, hd, hd']
  · simp [Grammar.root?, RuleRef.rename, hd, hd', hrenamed.root]

theorem includeTarget? (own : ScopeName) (target : IncludeTarget) :
    g'.includeTarget? own (target.rename (ρ own)) =
      (g.includeTarget? own target).map (RuleRef.rename ρ) := by
  cases target with
  | rule id => rfl
  | ownRoot => exact h.root? own
  | baseRoot =>
    change g'.root? g'.scopeName = (g.root? g.scopeName).map _
    rw [h.scopeName]
    exact h.root? g.scopeName
  | grammar scope entry =>
    cases entry with
    | none => exact h.root? scope
    | some name =>
      rcases h.document_cases scope with ⟨hd, hd'⟩ | ⟨d, d', hd, hd', hrenamed⟩
      · simp [Grammar.includeTarget?, IncludeTarget.rename, hd, hd']
      · simp [Grammar.includeTarget?, IncludeTarget.rename, RuleRef.rename, hd, hd',
          hrenamed.entry, Function.comp_def]

theorem members (own : ScopeName) (rule : Rule) :
    g'.members own (rule.rename (ρ own)) = (g.members own rule).map (RuleRef.rename ρ) := by
  cases rule with
  | group r => simp [Grammar.members, Rule.rename, RuleRef.rename, Function.comp_def]
  | inclusion target =>
    change (g'.includeTarget? own (target.rename (ρ own))).toList = _
    rw [h.includeTarget?, Option.toList_map]
    rfl
  | _ => rfl

end Renamed

theorem contains_map_rename (rs : List RuleRef) (r : RuleRef) :
    (rs.map (RuleRef.rename ρ)).contains (r.rename ρ) = rs.contains r := by
  induction rs with
  | nil => rfl
  | cons r' rs ih => rw [List.map_cons, List.contains_cons, List.contains_cons, ih,
      RuleRef.rename_beq]

namespace Renamed

/-- Renamed groups stand for the renamed rules, in the same order and with the same patterns. -/
theorem flatten (h : g.Renamed ρ g') (visited todo : List RuleRef) :
    g'.flatten (visited.map (RuleRef.rename ρ)) (todo.map (RuleRef.rename ρ)) =
      (g.flatten visited todo).map fun e => (e.1.rename ρ, e.2) := by
  induction visited, todo using flatten.induct g with
  | case1 visited => simp [Grammar.flatten]
  | case2 visited r todo hnone ih =>
    have hnone' : g'.rule? (r.rename ρ) = none := by rw [h.rule?, hnone, Option.map_none]
    rw [List.map_cons, flatten_unknown hnone, flatten_unknown hnone', ih]
  | case3 visited r todo rule hrule p hstart ih =>
    have hrule' : g'.rule? (r.rename ρ) = some (rule.rename (ρ r.grammar)) := by
      rw [h.rule?, hrule, Option.map_some]
    rw [List.map_cons, flatten_pattern hrule hstart,
      flatten_pattern hrule' (rule.startPattern?_rename.trans hstart), ih, List.map_cons]
  | case4 visited r todo rule hrule hstart hfresh ih =>
    have hrule' : g'.rule? (r.rename ρ) = some (rule.rename (ρ r.grammar)) := by
      rw [h.rule?, hrule, Option.map_some]
    rw [List.map_cons, flatten_fresh hrule hstart hfresh,
      flatten_fresh hrule' (rule.startPattern?_rename.trans hstart)
        ((contains_map_rename visited r).trans hfresh), ← ih, List.map_append, List.map_cons]
    -- the members of a renamed group are renamed within its grammar
    rw [← h.members]
    rfl
  | case5 visited r todo rule hrule hstart hseen ih =>
    have hrule' : g'.rule? (r.rename ρ) = some (rule.rename (ρ r.grammar)) := by
      rw [h.rule?, hrule, Option.map_some]
    have hseen' : ¬(visited.map (RuleRef.rename ρ)).contains (r.rename ρ) = false := by
      rwa [contains_map_rename]
    rw [List.map_cons, flatten_visited hrule hstart hseen,
      flatten_visited hrule' (rule.startPattern?_rename.trans hstart) hseen', ih]

theorem childPatterns (h : g.Renamed ρ g') (r : RuleRef) :
    g'.childPatterns (r.rename ρ) = (g.childPatterns r).map fun e => (e.1.rename ρ, e.2) := by
  rw [Grammar.childPatterns, Grammar.childPatterns, h.rule?]
  cases g.rule? r with
  | none => rfl
  | some rule =>
    dsimp only [Option.map_some]
    have hchildren : ((rule.rename (ρ r.grammar)).children.map fun id =>
        (⟨(r.rename ρ).grammar, id⟩ : RuleRef)) =
          (rule.children.map fun id => (⟨r.grammar, id⟩ : RuleRef)).map (RuleRef.rename ρ) := by
      rw [Rule.children_rename, List.map_map, List.map_map]
      rfl
    rw [hchildren]
    exact h.flatten [] _

theorem injectedPatterns (h : g.Renamed ρ g') (r : RuleRef) :
    g'.injectedPatterns (r.rename ρ) = (g.injectedPatterns r).map fun e => (e.1.rename ρ, e.2) :=
  h.flatten [] [r]

theorem activeInjections (h : g.Renamed ρ g') (scopes : ScopePath) :
    g'.activeInjections scopes =
      (g.activeInjections scopes).map fun e => (e.1, e.2.rename ρ) := by
  have hactive : (g'.injections.filterMap fun i =>
      (i.selector.priority? scopes).map fun p => (p, i.target)) =
        (g.injections.filterMap fun i => (i.selector.priority? scopes).map
          fun p => (p, i.target)).map fun e => (e.1, e.2.rename ρ) := by
    rw [h.injections, List.filterMap_map, List.map_filterMap]
    refine List.filterMap_congr fun i _ => ?_
    simp [Injection.rename, Function.comp_def]
  rw [Grammar.activeInjections, Grammar.activeInjections, hactive, List.map_flatMap]
  refine List.flatMap_congr fun p _ => ?_
  rw [List.filter_map]
  rfl

end Renamed

/-! ## Linking -/

variable {root root' : CompiledGrammar} {documents documents' : List CompiledGrammar}
  {injectors : List ScopeName}

/-- Documents with renamed places have as many rules each, in whatever order they come. -/
theorem perm_size_byScope
    (h : ∀ scope, Option.Rel (CompiledGrammar.Renamed (ρ scope)) (lastOf documents scope)
      (lastOf documents' scope)) :
    ((byScope documents').map (·.2.rules.size)).Perm
      ((byScope documents).map (·.2.rules.size)) := by
  have hmem : ∀ (ds : List CompiledGrammar) (e : ScopeName × Nat),
      e ∈ (byScope ds).map (fun e => (e.1, e.2.rules.size)) ↔
        ∃ d, lastOf ds e.1 = some d ∧ d.rules.size = e.2 := by
    intro ds ⟨scope, n⟩
    rw [List.mem_map]
    constructor
    · rintro ⟨⟨scope', d⟩, hd, heq⟩
      obtain ⟨rfl, rfl⟩ := Prod.mk.inj heq
      exact ⟨d, mem_byScope.1 hd, rfl⟩
    · rintro ⟨d, hd, rfl⟩
      exact ⟨(scope, d), mem_byScope.2 hd, rfl⟩
  have hnodup : ∀ ds : List CompiledGrammar,
      ((byScope ds).map fun e => (e.1, e.2.rules.size)).Nodup := by
    intro ds
    refine List.Nodup.of_map Prod.fst ?_
    rw [List.map_map]
    exact nodup_byScope ds
  have hperm : ((byScope documents').map fun e => (e.1, e.2.rules.size)).Perm
      ((byScope documents).map fun e => (e.1, e.2.rules.size)) := by
    refine (List.perm_ext_iff_of_nodup (hnodup _) (hnodup _)).2 fun ⟨scope, n⟩ => ?_
    rw [hmem, hmem]
    obtain ⟨hd, hd'⟩ | ⟨d, d', hd, hd', hrenamed⟩ := rel_cases (h scope)
    · simp [hd, hd']
    · simp [hd, hd', hrenamed.size]
  have hsizes := hperm.map (·.2)
  rwa [List.map_map, List.map_map] at hsizes

theorem externalIncludes_renamed {σ : Equiv.Perm RuleId} {d d' : CompiledGrammar}
    (h : d.Renamed σ d') (i : ScopeName × Option String) :
    i ∈ d'.externalIncludes ↔ i ∈ d.externalIncludes := by
  rw [mem_externalIncludes, mem_externalIncludes]
  constructor
  · rintro ⟨id, hid⟩
    obtain ⟨id, rfl⟩ := σ.surjective id
    rw [h.rule] at hid
    obtain ⟨rule, hrule, heq⟩ := Option.map_eq_some_iff.1 hid
    refine ⟨id, hrule.trans (congrArg some ?_)⟩
    cases rule with
    | inclusion target =>
      cases target with
      | grammar scope entry => exact heq
      | _ => cases heq
    | _ => cases heq
  · rintro ⟨id, hid⟩
    refine ⟨σ id, ?_⟩
    rw [h.rule, hid]
    rfl

/-- Where documents can be linked, documents with renamed places can, and the linked grammars differ
by the renaming. -/
theorem link_renamed
    (h : ∀ scope, Option.Rel (CompiledGrammar.Renamed (ρ scope))
      (lastOf (documents ++ [root]) scope) (lastOf (documents' ++ [root']) scope))
    (hroot : root.Renamed (ρ root.scopeName) root')
    (hlink : link root documents injectors = .ok g) :
    ∃ g', link root' documents' injectors = .ok g' ∧ g.Renamed ρ g' := by
  obtain ⟨hincludes, hinjectors, rfl⟩ := link_eq_ok_iff.1 hlink
  -- the same scopes have documents, so that what is checked of one list is known of the other
  have hfind : ∀ scope, (∀ d, lastOf (documents ++ [root]) scope = some d →
      ∃ d', lastOf (documents' ++ [root']) scope = some d' ∧ d.Renamed (ρ scope) d') ∧
      ∀ d', lastOf (documents' ++ [root']) scope = some d' →
        ∃ d, lastOf (documents ++ [root]) scope = some d ∧ d.Renamed (ρ scope) d' := by
    intro scope
    obtain ⟨hd, hd'⟩ | ⟨d, d', hd, hd', hrenamed⟩ := rel_cases (h scope)
    · simp [hd, hd']
    · simp [hd, hd', hrenamed]
  have hname : root'.scopeName = root.scopeName := hroot.header.1
  refine ⟨_, link_eq_ok_iff.2 ⟨?_, ?_, rfl⟩, hname, fun scope => ?_, ?_, ?_⟩
  · intro scope d' hd' i hi
    obtain ⟨d, hd, hrenamed⟩ := (hfind scope).2 d' hd'
    obtain ⟨e, he, hentry⟩ := hincludes scope d hd i ((externalIncludes_renamed hrenamed i).1 hi)
    obtain ⟨e', he', hrenamed'⟩ := (hfind i.1).1 e he
    refine ⟨e', he', fun name hn => ?_⟩
    rw [hrenamed'.entry, Option.isSome_map]
    exact hentry name hn
  · intro s hs
    obtain ⟨d, hd⟩ := Option.isSome_iff_exists.1 (hinjectors s hs)
    obtain ⟨d', hd', _⟩ := (hfind s).1 d hd
    rw [hd']
    rfl
  · have hrel := h scope
    rwa [← lookup_byScope, ← lookup_byScope] at hrel
  · dsimp only
    rw [linkedInjections, linkedInjections, List.map_append, List.map_filterMap]
    congr 1
    · rw [hroot.injections, List.map_map, List.map_map, hname]
      rfl
    · refine List.filterMap_congr fun s _ => ?_
      rw [injectionOf?, injectionOf?, lookup_byScope, lookup_byScope]
      obtain ⟨hd, hd'⟩ | ⟨d, d', hd, hd', hrenamed⟩ := rel_cases (h s)
      · rw [hd, hd']
        rfl
      · obtain ⟨_, _, _, _, hselector, _⟩ := hrenamed.header
        simp [hd, hd', hselector, hrenamed.root, Injection.rename, RuleRef.rename,
          Function.comp_def]
  · unfold ruleCount
    have hsum : ∀ es : List (ScopeName × CompiledGrammar),
        es.foldl (fun n e => n + e.2.rules.size) 0 =
          (es.map (·.2.rules.size)).foldl (fun n size => n + size) 0 :=
      fun es => List.foldl_map.symm
    refine (hsum _).trans (((perm_size_byScope h).foldl_eq' ?_ 0).trans (hsum _).symm)
    intro n _ m _ size
    omega

end Grammar

end Highlight
