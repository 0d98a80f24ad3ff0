import Mathlib.Data.List.Induction
import Highlight.Proofs.ReadGrammars
import Highlight.Proofs.ScanFailures

/-!
# What linking makes of documents

Linking keeps documents by the scope that they declare: of those that declare the same scope the
last one counts (`lastOf`, `lookup_byScope`). It succeeds if and only if each reference of a
document that counts leads to a rule and each injected grammar is among them (`link_eq_ok_iff`); if
it fails, one of these is the reason (`link_fault`). A table of documents has no order of its own,
so the first reference that leads nowhere may be any of them (`checkIncludes_fault`).
-/

namespace Highlight

/-- Of the documents that declare a scope the last one. -/
def lastOf (documents : List CompiledGrammar) (scope : ScopeName) : Option CompiledGrammar :=
  documents.reverse.find? (·.scopeName == scope)

theorem scopeName_of_lastOf {documents : List CompiledGrammar} {scope : ScopeName}
    {d : CompiledGrammar} (h : lastOf documents scope = some d) : d.scopeName = scope :=
  beq_iff_eq.1 (List.find?_some (p := fun d : CompiledGrammar => d.scopeName == scope) h)

theorem mem_of_lastOf {documents : List CompiledGrammar} {scope : ScopeName} {d : CompiledGrammar}
    (h : lastOf documents scope = some d) : d ∈ documents :=
  List.mem_reverse.1 (List.mem_of_find?_eq_some h)

theorem lastOf_append (documents documents' : List CompiledGrammar) (scope : ScopeName) :
    lastOf (documents ++ documents') scope =
      (lastOf documents' scope).or (lastOf documents scope) := by
  rw [lastOf, List.reverse_append, List.find?_append]
  rfl

theorem lastOf_eq_none_iff {documents : List CompiledGrammar} {scope : ScopeName} :
    lastOf documents scope = none ↔ ∀ d ∈ documents, d.scopeName ≠ scope := by
  simp [lastOf]

namespace Grammar

/-- The documents by the scope that they declare. -/
def byScope (documents : List CompiledGrammar) : List (ScopeName × CompiledGrammar) :=
  documents.foldl (fun m d => Value.put d.scopeName d m) []

theorem byScope_append_singleton (documents : List CompiledGrammar) (d : CompiledGrammar) :
    byScope (documents ++ [d]) = Value.put d.scopeName d (byScope documents) := by
  rw [byScope, List.foldl_append]
  rfl

theorem lookup_byScope (documents : List CompiledGrammar) (scope : ScopeName) :
    (byScope documents).lookup scope = lastOf documents scope := by
  induction documents using List.reverseRecOn with
  | nil => rfl
  | append_singleton documents d ih =>
    rw [byScope_append_singleton, lastOf_append]
    by_cases h : d.scopeName = scope
    · subst h
      have hlast : lastOf [d] d.scopeName = some d := by simp [lastOf]
      rw [Value.lookup_put_self, hlast, Option.some_or]
    · have hlast : lastOf [d] scope = none := lastOf_eq_none_iff.2 (by simpa using h)
      rw [Value.lookup_put_of_ne (Ne.symm h), ih, hlast, Option.none_or]

theorem nodup_byScope (documents : List CompiledGrammar) :
    ((byScope documents).map (·.1)).Nodup := by
  induction documents using List.reverseRecOn with
  | nil => exact List.nodup_nil
  | append_singleton documents d ih =>
    rw [byScope_append_singleton]
    exact Value.nodup_put _ _ ih

theorem mem_byScope {documents : List CompiledGrammar} {scope : ScopeName} {d : CompiledGrammar} :
    (scope, d) ∈ byScope documents ↔ lastOf documents scope = some d := by
  rw [← lookup_byScope, lookup_eq_some_iff_mem (nodup_byScope documents)]

theorem mem_externalIncludes {d : CompiledGrammar} {i : ScopeName × Option String} :
    i ∈ d.externalIncludes ↔ ∃ id : RuleId, d.rule? id = some (.inclusion (.grammar i.1 i.2)) := by
  unfold CompiledGrammar.externalIncludes CompiledGrammar.rule?
  rw [List.mem_filterMap]
  constructor
  · rintro ⟨rule, hrule, hi⟩
    obtain ⟨id, hid⟩ := Array.mem_iff_getElem?.1 (Array.mem_toList_iff.1 hrule)
    refine ⟨id, ?_⟩
    split at hi
    · cases hi
      exact hid
    · cases hi
  · rintro ⟨id, hid⟩
    exact ⟨_, Array.mem_toList_iff.2 (Array.mem_of_getElem? hid), rfl⟩

theorem resolves_iff {documents : List (ScopeName × CompiledGrammar)}
    {i : ScopeName × Option String} : resolves documents i = true ↔
      ∃ d, documents.lookup i.1 = some d ∧ ∀ name ∈ i.2, (d.entry? name).isSome := by
  obtain ⟨scope, entry⟩ := i
  unfold resolves
  cases hd : documents.lookup scope with
  | none => simp [hd]
  | some d => cases entry <;> simp [hd]

/-- All references to other grammars lead to a rule. -/
theorem checkIncludes_eq_ok_iff {documents : List (ScopeName × CompiledGrammar)} :
    checkIncludes documents = .ok () ↔
      ∀ e ∈ documents, ∀ i ∈ e.2.externalIncludes, resolves documents i = true := by
  refine Except.forM_eq_ok_iff.trans (forall₂_congr fun e _ => ?_)
  obtain ⟨scope, d⟩ := e
  dsimp only
  cases hfind : d.externalIncludes.find? fun i => !resolves documents i with
  | none => simpa using List.find?_eq_none.1 hfind
  | some i =>
    refine iff_of_false (fun h => by cases h) fun h => ?_
    have hnot := List.find?_some hfind
    rw [h i (List.mem_of_find?_eq_some hfind)] at hnot
    cases hnot

/-- A reference to another grammar that leads nowhere is the fault of the document that has it. -/
theorem checkIncludes_error {documents : List (ScopeName × CompiledGrammar)} {e : GrammarError}
    (h : checkIncludes documents = .error e) : ∃ d ∈ documents.map (·.2),
      ∃ i ∈ d.externalIncludes, resolves documents i = false ∧
        e = .unresolved d.scopeName (spell i) := by
  obtain ⟨⟨scope, d⟩, hd, herror⟩ := Except.exists_of_forM_eq_error h
  dsimp only at herror
  split at herror
  · rename_i i hfind
    cases herror
    have hnot := List.find?_some hfind
    exact ⟨d, List.mem_map_of_mem hd, i, List.mem_of_find?_eq_some hfind, by simpa using hnot, rfl⟩
  · cases herror

/-- What one of the injected grammars injects. -/
def injectionOf? (documents : List (ScopeName × CompiledGrammar)) (scope : ScopeName) :
    Option Injection :=
  (documents.lookup scope).bind fun d => d.injectionSelector.map fun s => ⟨s, ⟨scope, d.root⟩⟩

/-- The first injected grammar that is not among the documents is not found; where there is none,
what the others inject follows their order. -/
theorem injectionsOf_eq (documents : List (ScopeName × CompiledGrammar)) :
    ∀ scopes : List ScopeName, injectionsOf documents scopes =
      match scopes.find? fun s => (documents.lookup s).isNone with
      | some s => .error (.notFound s)
      | none => .ok (scopes.filterMap (injectionOf? documents))
  | [] => rfl
  | scope :: scopes => by
    rw [injectionsOf, injectionsOf_eq documents scopes, List.find?_cons, List.filterMap_cons,
      injectionOf?]
    cases documents.lookup scope with
    | none => rfl
    | some d =>
      dsimp only [Option.isNone_some, Option.bind_some]
      cases scopes.find? fun s => (documents.lookup s).isNone with
      | some s => rfl
      | none => cases d.injectionSelector <;> rfl

theorem injectionsOf_eq_ok_iff {documents : List (ScopeName × CompiledGrammar)}
    {scopes : List ScopeName} {is : List Injection} : injectionsOf documents scopes = .ok is ↔
      (∀ s ∈ scopes, (documents.lookup s).isSome) ∧
        is = scopes.filterMap (injectionOf? documents) := by
  rw [injectionsOf_eq]
  cases hfind : scopes.find? fun s => (documents.lookup s).isNone with
  | some s =>
    refine iff_of_false (fun h => by cases h) fun h => ?_
    have hnone := List.find?_some hfind
    have hsome := h.1 s (List.mem_of_find?_eq_some hfind)
    rw [Option.isSome_iff_ne_none] at hsome
    exact hsome (by simpa using hnone)
  | none =>
    have hall : ∀ s ∈ scopes, (documents.lookup s).isSome := by
      intro s hs
      have := List.find?_eq_none.1 hfind s hs
      rwa [Bool.not_eq_true, Option.isNone_eq_false_iff] at this
    rw [Except.ok.injEq]
    exact ⟨fun h => ⟨hall, h.symm⟩, fun h => h.2.symm⟩

theorem injectionsOf_error {documents : List (ScopeName × CompiledGrammar)}
    {scopes : List ScopeName} {e : GrammarError} (h : injectionsOf documents scopes = .error e) :
    ∃ s ∈ scopes, documents.lookup s = none ∧ e = .notFound s := by
  rw [injectionsOf_eq] at h
  split at h
  · rename_i s hfind
    cases h
    have hnone := List.find?_some hfind
    exact ⟨s, List.mem_of_find?_eq_some hfind, by simpa using hnone, rfl⟩
  · cases h

/-! ## Linking -/

variable {root : CompiledGrammar} {documents : List CompiledGrammar} {injectors : List ScopeName}

/-- The injections of a linked grammar: its own, then those of the injected grammars. -/
def linkedInjections (root : CompiledGrammar) (documents : List (ScopeName × CompiledGrammar))
    (injectors : List ScopeName) : List Injection :=
  (root.injections.map fun (selector, id) => ⟨selector, ⟨root.scopeName, id⟩⟩) ++
    injectors.filterMap (injectionOf? documents)

theorem lastOf_append_root (scope : ScopeName) : lastOf (documents ++ [root]) scope =
    if root.scopeName = scope then some root else lastOf documents scope := by
  rw [lastOf_append]
  split
  · rename_i h
    have hlast : lastOf [root] scope = some root := by simp [lastOf, h]
    rw [hlast, Option.some_or]
  · rename_i h
    have hlast : lastOf [root] scope = none := lastOf_eq_none_iff.2 (by simpa using h)
    rw [hlast, Option.none_or]

/-- Documents can be linked if and only if the references of those that count lead to rules of
those that count and the injected grammars are among them. -/
theorem link_eq_ok_iff {g : Grammar} : link root documents injectors = .ok g ↔
    (∀ scope d, lastOf (documents ++ [root]) scope = some d → ∀ i ∈ d.externalIncludes,
      ∃ d', lastOf (documents ++ [root]) i.1 = some d' ∧ ∀ name ∈ i.2, (d'.entry? name).isSome) ∧
    (∀ s ∈ injectors, (lastOf (documents ++ [root]) s).isSome) ∧
    g = ⟨root.scopeName, byScope (documents ++ [root]),
      linkedInjections root (byScope (documents ++ [root])) injectors⟩ := by
  have hlink : link root documents injectors = (do
      checkIncludes (byScope (documents ++ [root]))
      let others ← injectionsOf (byScope (documents ++ [root])) injectors
      return ⟨root.scopeName, byScope (documents ++ [root]),
        (root.injections.map fun (selector, id) => ⟨selector, ⟨root.scopeName, id⟩⟩) ++
          others⟩) := rfl
  have hincludes : checkIncludes (byScope (documents ++ [root])) = .ok () ↔
      ∀ scope d, lastOf (documents ++ [root]) scope = some d → ∀ i ∈ d.externalIncludes,
        ∃ d', lastOf (documents ++ [root]) i.1 = some d' ∧
          ∀ name ∈ i.2, (d'.entry? name).isSome := by
    rw [checkIncludes_eq_ok_iff]
    simp only [resolves_iff, lookup_byScope, Prod.forall, mem_byScope]
  rw [hlink, Except.bind_eq_ok, ← hincludes]
  simp only [Except.bind_eq_ok, injectionsOf_eq_ok_iff, lookup_byScope]
  constructor
  · rintro ⟨_, hcheck, others, ⟨hinjectors, rfl⟩, heq⟩
    cases heq
    exact ⟨hcheck, hinjectors, rfl⟩
  · rintro ⟨hcheck, hinjectors, rfl⟩
    exact ⟨(), hcheck, _, ⟨hinjectors, rfl⟩, rfl⟩

/-- Why documents cannot be linked: a reference of one that counts leads nowhere, or an injected
grammar is not among them. There may be many reasons, and which one is told depends on the order in
which the documents are looked at. -/
inductive LinkFault (root : CompiledGrammar) (documents : List CompiledGrammar)
    (injectors : List ScopeName) : GrammarError → Prop
  | reference {scope : ScopeName} {d : CompiledGrammar} {i : ScopeName × Option String}
      (hd : lastOf (documents ++ [root]) scope = some d) (hi : i ∈ d.externalIncludes)
      (hleads : ∀ d', lastOf (documents ++ [root]) i.1 = some d' →
        ∃ name ∈ i.2, d'.entry? name = none) :
      LinkFault root documents injectors (.unresolved scope (spell i))
  | injected {s : ScopeName} (hs : s ∈ injectors) (hnone : lastOf (documents ++ [root]) s = none) :
      LinkFault root documents injectors (.notFound s)

/-- In whichever order the documents are looked at, the reference that is met is a fault of
theirs. -/
theorem checkIncludes_fault {table : List (ScopeName × CompiledGrammar)}
    (horder : (byScope (documents ++ [root])).Perm table) {e : GrammarError}
    (h : checkIncludes table = .error e) : LinkFault root documents injectors e := by
  have hlookup : ∀ s, table.lookup s = lastOf (documents ++ [root]) s := fun s =>
    (lookup_perm horder (nodup_byScope _) s).trans (lookup_byScope _ s)
  obtain ⟨d, hd, i, hi, hresolves, rfl⟩ := checkIncludes_error h
  obtain ⟨⟨scope, d'⟩, hmem, rfl⟩ := List.mem_map.1 hd
  have hlast := mem_byScope.1 (horder.mem_iff.2 hmem)
  rw [scopeName_of_lastOf hlast]
  refine .reference hlast hi fun d'' hd'' => ?_
  have hnot := mt resolves_iff.2 (Bool.eq_false_iff.1 hresolves)
  by_contra hnone
  refine hnot ⟨d'', (hlookup _).trans hd'', fun name hname => ?_⟩
  by_contra hentry
  exact hnone ⟨name, hname, by simpa using hentry⟩

theorem link_fault {e : GrammarError} (h : link root documents injectors = .error e) :
    LinkFault root documents injectors e := by
  rcases Except.bind_eq_error.1 h with h | ⟨_, _, h⟩
  · exact checkIncludes_fault (List.Perm.refl _) h
  · rcases Except.bind_eq_error.1 h with h | ⟨_, _, h⟩
    · obtain ⟨s, hs, hnone, rfl⟩ := injectionsOf_error h
      exact .injected hs ((lookup_byScope _ _).symm.trans hnone)
    · cases h

end Grammar

end Highlight
