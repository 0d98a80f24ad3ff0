import Mathlib.Data.List.TakeWhile
import Highlight.Library.Store
import Highlight.Proofs.FaithfulTable
import Highlight.Proofs.LinkedDocuments

/-!
# What a library keeps of its loader

Loading a scope comes to the same whenever it is done (`Loader.document`): to a grammar that is what
a text says, so that the scopes it embeds are those its rules refer to
(`Loader.mem_embedded_iff`), or to an error, which is never that another grammar is missing
(`Loader.document_error`). What a library keeps is what loading comes to (`Library.Keeps`), and
loading asks the loader for the scopes that the library has nothing of (`Library.Asked`).
-/

namespace Highlight

/-- What loading a scope comes to. -/
def Loader.document (loader : Loader) (scope : ScopeName) : Except GrammarError CompiledGrammar :=
  Library.compileAnswer scope (loader.sources.lookup scope)

/-! ## References to other grammars -/

theorem splitReference_of_mem {scope entry : List Char} (h : '#' ∉ scope) :
    splitReference (String.ofList (scope ++ '#' :: entry)) =
      (String.ofList scope, some (String.ofList entry)) := by
  have hscope : ∀ c ∈ scope, (c != '#') = true := fun c hc => bne_iff_ne.2 fun heq => h (heq ▸ hc)
  simp [splitReference, List.takeWhile_append_of_pos hscope, List.dropWhile_append_of_pos hscope]

theorem splitReference_of_not_mem {reference : String} (h : '#' ∉ reference.toList) :
    splitReference reference = (reference, none) := by
  have hall : ∀ c ∈ reference.toList, (c != '#') = true :=
    fun c hc => bne_iff_ne.2 fun heq => h (heq ▸ hc)
  have hdrop : reference.toList.dropWhile (· != '#') = [] := List.dropWhile_eq_nil_iff.2 hall
  simp [splitReference, hdrop]

theorem hash_notMem_of_splitReference {reference : String} {scope : ScopeName}
    {entry : Option String} (h : splitReference reference = (scope, entry)) :
    '#' ∉ scope.toList := by
  unfold splitReference at h
  dsimp only at h
  split at h
  · rename_i hdrop
    cases h
    intro hmem
    have := List.dropWhile_eq_nil_iff.1 hdrop '#' hmem
    simp at this
  · cases h
    rw [String.toList_ofList]
    intro hmem
    have := List.mem_takeWhile_imp hmem
    simp at this

/-- A reference is spelled as it is read. -/
theorem splitReference_spell {i : ScopeName × Option String} (h : '#' ∉ i.1.toList) :
    splitReference (Grammar.spell i) = i := by
  obtain ⟨scope, entry⟩ := i
  cases entry with
  | none => exact splitReference_of_not_mem h
  | some entry =>
    have hspell : scope ++ "#" ++ entry = String.ofList (scope.toList ++ '#' :: entry.toList) := by
      rw [← String.toList_inj]
      simp [String.toList_append]
    rw [Grammar.spell, hspell, splitReference_of_mem h, String.ofList_toList, String.ofList_toList]

/-- In the grammar `own` the reference names the grammar `other`, or an entry of it. -/
structure NamesOther (own : ScopeName) (reference : String) (other : ScopeName)
    (entry : Option String) : Prop where
  split : splitReference reference = (other, entry)
  ne_empty : other ≠ ""
  ne_own : other ≠ own

namespace Loader

variable {loader : Loader} {scope : ScopeName} {d : CompiledGrammar}

theorem document_eq_ok_iff : loader.document scope = .ok d ↔ ∃ s raw,
    loader.sources.lookup scope = some (.source s) ∧ s.parse scope = .ok raw ∧
      CompiledGrammar.compile raw = .ok d := by
  unfold document
  cases loader.sources.lookup scope with
  | none => simp [Library.compileAnswer]
  | some answer =>
    cases answer with
    | failure reason => simp [Library.compileAnswer]
    | source s => simp [Library.compileAnswer, Except.bind_eq_ok]

/-- A grammar comes from a scope that the loader knows. -/
theorem mem_sources_of_document (h : loader.document scope = .ok d) :
    scope ∈ loader.sources.map (·.1) := by
  obtain ⟨s, _, hs, _⟩ := document_eq_ok_iff.1 h
  exact List.mem_map_of_mem (mem_of_lookup_eq_some hs)

/-- A grammar is what a text says. -/
theorem exists_renders (h : loader.document scope = .ok d) :
    ∃ raw : RawGrammar, raw.Keyed ∧ d.Renders raw raw.place := by
  obtain ⟨s, raw, _, hparse, hcompile⟩ := document_eq_ok_iff.1 h
  have hkeyed := GrammarSource.keyed_of_parse hparse
  exact ⟨raw, hkeyed, RawGrammar.compile_renders hkeyed hcompile⟩

/-- The rules of a grammar refer to other grammars by names without a hash. -/
theorem spells_of_mem_externalIncludes (h : loader.document scope = .ok d)
    {i : ScopeName × Option String} (hi : i ∈ d.externalIncludes) :
    (∃ reference, Spells reference i.1 i.2) ∧ i.1 ≠ d.scopeName ∧ i.1 ∈ d.embedded := by
  obtain ⟨raw, hkeyed, hrenders⟩ := exists_renders h
  obtain ⟨id, hid⟩ := Grammar.mem_externalIncludes.1 hi
  obtain ⟨hlt, _⟩ := Array.getElem?_eq_some_iff.1 hid
  obtain ⟨p, hp, rfl⟩ := hrenders.onto id hlt
  obtain ⟨r, hr⟩ := Option.isSome_iff_exists.1 hp
  obtain ⟨rule, hrule, hmeans⟩ := hrenders.rule p r hr
  cases Option.some.inj (hrule.symm.trans hid)
  cases hmeans with
  | inclusion hinclusion ht =>
    cases ht with
    | other hs hne =>
      have hmentions : raw.Mentions i.1 := ⟨hne, p, r, _, i.2, hr, hinclusion, hs⟩
      exact ⟨⟨_, hs⟩, hrenders.header.1 ▸ hne, (hrenders.embedded i.1).2 hmentions⟩

/-- The scopes that a grammar embeds are those that its rules refer to. -/
theorem mem_embedded_iff (h : loader.document scope = .ok d) (other : ScopeName) :
    other ∈ d.embedded ↔ ∃ entry, (other, entry) ∈ d.externalIncludes := by
  constructor
  · intro hother
    obtain ⟨raw, hkeyed, hrenders⟩ := exists_renders h
    obtain ⟨hne, p, r, reference, entry, hr, hinclusion, hs⟩ := (hrenders.embedded other).1 hother
    obtain ⟨rule, hrule, hmeans⟩ := hrenders.rule p r hr
    refine ⟨entry, Grammar.mem_externalIncludes.2 ⟨raw.place p, ?_⟩⟩
    cases hmeans with
    | inclusion hinclusion' ht =>
      cases Option.some.inj (hinclusion.symm.trans hinclusion')
      rw [RawGrammar.refers_iff, RawGrammar.target?_spells hs, RawGrammar.spelled?,
        if_neg hne] at ht
      cases ht
      exact hrule
    | _ => simp_all
  · rintro ⟨entry, hentry⟩
    exact (spells_of_mem_externalIncludes h hentry).2.2

/-- The errors of loading one grammar. -/
theorem document_error {e : GrammarError} (h : loader.document scope = .error e) :
    (loader.sources.lookup scope = none ∧ e = .notFound scope) ∨
      (loader.sources.lookup scope).isSome ∧ (∀ m, e ≠ .notFound m) ∧
        ∀ own reference other entry, e = .unresolved own reference →
          ¬NamesOther own reference other entry := by
  unfold document at h
  cases hanswer : loader.sources.lookup scope with
  | none =>
    rw [hanswer] at h
    cases h
    exact .inl ⟨rfl, rfl⟩
  | some answer =>
    refine .inr ⟨rfl, ?_⟩
    rw [hanswer] at h
    cases answer with
    | failure reason =>
      cases h
      simp
    | source s =>
      rcases Except.bind_eq_error.1 h with hparse | ⟨raw, hparse, hcompile⟩
      · unfold GrammarSource.parse at hparse
        split at hparse
        · cases hparse
        · cases hparse
          simp
      · obtain ⟨q, r, _, hfault⟩ :=
          RawGrammar.compile_blames (GrammarSource.keyed_of_parse hparse) hcompile
        cases hfault with
        | noEntry =>
          refine ⟨by simp, fun own reference other entry heq hnames => ?_⟩
          cases heq
          cases (splitReference_entry _).symm.trans hnames.split
          exact hnames.ne_empty rfl
        | nothing =>
          refine ⟨by simp, fun own reference other entry heq hnames => ?_⟩
          cases heq
          cases hnames.split
          exact hnames.ne_empty rfl
        | noOwnEntry _ hs =>
          refine ⟨by simp, fun own reference other entry heq hnames => ?_⟩
          cases heq
          cases hs.split.symm.trans hnames.split
          exact hnames.ne_own rfl
        | _ => simp

end Loader

namespace Library

/-- What the library keeps of single grammars is what loading them comes to. -/
def Keeps (l : Library) (loader : Loader) : Prop :=
  ∀ scope r, l.compiled.lookup scope = some r → r.map Loaded.value = loader.document scope

/-- From one library to the other the loader was asked for the scopes, the last one first, and what
came of it was kept. -/
structure Asked (l l' : Library) (scopes : List ScopeName) : Prop where
  requests : l'.requests = scopes ++ l.requests
  compiled : l'.compiled.map (·.1) = scopes ++ l.compiled.map (·.1)

theorem Asked.refl (l : Library) : Asked l l [] := ⟨rfl, rfl⟩

theorem Asked.trans {l l' l'' : Library} {scopes scopes' : List ScopeName}
    (h : Asked l l' scopes) (h' : Asked l' l'' scopes') : Asked l l'' (scopes' ++ scopes) where
  requests := by rw [h'.requests, h.requests, List.append_assoc]
  compiled := by rw [h'.compiled, h.compiled, List.append_assoc]

variable {l : Library} {loader : Loader}

/-- Fetching a grammar does not yet keep what comes of it. -/
theorem fetch_spec (l : Library) (loader : Loader) (scope : ScopeName) :
    (l.fetch loader scope).1.map Loaded.value = loader.document scope ∧
      (l.fetch loader scope).2.compiled = l.compiled ∧
      (l.fetch loader scope).2.linked = l.linked ∧
      (l.fetch loader scope).2.requests = scope :: l.requests := by
  unfold fetch Loader.document
  dsimp only
  cases compileAnswer scope (loader.sources.lookup scope) with
  | error e => exact ⟨rfl, rfl, rfl, rfl⟩
  | ok d => exact ⟨rfl, rfl, rfl, rfl⟩

/-- What loading one scope does to a library. -/
theorem load_spec (h : l.Keeps loader) (scope : ScopeName) :
    (l.load loader scope).1.map Loaded.value = loader.document scope ∧
      (l.load loader scope).2.Keeps loader ∧ (l.load loader scope).2.linked = l.linked ∧
      (scope ∉ l.compiled.map (·.1) → Asked l (l.load loader scope).2 [scope]) := by
  unfold load
  cases hkept : l.compiled.lookup scope with
  | some r =>
    refine ⟨h scope r hkept, h, rfl, fun hnew => ?_⟩
    exact absurd (List.mem_map_of_mem (mem_of_lookup_eq_some hkept)) hnew
  | none =>
    obtain ⟨hvalue, hcompiled, hlinked, hrequests⟩ := fetch_spec l loader scope
    dsimp only
    refine ⟨hvalue, fun scope' r' hr' => ?_, hlinked, fun _ => ⟨hrequests, ?_⟩⟩
    · rw [List.lookup_cons] at hr'
      split at hr'
      · rename_i heq
        cases hr'
        rw [beq_iff_eq.1 heq, hvalue]
      · exact h scope' r' (hcompiled ▸ hr')
    · rw [List.map_cons, hcompiled]
      rfl

/-- What loading several scopes does to a library. -/
theorem loadAll_spec : ∀ (scopes : List ScopeName) {l : Library}, l.Keeps loader →
    (l.loadAll loader scopes).1.map (fun r => (r.1, r.2.map Loaded.value)) =
        scopes.map (fun scope => (scope, loader.document scope)) ∧
      (l.loadAll loader scopes).2.Keeps loader ∧
      (l.loadAll loader scopes).2.linked = l.linked ∧
      (scopes.Nodup → (∀ scope ∈ scopes, scope ∉ l.compiled.map (·.1)) →
        Asked l (l.loadAll loader scopes).2 scopes.reverse)
  | [], l, h => ⟨rfl, h, rfl, fun _ _ => .refl l⟩
  | scope :: scopes, l, h => by
    obtain ⟨hvalue, hkeeps, hlinked, hasked⟩ := load_spec h scope
    obtain ⟨hvalues, hkeeps', hlinked', hasked'⟩ := loadAll_spec scopes hkeeps
    unfold loadAll
    dsimp only
    refine ⟨?_, hkeeps', hlinked'.trans hlinked, fun hnodup hnew => ?_⟩
    · rw [List.map_cons, List.map_cons, hvalues, hvalue]
    · obtain ⟨hscope, hnodup'⟩ := List.nodup_cons.1 hnodup
      have hfirst := hasked (hnew scope List.mem_cons_self)
      rw [List.reverse_cons]
      refine hfirst.trans (hasked' hnodup' fun scope' hscope' => ?_)
      rw [hfirst.compiled, List.singleton_append, List.mem_cons, not_or]
      exact ⟨fun heq => hscope (heq ▸ hscope'), hnew scope' (List.mem_cons_of_mem _ hscope')⟩

end Library

end Highlight
