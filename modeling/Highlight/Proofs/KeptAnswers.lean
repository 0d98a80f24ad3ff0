import Highlight.Proofs.DependencyClosure

/-!
# Libraries that outlive their loader

What a loader answers changes with time, while a library keeps what came of its answers. So what
loading a scope comes to is said by the library where it keeps something, and by the loader of the
day elsewhere (`Library.document`). A library that has been used with other loaders acts as if it
had been used with one loader all the time, namely one that answers so (`Answered.exists_loader`,
`link_eq`): what is known of libraries with one loader applies to it. And since it keeps things, it
asks the loader for less than is needed: `AskedFor` says for what.
-/

namespace Highlight

namespace Library

/-- What loading a scope comes to: what is kept of it, or what the loader's answer comes to. -/
def document (l : Library) (loader : Loader) (scope : ScopeName) :
    Except GrammarError CompiledGrammar :=
  match l.compiled.lookup scope with
  | some r => r.map Loaded.value
  | none => loader.document scope

/-- The scopes that the library keeps something of. -/
def kept (l : Library) : List ScopeName := l.compiled.map (·.1)

/-- The scopes that linking the grammar of a scope needs where others are injected into it. -/
inductive Needs (l : Library) (loader : Loader) (scope : ScopeName) (injectors : List ScopeName) :
    ScopeName → Prop
  | root : Needs l loader scope injectors scope
  | injected {s : ScopeName} (h : s ∈ injectors) : Needs l loader scope injectors s
  | embedded {s other : ScopeName} {d : CompiledGrammar} (hs : Needs l loader scope injectors s)
      (hd : l.document loader s = .ok d) (h : other ∈ d.embedded) :
      Needs l loader scope injectors other

/-- What is kept came of answers, of the loader now or of others before. -/
def Answered (l : Library) : Prop :=
  ∀ scope r, l.compiled.lookup scope = some r →
    ∃ answer, r.map Loaded.value = compileAnswer scope answer

/-- Two loaders differ at most in what they say about scopes that the library keeps. -/
structure Alike (l : Library) (loader loader' : Loader) : Prop where
  injectors : loader.injectors = loader'.injectors
  sources : ∀ s, s ∉ l.kept → loader.sources.lookup s = loader'.sources.lookup s

variable {l : Library} {loader loader' : Loader} {scope : ScopeName}
  {injectors : List ScopeName} {root : CompiledGrammar}

/-! ## One loader for all -/

/-- There is a loader that gives the answers that the library keeps, and the loader's own answers
elsewhere. -/
theorem Answered.exists_loader (h : l.Answered) (loader : Loader) : ∃ loader' : Loader,
    l.Keeps loader' ∧ l.Alike loader loader' ∧
      loader'.sources.length ≤ loader.sources.length + l.compiled.length := by
  have hall : ∀ s, ∃ answer, ∀ r, l.compiled.lookup s = some r →
      r.map Loaded.value = compileAnswer s answer := by
    intro s
    cases hs : l.compiled.lookup s with
    | none => exact ⟨none, nofun⟩
    | some r =>
      obtain ⟨answer, heq⟩ := h s r hs
      refine ⟨answer, fun r' hr' => ?_⟩
      cases hr'
      exact heq
  choose answer hanswer using hall
  let earlier := l.kept.filterMap fun s => (answer s).map (s, ·)
  let later := loader.sources.filter fun e => !l.kept.contains e.1
  have hlookup : ∀ s, (earlier ++ later).lookup s =
      if s ∈ l.kept then answer s else loader.sources.lookup s := by
    intro s
    have hlater := lookup_filter_key (fun s => !l.kept.contains s) s loader.sources
    rw [List.lookup_append, lookup_filterMap_key answer s l.kept, hlater]
    by_cases hs : s ∈ l.kept
    · simp [hs]
    · simp [hs]
  refine ⟨⟨earlier ++ later, loader.injectors⟩, fun s r hr => ?_, ⟨rfl, fun s hs => ?_⟩, ?_⟩
  · have hs : s ∈ l.kept := isSome_lookup_iff_mem.1 (Option.isSome_of_eq_some hr)
    rw [Loader.document, hlookup, if_pos hs, hanswer s r hr]
  · rw [hlookup, if_neg hs]
  · have hearlier : earlier.length ≤ l.compiled.length :=
      (List.length_filterMap_le _ _).trans_eq (List.length_map _)
    have hlater : later.length ≤ loader.sources.length := List.length_filter_le _ _
    rw [List.length_append]
    omega

/-- A loader that the library agrees with says what loading comes to. -/
theorem document_eq (hkeeps : l.Keeps loader') (halike : l.Alike loader loader') (s : ScopeName) :
    l.document loader s = loader'.document s := by
  unfold document
  cases hs : l.compiled.lookup s with
  | some r => exact hkeeps s r hs
  | none =>
    have hnot : s ∉ l.kept := by
      rw [kept, ← isSome_lookup_iff_mem, hs]
      exact Bool.false_ne_true
    dsimp only
    rw [Loader.document, Loader.document, halike.sources s hnot]

theorem needs_iff (hkeeps : l.Keeps loader') (halike : l.Alike loader loader') (s : ScopeName) :
    l.Needs loader scope injectors s ↔ loader'.Needs scope injectors s := by
  constructor
  · intro h
    induction h with
    | root => exact .root
    | injected h => exact .injected h
    | embedded _ hd h ih => exact .embedded ih (document_eq hkeeps halike _ ▸ hd) h
  · intro h
    induction h with
    | root => exact .root
    | injected h => exact .injected h
    | embedded _ hd h ih => exact .embedded ih (document_eq hkeeps halike _ ▸ hd) h

/-- Loading comes to the same with either loader. -/
theorem load_alike (h : l.Alike loader loader') (scope : ScopeName) :
    l.load loader scope = l.load loader' scope ∧
      (l.load loader scope).2.Alike loader loader' := by
  unfold load
  cases hs : l.compiled.lookup scope with
  | some r => exact ⟨rfl, h⟩
  | none =>
    have hnot : scope ∉ l.kept := by
      rw [kept, ← isSome_lookup_iff_mem, hs]
      exact Bool.false_ne_true
    have hfetch : l.fetch loader scope = l.fetch loader' scope := by
      rw [fetch, fetch, h.sources scope hnot]
    dsimp only
    refine ⟨by rw [hfetch], h.injectors, fun s hmem => h.sources s fun hkept => hmem ?_⟩
    rw [kept, List.map_cons, (fetch_spec l loader scope).2.1]
    exact List.mem_cons_of_mem _ hkept

theorem loadAll_alike : ∀ (scopes : List ScopeName) {l : Library}, l.Alike loader loader' →
    l.loadAll loader scopes = l.loadAll loader' scopes ∧
      (l.loadAll loader scopes).2.Alike loader loader'
  | [], _, h => ⟨rfl, h⟩
  | scope :: scopes, l, h => by
    obtain ⟨heq, hload⟩ := load_alike h scope
    obtain ⟨heq', hrest⟩ := loadAll_alike scopes hload
    unfold loadAll
    dsimp only
    rw [← heq, ← heq']
    exact ⟨rfl, hrest⟩

theorem walkFrom_alike : ∀ (waves : Nat) {l : Library} (w : Walk) (wave : List ScopeName),
    l.Alike loader loader' → walkFrom loader waves l w wave = walkFrom loader' waves l w wave
  | 0, _, _, _, _ => rfl
  | _ + 1, _, _, [], _ => rfl
  | waves + 1, l, w, s :: wave, h => by
    obtain ⟨heq, hload⟩ := loadAll_alike (s :: wave) h
    rw [walkFrom, walkFrom, ← heq]
    · dsimp only
      split
      · rfl
      · exact walkFrom_alike waves _ _ hload
    · simp
    · simp

open Walk

/-- Once there are waves enough, it is no matter how many. -/
theorem walkFrom_add (more : Nat) : ∀ (waves : Nat) {l : Library} {w : Walk}
    {loaded wave : List ScopeName}, l.Keeps loader →
      w.Covers loader scope injectors root loaded wave →
      loader.sources.length < waves + loaded.length →
      walkFrom loader (waves + more) l w wave = walkFrom loader waves l w wave
  | 0, l, w, loaded, wave, _, h, hwaves => by
    have hlength := h.length_le
    omega
  | waves + 1, l, w, loaded, [], _, _, _ => by
    rw [Nat.succ_add]
    rfl
  | waves + 1, l, w, loaded, s :: wave, hl, h, hwaves => by
    obtain ⟨hresults, hkeeps, _⟩ := loadAll_spec (s :: wave) hl
    have hcovers : w.Covers loader scope injectors root loaded (s :: wave ++ []) := by
      rwa [List.append_nil]
    obtain ⟨hok, _⟩ := addAll_spec _ [] hresults hcovers
    rw [Nat.succ_add, walkFrom, walkFrom]
    · dsimp only
      split
      · rfl
      · rename_i next w₁ heq
        have hlength : loader.sources.length < waves + ((s :: wave).reverse ++ loaded).length := by
          rw [List.length_append, List.length_reverse, List.length_cons]
          omega
        exact walkFrom_add more waves hkeeps (hok next w₁ heq) hlength
    · simp
    · simp

theorem walkFrom_enough {waves waves' : Nat} {w : Walk} {loaded wave : List ScopeName}
    (hl : l.Keeps loader) (h : w.Covers loader scope injectors root loaded wave)
    (hwaves : loader.sources.length < waves + loaded.length)
    (hwaves' : loader.sources.length < waves' + loaded.length) :
    walkFrom loader waves l w wave = walkFrom loader waves' l w wave := by
  rcases Nat.le_total waves waves' with hle | hle
  · obtain ⟨more, rfl⟩ := Nat.exists_eq_add_of_le hle
    exact (walkFrom_add more waves hl h hwaves).symm
  · obtain ⟨more, rfl⟩ := Nat.exists_eq_add_of_le hle
    exact walkFrom_add more waves' hl h hwaves'

theorem length_le_load (l : Library) (loader : Loader) (scope : ScopeName) :
    l.compiled.length ≤ (l.load loader scope).2.compiled.length := by
  unfold load
  split
  · exact Nat.le_refl _
  · dsimp only
    rw [List.length_cons, (fetch_spec l loader scope).2.1]
    exact Nat.le_succ _

/-- A library links as if it had been used with the other loader all the time. -/
theorem link_eq (hkeeps : l.Keeps loader') (halike : l.Alike loader loader')
    (hlength : loader'.sources.length ≤ loader.sources.length + l.compiled.length)
    (scope : ScopeName) : l.link loader scope = l.link loader' scope := by
  obtain ⟨hload, halike'⟩ := load_alike halike scope
  obtain ⟨hvalue, hkeeps', _⟩ := load_spec hkeeps scope
  have hgrow := length_le_load l loader' scope
  rw [hload] at halike'
  unfold link
  rw [hload]
  generalize l.load loader' scope = loaded at hvalue hkeeps' halike' hgrow
  obtain ⟨r, l₁⟩ := loaded
  cases r with
  | error e => rfl
  | ok root =>
    have hcovers := Walk.covers_meet (l₁.injectorsOf loader' scope) hvalue.symm
    have hinjectors : l₁.injectorsOf loader scope = l₁.injectorsOf loader' scope := by
      rw [injectorsOf, injectorsOf, halike'.injectors]
    have hgrow : l.compiled.length ≤ l₁.compiled.length := hgrow
    -- both numbers of waves are enough for the walk
    have hwaves : loader'.sources.length < l₁.waves loader + [scope].length := by
      rw [waves, List.length_singleton]
      omega
    have hwaves' : loader'.sources.length < l₁.waves loader' + [scope].length := by
      rw [waves, List.length_singleton]
      omega
    dsimp only
    rw [hinjectors, walkFrom_alike _ _ _ halike', walkFrom_enough hkeeps' hcovers hwaves hwaves']

/-! ## What a loader is asked for -/

/-- From one library to the other these scopes were loaded, the last one first: the loader was asked
for those that were not kept before, and all are kept after. -/
structure AskedFor (l l' : Library) (scopes : List ScopeName) : Prop where
  requests : l'.requests = (scopes.filter fun s => !l.kept.contains s) ++ l.requests
  kept : ∀ s, s ∈ l'.kept ↔ s ∈ scopes ∨ s ∈ l.kept

theorem AskedFor.refl (l : Library) : AskedFor l l [] := ⟨rfl, by simp⟩

theorem AskedFor.trans {l l' l'' : Library} {scopes scopes' : List ScopeName}
    (h : AskedFor l l' scopes) (h' : AskedFor l' l'' scopes')
    (hdisjoint : ∀ s ∈ scopes', s ∉ scopes) : AskedFor l l'' (scopes' ++ scopes) where
  requests := by
    have hfilter : (scopes'.filter fun s => !l'.kept.contains s) =
        scopes'.filter fun s => !l.kept.contains s := by
      refine List.filter_congr fun s hs => ?_
      have hiff : s ∈ l'.kept ↔ s ∈ l.kept := by simp [h.kept, hdisjoint s hs]
      rw [Bool.not_inj_iff, Bool.eq_iff_iff, List.contains_iff_mem, List.contains_iff_mem, hiff]
    rw [h'.requests, h.requests, hfilter, List.filter_append, List.append_assoc]
  kept s := by rw [h'.kept, h.kept, List.mem_append, or_assoc]

theorem load_asks (l : Library) (loader : Loader) (scope : ScopeName) :
    AskedFor l (l.load loader scope).2 [scope] := by
  unfold load
  cases hs : l.compiled.lookup scope with
  | some r =>
    have hkept : scope ∈ l.kept := isSome_lookup_iff_mem.1 (Option.isSome_of_eq_some hs)
    refine ⟨by simp [hkept], fun s => ?_⟩
    rw [List.mem_singleton, or_iff_right_of_imp]
    rintro rfl
    exact hkept
  | none =>
    have hnot : scope ∉ l.kept := by
      rw [kept, ← isSome_lookup_iff_mem, hs]
      exact Bool.false_ne_true
    obtain ⟨_, hcompiled, _, hrequests⟩ := fetch_spec l loader scope
    refine ⟨by simp [hnot, hrequests], fun s => ?_⟩
    dsimp only
    rw [kept, List.map_cons, List.mem_cons, List.mem_singleton, hcompiled]
    rfl

theorem loadAll_asks : ∀ {scopes : List ScopeName} (l : Library), scopes.Nodup →
    AskedFor l (l.loadAll loader scopes).2 scopes.reverse
  | [], l, _ => .refl l
  | scope :: scopes, l, hnodup => by
    obtain ⟨hscope, hnodup⟩ := List.nodup_cons.1 hnodup
    have hrest := loadAll_asks (l.load loader scope).2 hnodup
    rw [List.reverse_cons]
    refine (load_asks l loader scope).trans hrest fun s hs heq => hscope ?_
    rw [← List.mem_singleton.1 heq]
    exact List.mem_reverse.1 hs

/-- What a walk loads is needed; where the walk succeeds, it is all that is. -/
theorem walkFrom_asks : ∀ (waves : Nat) {l : Library} {w : Walk} {loaded wave : List ScopeName},
    l.Keeps loader → w.Covers loader scope injectors root loaded wave →
      loader.sources.length < waves + loaded.length →
      ∃ new, AskedFor l (walkFrom loader waves l w wave).2 new ∧ (new ++ loaded).Nodup ∧
        (∀ s ∈ new, loader.Needs scope injectors s) ∧
        ∀ w', (walkFrom loader waves l w wave).1 = .ok w' →
          w'.Covers loader scope injectors root (new ++ loaded) []
  | 0, l, w, loaded, wave, _, h, hwaves => by
    have hlength := h.length_le
    omega
  | waves + 1, l, w, loaded, [], _, h, _ => by
    refine ⟨[], .refl l, h.nodup, fun s hs => absurd hs List.not_mem_nil, fun w' heq => ?_⟩
    cases heq
    exact h
  | waves + 1, l, w, loaded, s :: wave, hl, h, hwaves => by
    obtain ⟨hresults, hkeeps, _⟩ := loadAll_spec (s :: wave) hl
    have hcovers : w.Covers loader scope injectors root loaded (s :: wave ++ []) := by
      rwa [List.append_nil]
    obtain ⟨hok, _⟩ := addAll_spec _ [] hresults hcovers
    obtain ⟨hwave, hloaded, hdisjoint⟩ := List.nodup_append.1 h.nodup
    have hasked : AskedFor l (l.loadAll loader (s :: wave)).2 (s :: wave).reverse :=
      loadAll_asks l hwave
    have hneeds : ∀ s' ∈ (s :: wave).reverse, loader.Needs scope injectors s' := fun s' hs' =>
      h.needed s' ((h.seen s').2 (List.mem_append_left _ (List.mem_reverse.1 hs')))
    rw [walkFrom]
    dsimp only
    · split
      · refine ⟨(s :: wave).reverse, hasked, ?_, hneeds, fun w' heq => ?_⟩
        · rw [((List.reverse_perm _).append_right loaded).nodup_iff]
          exact h.nodup
        · cases heq
      · rename_i next w₁ heq
        have hlength : loader.sources.length < waves + ((s :: wave).reverse ++ loaded).length := by
          rw [List.length_append, List.length_reverse, List.length_cons]
          omega
        obtain ⟨new, hnew, hnodup, hneeds', hdone⟩ :=
          walkFrom_asks waves hkeeps (hok next w₁ heq) hlength
        rw [← List.append_assoc] at hnodup hdone
        refine ⟨new ++ (s :: wave).reverse, hasked.trans hnew fun s' hs' hmem => ?_, hnodup,
          fun s' hs' => ?_, hdone⟩
        · exact (List.nodup_append.1 (List.nodup_append.1 hnodup).1).2.2 s' hs' s' hmem rfl
        · exact (List.mem_append.1 hs').elim (hneeds' s') (hneeds s')
    · simp

/-- What linking loads is needed; where it succeeds, it is all that is. -/
theorem link_asks (h : l.Keeps loader) (scope : ScopeName) : ∃ loaded : List ScopeName,
    AskedFor l (l.link loader scope).2 loaded ∧ loaded.Nodup ∧ scope ∈ loaded ∧
      (∀ s ∈ loaded,
        loader.Needs scope ((l.load loader scope).2.injectorsOf loader scope) s) ∧
      ∀ g, (l.link loader scope).1 = .ok g → ∀ s,
        loader.Needs scope ((l.load loader scope).2.injectorsOf loader scope) s → s ∈ loaded := by
  obtain ⟨hvalue, hkeeps, _⟩ := load_spec h scope
  have hasked := load_asks l loader scope
  unfold link
  generalize l.load loader scope = result at hvalue hkeeps hasked
  obtain ⟨r, l₁⟩ := result
  cases r with
  | error e =>
    refine ⟨[scope], hasked, List.nodup_singleton scope, List.mem_singleton_self scope,
      fun s hs => ?_, fun g hg => ?_⟩
    · rw [List.mem_singleton.1 hs]
      exact .root
    · cases hg
  | ok root =>
    have hcovers := Walk.covers_meet (l₁.injectorsOf loader scope) hvalue.symm
    have hwaves : loader.sources.length < l₁.waves loader + [scope].length := by
      rw [waves, List.length_singleton]
      omega
    obtain ⟨new, hnew, hnodup, hneeds, hdone⟩ :=
      walkFrom_asks (l₁.waves loader) hkeeps hcovers hwaves
    have hall := hasked.trans hnew fun s hs hmem =>
      (List.nodup_append.1 hnodup).2.2 s hs s hmem rfl
    have hneeds' : ∀ s ∈ new ++ [scope],
        loader.Needs scope (l₁.injectorsOf loader scope) s := by
      intro s hs
      rcases List.mem_append.1 hs with hs | hs
      · exact hneeds s hs
      · rw [List.mem_singleton.1 hs]
        exact .root
    have hscope : scope ∈ new ++ [scope] := List.mem_append_right _ (List.mem_singleton_self scope)
    dsimp only
    generalize walkFrom loader _ l₁ _ _ = walked at hall hdone
    obtain ⟨w, l₂⟩ := walked
    cases w with
    | error e =>
      refine ⟨new ++ [scope], hall, hnodup, hscope, hneeds', fun g hg => ?_⟩
      cases hg
    | ok w =>
      obtain ⟨hloaded, _⟩ := (hdone w rfl).gathers hvalue.symm
      dsimp only
      split
      · refine ⟨new ++ [scope], hall, hnodup, hscope, hneeds', fun g hg => ?_⟩
        cases hg
      · exact ⟨new ++ [scope], ⟨hall.requests, hall.kept⟩, hnodup, hscope, hneeds',
          fun _ _ s hs => (hloaded s).2 hs⟩

end Library

end Highlight
