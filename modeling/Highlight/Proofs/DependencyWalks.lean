import Highlight.Proofs.KeptGrammars

/-!
# Walks through dependencies

Linking a grammar needs its scope, those of the grammars injected into it, and with each scope those
that its grammar embeds (`Loader.Needs`). A walk loads them in waves. `Walk.Covers` is what it keeps
up: what it has seen is what it has loaded and the wave to come, each scope once, and that all of it
is needed and nothing needed is left out once the wave is empty. Each grammar added keeps this up
(`Walk.Covers.add`), so each wave does (`addAll_spec`), and there are waves enough
(`walkFrom_spec`): in the end a library has either gathered what is needed or found that a scope of
it cannot be loaded (`link_cases`).
-/

namespace Highlight

namespace Loader

variable (loader : Loader) (scope : ScopeName) (injectors : List ScopeName)

/-- The scopes that linking the grammar of a scope needs where others are injected into it. -/
inductive Needs : ScopeName → Prop
  | root : Needs scope
  | injected {s : ScopeName} (h : s ∈ injectors) : Needs s
  | embedded {s other : ScopeName} {d : CompiledGrammar} (hs : Needs s)
      (hd : loader.document s = .ok d) (h : other ∈ d.embedded) : Needs other

/-- Why a scope that is needed cannot be loaded; if it is unknown, a grammar that embeds it is
blamed. -/
inductive Lacks : GrammarError → Prop
  | failing {s : ScopeName} {e : GrammarError} (hs : loader.Needs scope injectors s)
      (h : loader.document s = .error e) : Lacks e
  | unknown {s other includer : ScopeName} {d : CompiledGrammar}
      (hs : loader.Needs scope injectors s) (h : loader.document s = .error (.notFound s))
      (hd : loader.document other = .ok d) (hembedded : s ∈ d.embedded) :
      Lacks (.unresolved includer s)

/-- The root and the documents are the grammars of the scopes that are needed. -/
structure Gathers (root : CompiledGrammar) (documents : List CompiledGrammar) : Prop where
  loaded : loader.document scope = .ok root
  sound : ∀ d ∈ documents ++ [root], ∃ s, loader.Needs scope injectors s ∧ loader.document s = .ok d
  complete : ∀ s, loader.Needs scope injectors s →
    ∃ d ∈ documents ++ [root], loader.document s = .ok d

variable {loader scope injectors}

/-- Something lacks only if not all that is needed can be loaded. -/
theorem Lacks.exists_error {e : GrammarError} (h : loader.Lacks scope injectors e) :
    ∃ s e', loader.Needs scope injectors s ∧ loader.document s = .error e' := by
  cases h with
  | failing hs h => exact ⟨_, _, hs, h⟩
  | unknown hs h => exact ⟨_, _, hs, h⟩

end Loader

namespace Library

namespace Walk

/-- The scopes that are new are those that have not been seen, each once. -/
theorem meet_spec : ∀ (scopes : List ScopeName) (w : Walk), ∃ fresh : List ScopeName,
    w.meet scopes = (fresh, { w with seen := fresh.reverse ++ w.seen }) ∧ fresh.Nodup ∧
      ∀ s, s ∈ fresh ↔ s ∈ scopes ∧ s ∉ w.seen
  | [], w => ⟨[], rfl, List.nodup_nil, by simp⟩
  | scope :: scopes, w => by
    rw [meet]
    split
    · rename_i hseen
      obtain ⟨fresh, hmeet, hnodup, hfresh⟩ := meet_spec scopes w
      rw [List.contains_iff_mem] at hseen
      refine ⟨fresh, hmeet, hnodup, fun s => ?_⟩
      rw [hfresh, List.mem_cons, or_and_right, or_iff_right]
      rintro ⟨rfl, hs⟩
      exact hs hseen
    · rename_i hseen
      obtain ⟨fresh, hmeet, hnodup, hfresh⟩ := meet_spec scopes { w with seen := scope :: w.seen }
      rw [List.contains_iff_mem] at hseen
      have hnot : scope ∉ fresh := fun h => ((hfresh scope).1 h).2 List.mem_cons_self
      refine ⟨scope :: fresh, ?_, List.nodup_cons.2 ⟨hnot, hnodup⟩, fun s => ?_⟩
      · rw [hmeet, List.reverse_cons, List.append_assoc]
        rfl
      · by_cases hs : s = scope
        · subst hs
          simp [hseen]
        · rw [List.mem_cons, hfresh, List.mem_cons, List.mem_cons, or_iff_right hs,
            or_iff_right hs, or_iff_right hs]

variable (loader : Loader) (scope : ScopeName) (injectors : List ScopeName)
  (root : CompiledGrammar)

/-- The walk from a root has loaded some scopes, the last one first, and is to load others. -/
structure Covers (w : Walk) (loaded wave : List ScopeName) : Prop where
  seen : ∀ s, s ∈ w.seen ↔ s ∈ wave ++ loaded
  nodup : (wave ++ loaded).Nodup
  needed : ∀ s ∈ w.seen, loader.Needs scope injectors s
  found : loaded.map loader.document = (w.found ++ [root]).map .ok
  /-- What the grammars embed has been seen. -/
  closed : ∀ d ∈ w.found ++ [root], ∀ s ∈ d.embedded, s ∈ w.seen
  start : ∀ s ∈ scope :: injectors, s ∈ w.seen
  includers : ∀ e ∈ w.includers, ∃ s d, loader.document s = .ok d ∧ e.1 ∈ d.embedded

variable {loader scope injectors root} {w : Walk} {loaded wave : List ScopeName}

namespace Covers

theorem exists_document (h : w.Covers loader scope injectors root loaded wave) {s : ScopeName}
    (hs : s ∈ loaded) : ∃ d ∈ w.found ++ [root], loader.document s = .ok d := by
  have hmem : loader.document s ∈ (w.found ++ [root]).map .ok :=
    h.found ▸ List.mem_map_of_mem hs
  obtain ⟨d, hd, heq⟩ := List.mem_map.1 hmem
  exact ⟨d, hd, heq.symm⟩

theorem exists_scope (h : w.Covers loader scope injectors root loaded wave) {d : CompiledGrammar}
    (hd : d ∈ w.found ++ [root]) : ∃ s ∈ loaded, loader.document s = .ok d := by
  have hmem : Except.ok d ∈ loaded.map loader.document := h.found ▸ List.mem_map_of_mem hd
  exact List.mem_map.1 hmem

/-- There are no more scopes loaded than the loader knows. -/
theorem length_le (h : w.Covers loader scope injectors root loaded wave) :
    loaded.length ≤ loader.sources.length := by
  have hnodup : loaded.Nodup := (List.nodup_append.1 h.nodup).2.1
  have hknown : loaded ⊆ loader.sources.map (·.1) := by
    intro s hs
    obtain ⟨d, _, hd⟩ := h.exists_document hs
    exact Loader.mem_sources_of_document hd
  calc loaded.length ≤ (loader.sources.map (·.1)).length :=
        (List.subperm_of_subset hnodup hknown).length_le
    _ = loader.sources.length := List.length_map _

/-- A scope of the wave is loaded, and what its grammar embeds is new or has been seen. -/
theorem add {s : ScopeName} {d : CompiledGrammar}
    (h : w.Covers loader scope injectors root loaded (s :: wave))
    (hd : loader.document s = .ok d) :
    (w.add d).2.Covers loader scope injectors root (s :: loaded) (wave ++ (w.add d).1) := by
  obtain ⟨fresh, hmeet, hnodup, hfresh⟩ := meet_spec d.embedded w
  have hadd : w.add d = (fresh, { w with
      seen := fresh.reverse ++ w.seen
      includers := (fresh.map fun other => (other, d.scopeName)) ++ w.includers
      found := d :: w.found }) := by
    rw [Walk.add, hmeet]
  have hneeds : loader.Needs scope injectors s :=
    h.needed s ((h.seen s).2 List.mem_cons_self)
  have hgrow : ∀ other ∈ w.seen, other ∈ fresh.reverse ++ w.seen :=
    fun other hother => List.mem_append_right _ hother
  rw [hadd]
  refine ⟨fun other => ?_, ?_, fun other hother => ?_, ?_, fun d' hd' other hother => ?_,
    fun other hother => hgrow other (h.start other hother), fun e he => ?_⟩
  · have hseen := h.seen other
    simp only [List.mem_append, List.mem_cons, List.mem_reverse] at hseen ⊢
    rw [hseen]
    tauto
  · -- the scopes are those from before with the new ones among them
    have hperm : ((wave ++ fresh) ++ s :: loaded).Perm (fresh ++ (s :: wave ++ loaded)) := by
      calc (wave ++ fresh) ++ s :: loaded
          _ = wave ++ (fresh ++ s :: loaded) := List.append_assoc ..
          List.Perm _ (wave ++ s :: (fresh ++ loaded)) := List.perm_middle.append_left wave
          List.Perm _ (s :: (wave ++ (fresh ++ loaded))) := List.perm_middle
          List.Perm _ (s :: (fresh ++ (wave ++ loaded))) :=
            (List.perm_append_comm_assoc wave fresh loaded).cons s
          List.Perm _ (fresh ++ (s :: wave ++ loaded)) := List.perm_middle.symm
    rw [hperm.nodup_iff, List.nodup_append]
    refine ⟨hnodup, h.nodup, fun other hother other' hother' heq => ?_⟩
    subst heq
    exact ((hfresh other).1 hother).2 ((h.seen other).2 hother')
  · rcases List.mem_append.1 hother with hother | hother
    · exact .embedded hneeds hd ((hfresh other).1 (List.mem_reverse.1 hother)).1
    · exact h.needed other hother
  · rw [List.map_cons, hd, h.found]
    rfl
  · rcases List.mem_cons.1 hd' with rfl | hd'
    · by_cases hold : other ∈ w.seen
      · exact hgrow other hold
      · exact List.mem_append_left _ (List.mem_reverse.2 ((hfresh other).2 ⟨hother, hold⟩))
    · exact hgrow other (h.closed d' hd' other hother)
  · rcases List.mem_append.1 he with he | he
    · obtain ⟨other, hother, rfl⟩ := List.mem_map.1 he
      exact ⟨s, d, hd, ((hfresh other).1 hother).1⟩
    · exact h.includers e he

/-- Where nothing is left to load, what is needed has been gathered. -/
theorem gathers (h : w.Covers loader scope injectors root loaded [])
    (hroot : loader.document scope = .ok root) :
    (∀ s, s ∈ loaded ↔ loader.Needs scope injectors s) ∧
      loader.Gathers scope injectors root w.found.reverse := by
  have hmem : ∀ d, d ∈ w.found.reverse ++ [root] ↔ d ∈ w.found ++ [root] := by simp
  have hneeds : ∀ s, s ∈ loaded ↔ loader.Needs scope injectors s := by
    intro s
    refine ⟨fun hs => h.needed s ((h.seen s).2 hs), fun hs => (h.seen s).1 ?_⟩
    induction hs with
    | root => exact h.start scope List.mem_cons_self
    | injected hi => exact h.start _ (List.mem_cons_of_mem _ hi)
    | embedded _ hd hembedded ih =>
      obtain ⟨d', hd', heq⟩ := h.exists_document ((h.seen _).1 ih)
      cases hd.symm.trans heq
      exact h.closed _ hd' _ hembedded
  refine ⟨hneeds, hroot, fun d hd => ?_, fun s hs => ?_⟩
  · obtain ⟨s, hs, heq⟩ := h.exists_scope ((hmem d).1 hd)
    exact ⟨s, (hneeds s).1 hs, heq⟩
  · obtain ⟨d, hd, heq⟩ := h.exists_document ((hneeds s).2 hs)
    exact ⟨d, (hmem d).2 hd, heq⟩

end Covers

/-- The walk of a root starts with what the root embeds and what is injected. -/
theorem covers_meet (injectors : List ScopeName) (hroot : loader.document scope = .ok root) :
    let start := Walk.meet ⟨[scope], root.embedded.map fun s => (s, scope), []⟩
      (root.embedded ++ injectors)
    start.2.Covers loader scope injectors root [scope] start.1 := by
  obtain ⟨fresh, hmeet, hnodup, hfresh⟩ := meet_spec (root.embedded ++ injectors)
    ⟨[scope], root.embedded.map fun s => (s, scope), []⟩
  intro start
  have hstart : start = (fresh, _) := hmeet
  rw [hstart]
  have hnew : ∀ s, s ∈ fresh ↔ (s ∈ root.embedded ∨ s ∈ injectors) ∧ s ≠ scope := by
    simpa using hfresh
  have hseen : ∀ s, s ∈ root.embedded ∨ s ∈ injectors → s ∈ fresh.reverse ++ [scope] := by
    intro s hs
    by_cases heq : s = scope
    · exact List.mem_append_right _ (List.mem_singleton.2 heq)
    · exact List.mem_append_left _ (List.mem_reverse.2 ((hnew s).2 ⟨hs, heq⟩))
  refine ⟨by simp, ?_, fun s hs => ?_, ?_, fun d hd s hs => ?_, fun s hs => ?_, fun e he => ?_⟩
  · rw [List.nodup_append]
    refine ⟨hnodup, List.nodup_singleton scope, fun s hs s' hs' heq => ?_⟩
    exact ((hnew s).1 hs).2 (heq.trans (List.mem_singleton.1 hs'))
  · rcases List.mem_append.1 hs with hs | hs
    · rcases ((hnew s).1 (List.mem_reverse.1 hs)).1 with hs | hs
      · exact .embedded .root hroot hs
      · exact .injected hs
    · rw [List.mem_singleton.1 hs]
      exact .root
  · rw [List.map_singleton, hroot]
    rfl
  · rw [List.mem_singleton.1 hd] at hs
    exact hseen s (.inl hs)
  · rcases List.mem_cons.1 hs with rfl | hs
    · exact List.mem_append_right _ List.mem_cons_self
    · exact hseen s (.inr hs)
  · obtain ⟨s, hs, rfl⟩ := List.mem_map.1 he
    exact ⟨scope, root, hroot, hs⟩

/-- A scope that cannot be loaded is needed. -/
theorem lacks_blame {s : ScopeName} {e : GrammarError}
    (h : w.Covers loader scope injectors root loaded (s :: wave))
    (he : loader.document s = .error e) : loader.Lacks scope injectors (w.blame s e) := by
  have hneeds := h.needed s ((h.seen s).2 List.mem_cons_self)
  unfold blame
  split
  · rename_i m includer hincluder
    obtain ⟨other, d, hd, hembedded⟩ :=
      h.includers _ (mem_of_lookup_eq_some hincluder)
    -- what is not found is the scope itself
    have hm : m = s := by
      rcases Loader.document_error he with ⟨_, heq⟩ | ⟨_, hne, _⟩
      · cases heq
        rfl
      · exact absurd rfl (hne m)
    exact .unknown hneeds (hm ▸ he) hd hembedded
  · exact .failing hneeds he

/-- A wave that is loaded leads to the next one. -/
theorem addAll_spec : ∀ (results : List (ScopeName × LoadResult CompiledGrammar))
    {w : Walk} {loaded wave : List ScopeName} (later : List ScopeName),
    results.map (fun r => (r.1, r.2.map Loaded.value)) =
        wave.map (fun s => (s, loader.document s)) →
      w.Covers loader scope injectors root loaded (wave ++ later) →
      (∀ next w', w.addAll results = .ok (next, w') →
        w'.Covers loader scope injectors root (wave.reverse ++ loaded) (later ++ next)) ∧
      ∀ e, w.addAll results = .error e → loader.Lacks scope injectors e
  | [], w, loaded, wave, later, hresults, h => by
    have hwave : wave = [] := List.map_eq_nil_iff.1 hresults.symm
    subst hwave
    constructor
    · intro next w' heq
      cases heq
      rwa [List.append_nil]
    · intro e heq
      cases heq
  | (s, r) :: results, w, loaded, wave, later, hresults, h => by
    obtain ⟨s', wave, rfl, hs, hrest⟩ := List.map_eq_cons_iff.1 hresults.symm
    have hr : loader.document s' = r.map Loaded.value := congrArg Prod.snd hs
    have hs' : s' = s := congrArg Prod.fst hs
    subst hs'
    have h : w.Covers loader scope injectors root loaded (s' :: (wave ++ later)) := h
    cases r with
    | error e =>
      have hlacks := lacks_blame h hr
      constructor
      · intro next w' heq
        cases heq
      · intro e' heq
        cases heq
        exact hlacks
    | ok g =>
      -- what the grammar adds is loaded after what was to be loaded later
      have hadd := h.add (d := g.value) hr
      rw [List.append_assoc] at hadd
      obtain ⟨hok, herror⟩ := addAll_spec results (later ++ (w.add g.value).1) hrest.symm hadd
      have haddAll : w.addAll ((s', .ok g) :: results) =
          (w.add g.value).2.addAll results >>= fun r => .ok ((w.add g.value).1 ++ r.1, r.2) := rfl
      rw [haddAll]
      constructor
      · intro next w' heq
        obtain ⟨⟨next, w''⟩, hrest, heq⟩ := Except.bind_eq_ok.1 heq
        cases heq
        have hcovers := hok next _ hrest
        rw [List.append_assoc] at hcovers
        rw [List.reverse_cons, List.append_assoc]
        exact hcovers
      · intro e heq
        rcases Except.bind_eq_error.1 heq with heq | ⟨_, _, heq⟩
        · exact herror e heq
        · cases heq

end Walk

open Walk

variable {loader : Loader} {scope : ScopeName} {injectors : List ScopeName} {root : CompiledGrammar}

/-- A walk changes nothing of what a library keeps but to add to it. -/
theorem walkFrom_keeps : ∀ (waves : Nat) (w : Walk) (wave : List ScopeName) {l : Library},
    l.Keeps loader → (walkFrom loader waves l w wave).2.Keeps loader ∧
      (walkFrom loader waves l w wave).2.linked = l.linked
  | 0, _, _, _, h => ⟨h, rfl⟩
  | _ + 1, _, [], _, h => ⟨h, rfl⟩
  | waves + 1, w, s :: wave, l, h => by
    obtain ⟨_, hkeeps, hlinked, _⟩ := loadAll_spec (s :: wave) h
    rw [walkFrom]
    dsimp only
    split
    · exact ⟨hkeeps, hlinked⟩
    · rename_i next w' _
      obtain ⟨hkeeps', hlinked'⟩ := walkFrom_keeps waves w' next hkeeps
      exact ⟨hkeeps', hlinked'.trans hlinked⟩
    · simp

/-- A walk with waves enough ends with nothing left to load, or something lacks. It asks for each
scope once. -/
theorem walkFrom_spec : ∀ (waves : Nat) {l : Library} {w : Walk} {loaded wave : List ScopeName},
    l.Keeps loader → w.Covers loader scope injectors root loaded wave →
      loader.sources.length < waves + loaded.length →
      (∀ e, (walkFrom loader waves l w wave).1 = .error e → loader.Lacks scope injectors e) ∧
      ∀ w', (walkFrom loader waves l w wave).1 = .ok w' → ∃ new,
        w'.Covers loader scope injectors root (new ++ loaded) [] ∧
          ((∀ s ∈ l.compiled.map (·.1), s ∈ loaded) →
            Asked l (walkFrom loader waves l w wave).2 new)
  | 0, l, w, loaded, wave, _, h, hwaves => by
    -- no more scopes have been loaded than the loader knows
    have hlength := h.length_le
    omega
  | waves + 1, l, w, loaded, [], _, h, _ => by
    constructor
    · intro e heq
      cases heq
    · intro w' heq
      cases heq
      exact ⟨[], h, fun _ => .refl l⟩
  | waves + 1, l, w, loaded, s :: wave, hl, h, hwaves => by
    obtain ⟨hresults, hkeeps, _, hasked⟩ := loadAll_spec (s :: wave) hl
    have hcovers : w.Covers loader scope injectors root loaded (s :: wave ++ []) := by
      rwa [List.append_nil]
    obtain ⟨hok, herror⟩ := addAll_spec _ [] hresults hcovers
    rw [walkFrom]
    dsimp only
    · split
      · rename_i e heq
        constructor
        · intro e' he'
          cases he'
          exact herror e heq
        · intro w' hw'
          cases hw'
      · rename_i next w₁ heq
        -- the wave has a scope, so there are more scopes loaded by one at least
        have hlength : loader.sources.length < waves + ((s :: wave).reverse ++ loaded).length := by
          rw [List.length_append, List.length_reverse, List.length_cons]
          omega
        obtain ⟨herror', hok'⟩ := walkFrom_spec waves hkeeps (hok next w₁ heq) hlength
        refine ⟨herror', fun w' hw' => ?_⟩
        obtain ⟨new, hnew, hasked'⟩ := hok' w' hw'
        refine ⟨new ++ (s :: wave).reverse, by rwa [List.append_assoc], fun hold => ?_⟩
        obtain ⟨hnodup, _, hdisjoint⟩ := List.nodup_append.1 h.nodup
        -- the library keeps nothing of the wave, for all that it keeps was loaded before
        have hfirst := hasked hnodup fun s' hs' hkept => hdisjoint s' hs' s' (hold s' hkept) rfl
        refine hfirst.trans (hasked' fun s' hs' => ?_)
        rw [hfirst.compiled] at hs'
        rcases List.mem_append.1 hs' with hs' | hs'
        · exact List.mem_append_left _ hs'
        · exact List.mem_append_right _ (hold s' hs')
    · simp

/-! ## Linking -/

variable {l : Library}

/-- Linking changes nothing of what a library keeps but to add to it. -/
theorem link_keeps (h : l.Keeps loader) (scope : ScopeName) :
    (l.link loader scope).2.Keeps loader ∧ (l.link loader scope).2.linked = l.linked := by
  obtain ⟨_, hkeeps, hlinked, _⟩ := load_spec h scope
  unfold link
  revert hkeeps hlinked
  cases l.load loader scope with
  | mk r l₁ =>
    intro hkeeps hlinked
    cases r with
    | error e => exact ⟨hkeeps, hlinked⟩
    | ok root =>
      dsimp only
      generalize Walk.meet _ _ = start
      obtain ⟨hkeeps', hlinked'⟩ := walkFrom_keeps (l₁.waves loader) start.2 start.1 hkeeps
      split
      · rename_i heq
        rw [heq] at hkeeps' hlinked'
        exact ⟨hkeeps', hlinked'.trans hlinked⟩
      · rename_i heq
        rw [heq] at hkeeps' hlinked'
        split
        · exact ⟨hkeeps', hlinked'.trans hlinked⟩
        · exact ⟨hkeeps', hlinked'.trans hlinked⟩

/-- Linking fails because something lacks, or links what is needed, and then has asked for each
scope once. -/
theorem link_cases (h : l.Keeps loader) (scope : ScopeName) :
    (∃ e, (l.link loader scope).1 = .error e ∧
      loader.Lacks scope ((l.load loader scope).2.injectorsOf loader scope) e) ∨
    ∃ root documents asked,
      loader.Gathers scope ((l.load loader scope).2.injectorsOf loader scope) root documents ∧
      (l.link loader scope).1.map Loaded.value =
        Grammar.link root documents ((l.load loader scope).2.injectorsOf loader scope) ∧
      asked.Nodup ∧
      (∀ s, s ∈ asked ↔
        loader.Needs scope ((l.load loader scope).2.injectorsOf loader scope) s) ∧
      (l.compiled = [] → (l.link loader scope).2.requests = asked ++ l.requests) := by
  obtain ⟨hvalue, hkeeps, _, hasked⟩ := load_spec h scope
  unfold link
  revert hvalue hkeeps hasked
  cases l.load loader scope with
  | mk r l₁ =>
    intro hvalue hkeeps hasked
    cases r with
    | error e => exact .inl ⟨e, rfl, .failing .root hvalue.symm⟩
    | ok root =>
      have hroot : loader.document scope = .ok root.value := hvalue.symm
      have hcovers := Walk.covers_meet (l₁.injectorsOf loader scope) hroot
      have hwaves : loader.sources.length < l₁.waves loader + [scope].length := by
        rw [waves, List.length_singleton]
        omega
      obtain ⟨herror, hok⟩ := walkFrom_spec (l₁.waves loader) hkeeps hcovers hwaves
      dsimp only
      split
      · rename_i e l₂ heq
        rw [heq] at herror
        exact .inl ⟨e, rfl, herror e rfl⟩
      · rename_i w l₂ heq
        rw [heq] at hok
        obtain ⟨new, hnew, hasked'⟩ := hok w rfl
        obtain ⟨hneeds, hgathers⟩ := hnew.gathers hroot
        -- all that the library keeps when the walk starts is the root
        have hrequests : l.compiled = [] → l₂.requests = (new ++ [scope]) ++ l.requests := by
          intro hempty
          have hfirst := hasked (by simp [hempty])
          have hold : ∀ s ∈ l₁.compiled.map (·.1), s ∈ [scope] := by
            rw [hfirst.compiled, hempty]
            exact fun s hs => hs
          exact (hfirst.trans (hasked' hold)).requests
        refine .inr ⟨root.value, w.found.reverse, new ++ [scope], hgathers, ?_, ?_, hneeds, ?_⟩
        · split
          · rename_i e hlink
            rw [hlink]
            rfl
          · rename_i g hlink
            rw [hlink]
            rfl
        · exact hnew.nodup
        · intro hempty
          split
          · exact hrequests hempty
          · exact hrequests hempty

end Library

end Highlight
