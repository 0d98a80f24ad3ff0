import Highlight.Proofs.DependencyWalks

/-!
# Linking what is needed

Where the text of each grammar declares the scope that it is loaded under (`Loader.Honest`), a
document counts for the scope that it was loaded under (`Gathers.lastOf_eq_some_iff`). Then loading
a linked grammar succeeds if and only if all scopes that it needs can be loaded and the entries that
their grammars name in others exist; it links the grammars of these scopes and no others, and the
loader is asked for each once (`loadGrammar_closure`). That a grammar a rule refers to is missing is
no reason to fail apart from these: what is loaded are the scopes that grammars embed, what is
checked are the references of their rules, and these are the same scopes.
-/

namespace Highlight

namespace Loader

/-- Each grammar declares the scope that it is loaded under. -/
def Honest (loader : Loader) : Prop :=
  ∀ scope d, loader.document scope = .ok d → d.scopeName = scope

variable {loader : Loader} {scope : ScopeName} {injectors : List ScopeName}
  {root : CompiledGrammar} {documents : List CompiledGrammar}

/-- The grammars that a loader knows are enough to look at. -/
theorem honest_of_all (h : (loader.sources.all fun e =>
    (loader.document e.1).toOption.all fun d => d.scopeName == e.1) = true) : loader.Honest := by
  intro scope d hd
  obtain ⟨e, he, heq⟩ := List.mem_map.1 (mem_sources_of_document hd)
  have hall := List.all_eq_true.1 h e he
  rw [heq, hd] at hall
  exact beq_iff_eq.1 hall

namespace Gathers

variable (h : loader.Gathers scope injectors root documents)

include h

/-- The document that counts for a scope is the grammar loaded under it. -/
theorem lastOf_eq_some_iff (honest : loader.Honest) {s : ScopeName} {d : CompiledGrammar} :
    lastOf (documents ++ [root]) s = some d ↔
      loader.Needs scope injectors s ∧ loader.document s = .ok d := by
  have hsound : ∀ d', lastOf (documents ++ [root]) s = some d' →
      loader.Needs scope injectors s ∧ loader.document s = .ok d' := by
    intro d' hlast
    obtain ⟨s', hs', hd'⟩ := h.sound d' (mem_of_lastOf hlast)
    have heq : s' = s := (honest s' d' hd').symm.trans (scopeName_of_lastOf hlast)
    exact heq ▸ ⟨hs', hd'⟩
  refine ⟨hsound d, fun ⟨hs, hd⟩ => ?_⟩
  obtain ⟨d', hmem, hd'⟩ := h.complete s hs
  cases hlast : lastOf (documents ++ [root]) s with
  | none => exact absurd (honest s d' hd') (lastOf_eq_none_iff.1 hlast d' hmem)
  | some d'' =>
    cases hd.symm.trans (hsound d'' hlast).2
    rfl

/-- What is needed can be linked if and only if the entries that are named exist. -/
theorem exists_link_iff (honest : loader.Honest) :
    (∃ g, Grammar.link root documents injectors = .ok g) ↔
      ∀ s d, loader.Needs scope injectors s → loader.document s = .ok d →
        ∀ other name, (other, some name) ∈ d.externalIncludes →
          ∃ d', loader.document other = .ok d' ∧ (d'.entry? name).isSome := by
  simp only [Grammar.link_eq_ok_iff, h.lastOf_eq_some_iff honest]
  constructor
  · rintro ⟨g, hincludes, -, -⟩ s d hs hd other name hi
    obtain ⟨d', ⟨_, hd'⟩, hentry⟩ := hincludes s d ⟨hs, hd⟩ _ hi
    exact ⟨d', hd', hentry name rfl⟩
  · intro hentries
    refine ⟨_, fun s d ⟨hs, hd⟩ i hi => ?_, fun s hs => ?_, rfl⟩
    · -- the grammar that is referred to is embedded, so it is needed too
      have hother : loader.Needs scope injectors i.1 :=
        .embedded hs hd (spells_of_mem_externalIncludes hd hi).2.2
      obtain ⟨d', _, hd'⟩ := h.complete i.1 hother
      refine ⟨d', ⟨hother, hd'⟩, fun name hname => ?_⟩
      have hi' : (i.1, some name) ∈ d.externalIncludes := by
        rw [← Option.mem_def.1 hname]
        exact hi
      obtain ⟨d'', hd'', hentry⟩ := hentries s d hs hd i.1 name hi'
      cases hd'.symm.trans hd''
      exact hentry
    · obtain ⟨d, _, hd⟩ := h.complete s (.injected hs)
      rw [(h.lastOf_eq_some_iff honest).2 ⟨.injected hs, hd⟩]
      rfl

end Gathers

end Loader

namespace Library

variable {l : Library} {loader : Loader}

theorem exists_value_iff {α : Type} {r : LoadResult α} :
    (∃ a, r = .ok a) ↔ ∃ a, r.map Loaded.value = .ok a := by
  cases r with
  | error e => simp [Except.map]
  | ok a => simp [Except.map]

/-- Linking succeeds if and only if the grammars that are needed can be loaded and the entries that
they name in each other exist. -/
theorem exists_link_ok_iff (hkeeps : l.Keeps loader) (honest : loader.Honest) (scope : ScopeName) :
    let needs := loader.Needs scope ((l.load loader scope).2.injectorsOf loader scope)
    (∃ g, (l.link loader scope).1 = .ok g) ↔
      (∀ s, needs s → ∃ d, loader.document s = .ok d) ∧
      ∀ s d, needs s → loader.document s = .ok d →
        ∀ other name, (other, some name) ∈ d.externalIncludes →
          ∃ d', loader.document other = .ok d' ∧ (d'.entry? name).isSome := by
  intro needs
  rcases link_cases hkeeps scope with
    ⟨e, he, hlacks⟩ | ⟨root, documents, asked, hgathers, hlink, -, -, -⟩
  · -- neither side holds where something lacks
    obtain ⟨s, e', hs, he'⟩ := hlacks.exists_error
    refine iff_of_false (fun ⟨g, hg⟩ => ?_) fun ⟨hall, _⟩ => ?_
    · cases he.symm.trans hg
    · obtain ⟨d, hd⟩ := hall s hs
      cases he'.symm.trans hd
  · rw [exists_value_iff, hlink, hgathers.exists_link_iff honest]
    refine (and_iff_right fun s hs => ?_).symm
    obtain ⟨d, _, hd⟩ := hgathers.complete s hs
    exact ⟨d, hd⟩

/-- A library that has loaded nothing links the grammars that are needed, if they can be loaded and
the entries that they name in each other exist, and asks for each once. -/
theorem loadGrammar_closure (hcompiled : l.compiled = []) (hlinked : l.linked = [])
    (honest : loader.Honest) (scope : ScopeName) :
    let needs := loader.Needs scope ((l.load loader scope).2.injectorsOf loader scope)
    ((∃ g, (l.loadGrammar loader scope).1 = .ok g) ↔
      (∀ s, needs s → ∃ d, loader.document s = .ok d) ∧
      ∀ s d, needs s → loader.document s = .ok d →
        ∀ other name, (other, some name) ∈ d.externalIncludes →
          ∃ d', loader.document other = .ok d' ∧ (d'.entry? name).isSome) ∧
    (∀ g, (l.loadGrammar loader scope).1 = .ok g →
      (∀ s d, g.value.document? s = some d ↔ needs s ∧ loader.document s = .ok d) ∧
      g.value.scopes.Nodup ∧
      ∃ asked, (l.loadGrammar loader scope).2.requests = asked ++ l.requests ∧ asked.Nodup ∧
        ∀ s, s ∈ asked ↔ needs s) ∧
    ∀ s d, needs s → loader.document s = .ok d →
      ∀ other, other ∈ d.embedded ↔ ∃ entry, (other, entry) ∈ d.externalIncludes := by
  intro needs
  have hload : (l.loadGrammar loader scope).1 = (l.link loader scope).1 ∧
      (l.loadGrammar loader scope).2.requests = (l.link loader scope).2.requests := by
    unfold loadGrammar
    rw [hlinked]
    exact ⟨rfl, rfl⟩
  have hkeeps : l.Keeps loader := by
    intro s r hr
    rw [hcompiled] at hr
    cases hr
  rw [hload.1, hload.2]
  refine ⟨exists_link_ok_iff hkeeps honest scope, ?_, fun s d _ hd => Loader.mem_embedded_iff hd⟩
  intro g hg
  rcases link_cases hkeeps scope with
    ⟨e, he, _⟩ | ⟨root, documents, asked, hgathers, hlink, hnodup, hasked, hrequests⟩
  · cases he.symm.trans hg
  · rw [hg] at hlink
    have hvalue := Grammar.link_eq_ok_iff.1 hlink.symm
    rw [hvalue.2.2]
    refine ⟨fun s d => ?_, Grammar.nodup_byScope _, asked, hrequests hcompiled, hnodup, hasked⟩
    calc (Grammar.byScope (documents ++ [root])).lookup s = some d
        ↔ lastOf (documents ++ [root]) s = some d := by rw [Grammar.lookup_byScope]
      _ ↔ needs s ∧ loader.document s = .ok d := hgathers.lastOf_eq_some_iff honest

/-! ## Grammars in a circle -/

/-- Two grammars that refer to each other, one that is to be injected, and one that fails. -/
def circle : Loader where
  sources := [
    ("words", .source ⟨"scopeName: words\npatterns:\n- include: letters#vowel\n", .yaml⟩),
    ("letters",
      .source ⟨"scopeName: letters\npatterns:\n- include: letters#vowel\n" ++
        "repository:\n vowel:\n  include: words\n", .yaml⟩),
    ("marks", .source ⟨"scopeName: marks\ninjectionSelector: L:words\n", .yaml⟩),
    ("other", .failure "not wanted")]
  injectors := []

/-- The library into which the marks are to be injected. -/
def circleLibrary : Library := (empty default).register "marks" ["words"]

theorem circle_honest : circle.Honest := Loader.honest_of_all (by decide +kernel)

theorem circle_loads : (circleLibrary.loadGrammar circle "words").1.toOption.map
    (·.value.scopes) = some ["letters", "marks", "words"] := by decide +kernel

/-- The grammars of the circle are linked with the one that is injected, without end of search. -/
theorem loadGrammar_closure_circle :
    (circleLibrary.compiled = [] ∧ circleLibrary.linked = [] ∧ circle.Honest) ∧
    ∃ g, (circleLibrary.loadGrammar circle "words").1 = .ok g ∧
      g.value.scopes = ["letters", "marks", "words"] ∧
      (∀ s d, g.value.document? s = some d ↔
        circle.Needs "words" ((circleLibrary.load circle "words").2.injectorsOf circle "words") s ∧
          circle.document s = .ok d) ∧
      ∃ asked, (circleLibrary.loadGrammar circle "words").2.requests = asked ∧ asked.Nodup ∧
        ∀ s, s ∈ asked ↔ circle.Needs "words"
          ((circleLibrary.load circle "words").2.injectorsOf circle "words") s := by
  have hclosure := loadGrammar_closure (l := circleLibrary) rfl rfl circle_honest "words"
  obtain ⟨g, hg, hscopes⟩ := Option.map_eq_some_iff.1 circle_loads
  have hload := Except.eq_ok_of_toOption hg
  obtain ⟨hdocuments, -, asked, hrequests, hnodup, hasked⟩ := hclosure.2.1 g hload
  refine ⟨⟨rfl, rfl, circle_honest⟩, g, hload, hscopes, hdocuments, asked, ?_, hnodup, hasked⟩
  rw [hrequests]
  exact List.append_nil asked

end Library

end Highlight
