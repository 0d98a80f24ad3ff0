import Highlight.Library.Tokenizer
import Highlight.Proofs.KeptAnswers
import Highlight.Proofs.LoadErrors

/-!
# Loading again after a failure

A request for a tokenizer that fails is answered with the failure until its scope is forgotten. What
a workshop keeps of it stands in as many as three places: as the tokenizer, as the linked grammar,
and as the grammar that could not be loaded, under a scope of its own. Forgetting a scope removes
what is kept under that scope. So the next request asks the loader for every scope that it needs and
that nothing is kept of, the one that has been forgotten among them, and succeeds if and only if
what is kept and what the loader answers come to grammars that can be linked
(`tokenizer_after_forget`). A grammar that is needed and failed before is not asked for again,
unless its own scope has been forgotten too (`forget_keeps_failure`).
-/

namespace Highlight

namespace Library

variable {l : Library} {loader : Loader} {scope : ScopeName}

theorem Keeps.answered (h : l.Keeps loader) : l.Answered :=
  fun s r hr => ⟨loader.sources.lookup s, h s r hr⟩

theorem Answered.load (h : l.Answered) (loader : Loader) (scope : ScopeName) :
    (l.load loader scope).2.Answered := by
  obtain ⟨loader', hkeeps, halike, _⟩ := h.exists_loader loader
  rw [(load_alike halike scope).1]
  exact (load_spec hkeeps scope).2.1.answered

theorem Answered.loadGrammar (h : l.Answered) (loader : Loader) (scope : ScopeName) :
    (l.loadGrammar loader scope).2.Answered := by
  obtain ⟨loader', hkeeps, halike, hlength⟩ := h.exists_loader loader
  unfold Library.loadGrammar
  split
  · exact h
  · rw [link_eq hkeeps halike hlength]
    exact (link_keeps hkeeps scope).1.answered

theorem Answered.forget (h : l.Answered) (scope : ScopeName) : (l.forget scope).Answered :=
  fun s r hr => h s r (lookup_filter_ne hr)

/-- Each grammar declares the scope that it is loaded under. -/
def Honest (l : Library) (loader : Loader) : Prop :=
  ∀ s d, l.document loader s = .ok d → d.scopeName = s

/-- Linking succeeds if and only if what is kept and what the loader answers can be linked. It asks
for scopes that are needed and not kept, each once, and where it succeeds for all of them. -/
theorem link_answered (h : l.Answered) (loader : Loader) (scope : ScopeName) :
    let needs := l.Needs loader scope ((l.load loader scope).2.injectorsOf loader scope)
    (l.Honest loader → ((∃ g, (l.link loader scope).1 = .ok g) ↔
      (∀ s, needs s → ∃ d, l.document loader s = .ok d) ∧
      ∀ s d, needs s → l.document loader s = .ok d →
        ∀ other name, (other, some name) ∈ d.externalIncludes →
          ∃ d', l.document loader other = .ok d' ∧ (d'.entry? name).isSome)) ∧
    ∃ asked, (l.link loader scope).2.requests = asked ++ l.requests ∧ asked.Nodup ∧
      (scope ∉ l.kept → scope ∈ asked) ∧ (∀ s ∈ asked, needs s ∧ s ∉ l.kept) ∧
      ∀ g, (l.link loader scope).1 = .ok g → ∀ s, needs s → s ∉ l.kept → s ∈ asked := by
  intro needs
  obtain ⟨loader', hkeeps, halike, hlength⟩ := h.exists_loader loader
  have hdocument := document_eq hkeeps halike
  have hinjectors : (l.load loader scope).2.injectorsOf loader scope =
      (l.load loader' scope).2.injectorsOf loader' scope := by
    rw [(load_alike halike scope).1, injectorsOf, injectorsOf, halike.injectors]
  have hneeds : ∀ s, needs s ↔
      loader'.Needs scope ((l.load loader' scope).2.injectorsOf loader' scope) s := by
    intro s
    rw [← hinjectors]
    exact needs_iff hkeeps halike s
  rw [link_eq hkeeps halike hlength]
  constructor
  · intro honest
    have honest' : loader'.Honest := fun s d hd => honest s d (by rw [hdocument, hd])
    simp only [hdocument, hneeds]
    exact exists_link_ok_iff hkeeps honest' scope
  · obtain ⟨loaded, hasked, hnodup, hscope, hsound, hcomplete⟩ := link_asks hkeeps scope
    have hmem : ∀ s, s ∈ loaded.filter (fun s => !l.kept.contains s) ↔ s ∈ loaded ∧ s ∉ l.kept := by
      simp
    refine ⟨loaded.filter fun s => !l.kept.contains s, hasked.requests, hnodup.filter _,
      fun hnot => (hmem scope).2 ⟨hscope, hnot⟩, fun s hs => ?_, fun g hg s hs hnot => ?_⟩
    · obtain ⟨hs, hnot⟩ := (hmem s).1 hs
      exact ⟨(hneeds s).2 (hsound s hs), hnot⟩
    · exact (hmem s).2 ⟨hcomplete g hg s ((hneeds s).1 hs), hnot⟩

end Library

namespace Workshop

/-- What comes of doing things with a workshop that has nothing in it, whatever loaders say
meanwhile. -/
inductive Reached : Workshop → Prop
  | empty (theme : Theme) : Reached (.empty theme)
  | setTheme {w : Workshop} (h : Reached w) (theme : Theme) :
      Reached { w with library := w.library.setTheme theme }
  | register {w : Workshop} (h : Reached w) (injector : ScopeName) (targets : List ScopeName) :
      Reached { w with library := w.library.register injector targets }
  | load {w : Workshop} (h : Reached w) (loader : Loader) (scope : ScopeName) :
      Reached { w with library := (w.library.load loader scope).2 }
  | loadGrammar {w : Workshop} (h : Reached w) (loader : Loader) (scope : ScopeName) :
      Reached { w with library := (w.library.loadGrammar loader scope).2 }
  | forgetGrammar {w : Workshop} (h : Reached w) (scope : ScopeName) :
      Reached { w with library := w.library.forget scope }
  | packLine {w : Workshop} (h : Reached w) (t : Tokenizer) (line : String) (stack : RuleStack) :
      Reached { w with library := (w.library.packLine t line stack).2 }
  | tokenizer {w : Workshop} (h : Reached w) (loader : Loader) (scope : ScopeName)
      (language : LanguageId) (embedded : List (ScopeName × LanguageId)) :
      Reached (w.tokenizer loader scope language embedded).2
  | forget {w : Workshop} (h : Reached w) (scope : ScopeName) : Reached (w.forget scope)

variable {w : Workshop} {scope : ScopeName}

theorem make_library (w : Workshop) (loader : Loader) (scope : ScopeName) (language : LanguageId)
    (embedded : List (ScopeName × LanguageId)) :
    (w.make loader scope language embedded).2.library.compiled =
        (w.library.loadGrammar loader scope).2.compiled ∧
      (w.make loader scope language embedded).2.library.requests =
        (w.library.loadGrammar loader scope).2.requests ∧
      ((∃ t, (w.make loader scope language embedded).1 = .ok t) ↔
        ∃ g, (w.library.loadGrammar loader scope).1 = .ok g) := by
  unfold make
  split
  · rename_i e l heq
    rw [heq]
    exact ⟨rfl, rfl, by simp⟩
  · rename_i g l heq
    rw [heq]
    exact ⟨rfl, rfl, iff_of_true ⟨_, rfl⟩ ⟨g, rfl⟩⟩

theorem Reached.answered (h : w.Reached) : w.library.Answered := by
  induction h with
  | empty theme => exact nofun
  | setTheme _ _ ih => exact ih
  | register _ _ _ ih => exact ih
  | load _ loader scope ih => exact ih.load loader scope
  | loadGrammar _ loader scope ih => exact ih.loadGrammar loader scope
  | forgetGrammar _ scope ih => exact ih.forget scope
  | packLine _ _ _ _ ih => exact ih
  | @tokenizer w _ loader scope language embedded ih =>
    unfold Workshop.tokenizer
    split
    · exact ih
    · intro s r hr
      dsimp only at hr
      rw [(make_library w loader scope language embedded).1] at hr
      exact ih.loadGrammar loader scope s r hr
  | forget _ scope ih => exact ih.forget scope

/-- Nothing is kept under the scope. -/
structure Forgotten (w : Workshop) (scope : ScopeName) : Prop where
  compiled : w.library.compiled.lookup scope = none
  linked : w.library.linked.lookup scope = none
  tokenizers : w.tokenizers.lookup scope = none

theorem Forgotten.not_mem_kept (h : w.Forgotten scope) : scope ∉ w.library.kept := by
  rw [Library.kept, ← isSome_lookup_iff_mem, h.compiled]
  exact Bool.false_ne_true

theorem forget_forgotten (w : Workshop) (scope : ScopeName) : (w.forget scope).Forgotten scope := by
  have hself : ¬(scope != scope) = true := by simp
  refine ⟨?_, ?_, ?_⟩
  · exact (lookup_filter_key (· != scope) scope _).trans (if_neg hself)
  · exact (lookup_filter_key (· != scope) scope _).trans (if_neg hself)
  · exact (lookup_filter_key (· != scope) scope _).trans (if_neg hself)

theorem Forgotten.forget (h : w.Forgotten scope) (s : ScopeName) :
    (w.forget s).Forgotten scope := by
  refine ⟨?_, ?_, ?_⟩
  · exact (lookup_filter_key (· != s) scope _).trans (by rw [h.compiled, ite_self])
  · exact (lookup_filter_key (· != s) scope _).trans (by rw [h.linked, ite_self])
  · exact (lookup_filter_key (· != s) scope _).trans (by rw [h.tokenizers, ite_self])

/-- The workshop after several scopes have been forgotten. -/
def forgetAll (w : Workshop) (scopes : List ScopeName) : Workshop := scopes.foldl forget w

theorem forgetAll_reached : ∀ (scopes : List ScopeName) {w : Workshop}, w.Reached →
    (w.forgetAll scopes).Reached
  | [], _, h => h
  | scope :: scopes, _, h => forgetAll_reached scopes (h.forget scope)

theorem forgetAll_forgotten : ∀ {scopes : List ScopeName} {w : Workshop},
    scope ∈ scopes ∨ w.Forgotten scope → (w.forgetAll scopes).Forgotten scope
  | [], _, h => h.resolve_left List.not_mem_nil
  | s :: scopes, w, h => by
    show ((w.forget s).forgetAll scopes).Forgotten scope
    refine forgetAll_forgotten ?_
    rcases h with h | h
    · rcases List.mem_cons.1 h with rfl | h
      · exact .inr (forget_forgotten w scope)
      · exact .inl h
    · exact .inr (h.forget s)

/-- Where neither a tokenizer nor a linked grammar is kept, a request comes to linking. -/
theorem Forgotten.tokenizer (h : w.Forgotten scope) (loader : Loader) (language : LanguageId)
    (embedded : List (ScopeName × LanguageId)) :
    (w.tokenizer loader scope language embedded).2.library.requests =
        (w.library.link loader scope).2.requests ∧
      ((∃ t, (w.tokenizer loader scope language embedded).1 = .ok t) ↔
        ∃ g, (w.library.link loader scope).1 = .ok g) := by
  have hload : (w.library.loadGrammar loader scope).1 = (w.library.link loader scope).1 ∧
      (w.library.loadGrammar loader scope).2.requests =
        (w.library.link loader scope).2.requests := by
    unfold Library.loadGrammar
    rw [h.linked]
    exact ⟨rfl, rfl⟩
  obtain ⟨_, hrequests, hok⟩ := make_library w loader scope language embedded
  unfold Workshop.tokenizer
  rw [h.tokenizers]
  rw [hload.1] at hok
  exact ⟨hrequests.trans hload.2, hok⟩

/-- After scopes have been forgotten, whatever was done before, the next request for the tokenizer
of one of them asks the loader for that scope, and for others that are needed and not kept, each
once. It succeeds if and only if what is kept and what the loader answers can be linked, and then it
has asked for all of these, those that have been forgotten among them. -/
theorem tokenizer_after_forget {w₀ : Workshop} (h : w₀.Reached) {forgotten : List ScopeName}
    (hscope : scope ∈ forgotten) (loader : Loader) (language : LanguageId)
    (embedded : List (ScopeName × LanguageId)) :
    let w := w₀.forgetAll forgotten
    let l := w.library
    let needs := l.Needs loader scope ((l.load loader scope).2.injectorsOf loader scope)
    let result := w.tokenizer loader scope language embedded
    (l.Honest loader → ((∃ t, result.1 = .ok t) ↔
      (∀ s, needs s → ∃ d, l.document loader s = .ok d) ∧
      ∀ s d, needs s → l.document loader s = .ok d →
        ∀ other name, (other, some name) ∈ d.externalIncludes →
          ∃ d', l.document loader other = .ok d' ∧ (d'.entry? name).isSome)) ∧
    (∀ s ∈ forgotten, s ∉ l.kept ∧ l.document loader s = loader.document s) ∧
    ∃ asked, result.2.library.requests = asked ++ l.requests ∧ asked.Nodup ∧ scope ∈ asked ∧
      (∀ s ∈ asked, needs s ∧ s ∉ l.kept) ∧
      ∀ t, result.1 = .ok t → ∀ s, needs s → s ∉ l.kept → s ∈ asked := by
  intro w l needs result
  have hforgotten : ∀ s ∈ forgotten, w.Forgotten s := fun s hs => forgetAll_forgotten (.inl hs)
  obtain ⟨hok, asked, hrequests, hnodup, hself, hsound, hcomplete⟩ :=
    Library.link_answered (forgetAll_reached forgotten h).answered loader scope
  obtain ⟨hresult, hiff⟩ := (hforgotten scope hscope).tokenizer loader language embedded
  refine ⟨fun honest => hiff.trans (hok honest), fun s hs => ⟨(hforgotten s hs).not_mem_kept, ?_⟩,
    asked, hresult.trans hrequests, hnodup, hself (hforgotten scope hscope).not_mem_kept, hsound,
    fun t ht s hs hnot => ?_⟩
  · rw [Library.document, (hforgotten s hs).compiled]
  · obtain ⟨g, hg⟩ := hiff.1 ⟨t, ht⟩
    exact hcomplete g hg s hs hnot

/-! ## A dependency that fails once -/

/-- Words include letters, which cannot be loaded. -/
def lettersDown : Loader where
  sources := [
    ("words", .source ⟨"scopeName: words\npatterns:\n- include: letters\n", .yaml⟩),
    ("letters", .failure "down")]
  injectors := []

/-- The same, when letters can be loaded again. -/
def lettersUp : Loader where
  sources := [
    ("words", .source ⟨"scopeName: words\npatterns:\n- include: letters\n", .yaml⟩),
    ("letters", .source ⟨"scopeName: letters\n", .yaml⟩)]
  injectors := []

/-- The workshop after the request for words that failed. -/
def failed : Workshop := ((empty default).tokenizer lettersDown "words" 1 []).2

theorem failed_reached : failed.Reached := .tokenizer (.empty default) lettersDown "words" 1 []

theorem failed_outcomes :
    ((empty default).tokenizer lettersDown "words" 1 []).1.map (fun _ => ()) =
        .error (.unloadable "letters" "down") ∧
      ((failed.forget "words").tokenizer lettersUp "words" 1 []).1.map (fun _ => ()) =
        .error (.unloadable "letters" "down") ∧
      ((failed.forget "words").tokenizer lettersUp "words" 1 []).2.library.requests =
        "words" :: (failed.forget "words").library.requests ∧
      ((empty default).tokenizer lettersUp "words" 1 []).1.toOption.isSome := by
  decide +kernel

/-- Forgetting words does not make the request for words succeed when letters can be loaded again:
the loader is asked for words only, and the old failure of letters is the answer. -/
theorem forget_keeps_failure :
    ((empty default).tokenizer lettersDown "words" 1 []).1 =
        .error (.unloadable "letters" "down") ∧
      ((failed.forget "words").tokenizer lettersUp "words" 1 []).1 =
        .error (.unloadable "letters" "down") ∧
      ((failed.forget "words").tokenizer lettersUp "words" 1 []).2.library.requests =
        "words" :: (failed.forget "words").library.requests ∧
      ∃ t, ((empty default).tokenizer lettersUp "words" 1 []).1 = .ok t := by
  obtain ⟨hfirst, hagain, hrequests, hnew⟩ := failed_outcomes
  obtain ⟨t, ht⟩ := Option.isSome_iff_exists.1 hnew
  exact ⟨Except.eq_error_of_map hfirst, Except.eq_error_of_map hagain, hrequests, t,
    Except.eq_ok_of_toOption ht⟩

theorem cleaned_outcome :
    ((failed.forgetAll ["words", "letters"]).tokenizer lettersUp "words" 1 []).1.toOption.isSome ∧
      ((failed.forgetAll ["words", "letters"]).library.document lettersUp "words").toOption.map
        (·.embedded) = some ["letters"] := by
  decide +kernel

/-- With letters forgotten too, the request asks for both and succeeds. -/
theorem tokenizer_after_forget_letters : failed.Reached ∧ "words" ∈ ["words", "letters"] ∧
    ∃ w, w = failed.forgetAll ["words", "letters"] ∧
    ∃ t asked, (w.tokenizer lettersUp "words" 1 []).1 = .ok t ∧
      (w.tokenizer lettersUp "words" 1 []).2.library.requests = asked ++ w.library.requests ∧
      asked.Nodup ∧ "words" ∈ asked ∧ "letters" ∈ asked := by
  have hscope : "words" ∈ ["words", "letters"] := List.mem_cons_self
  have hretry := tokenizer_after_forget failed_reached hscope lettersUp 1 []
  obtain ⟨hok, hembedded⟩ := cleaned_outcome
  refine ⟨failed_reached, hscope, _, rfl, ?_⟩
  generalize failed.forgetAll ["words", "letters"] = w at hretry hok hembedded
  obtain ⟨-, hforgotten, asked, hrequests, hnodup, hself, -, hall⟩ := hretry
  obtain ⟨t, ht⟩ := Option.isSome_iff_exists.1 hok
  obtain ⟨d, hd, hletters⟩ := Option.map_eq_some_iff.1 hembedded
  have ht := Except.eq_ok_of_toOption ht
  have hmem : "letters" ∈ d.embedded := by
    rw [hletters]
    exact List.mem_singleton_self _
  refine ⟨t, asked, ht, hrequests, hnodup, hself, ?_⟩
  exact hall t ht "letters" (.embedded .root (Except.eq_ok_of_toOption hd) hmem)
    (hforgotten "letters" (by simp)).1

end Workshop

end Highlight
