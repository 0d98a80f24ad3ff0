import Highlight.Proofs.DependencyWalks

/-!
# What the errors of loading say

An error that says that a grammar is missing is right about it where texts declare the scopes that
they are loaded under. In general a document counts for the scope that it declares, so there is one
more reason: the text of the grammar declares another scope, or that of another grammar declares
the scope in its place (`Loader.Misdeclares`). `Loader.Justifies` is the law of errors. It holds
where something lacks (`Loader.Lacks.justifies`) and of all that is wrong where what was gathered
cannot be linked (`Loader.Gathers.justifies_of_fault`), thus of any error that loading may end with
(`Loader.MayFail`), whichever of them it meets first. A library keeps no other errors, whatever is
done with it (`Library.Reached.fair`), and gives no others (`loadGrammar_error_justified`). The
additional reason does occur: a grammar is not found although it has been loaded
(`mislabelled_notFound`).
-/

namespace Highlight

namespace Loader

variable (loader : Loader)

/-- The text loaded under a scope declares another one. -/
def Misdeclares (scope other : ScopeName) : Prop :=
  ∃ d, loader.document scope = .ok d ∧ d.scopeName = other ∧ other ≠ scope

/-- Where an error says that a grammar or an entry of one is missing, it is, but for texts that
declare another scope than they are loaded under. -/
structure Justifies (e : GrammarError) : Prop where
  notFound : ∀ m, e = .notFound m →
    loader.sources.lookup m = none ∨ ∃ declared, loader.Misdeclares m declared
  unresolved : ∀ own reference other entry, e = .unresolved own reference →
    NamesOther own reference other entry →
      loader.sources.lookup other = none ∨
      (∃ d name, loader.document other = .ok d ∧ entry = some name ∧ d.entry? name = none) ∨
      (∃ declared, loader.Misdeclares other declared) ∨ ∃ scope, loader.Misdeclares scope other

variable {loader} {scope : ScopeName} {injectors : List ScopeName}

/-- The error of a single grammar is about no other grammar. -/
theorem justifies_of_document {e : GrammarError} (h : loader.document scope = .error e) :
    loader.Justifies e := by
  rcases document_error h with ⟨hnone, rfl⟩ | ⟨_, hne, hnames⟩
  · refine ⟨fun m heq => ?_, nofun⟩
    cases heq
    exact .inl hnone
  · exact ⟨fun m heq => absurd heq (hne m),
      fun own reference other entry heq hother => absurd hother (hnames _ _ _ _ heq)⟩

theorem Lacks.justifies {e : GrammarError} (h : loader.Lacks scope injectors e) :
    loader.Justifies e := by
  cases h with
  | failing _ h => exact justifies_of_document h
  | @unknown s s' _ d _ h hd hembedded =>
    have hnone : loader.sources.lookup s = none := by
      rcases document_error h with ⟨hnone, _⟩ | ⟨_, hne, _⟩
      · exact hnone
      · exact absurd rfl (hne s)
    refine ⟨nofun, fun own reference other entry heq hother => ?_⟩
    cases heq
    -- the reference is the scope itself, which is embedded and so has no hash
    obtain ⟨entry', hi⟩ := (mem_embedded_iff hd s).1 hembedded
    obtain ⟨⟨reference, hspells⟩, _⟩ := spells_of_mem_externalIncludes hd hi
    have hsplit := splitReference_of_not_mem (hash_notMem_of_splitReference hspells.split)
    cases hsplit.symm.trans hother.split
    exact .inl hnone

/-- What was gathered cannot be linked because an entry does not exist, or a document counts for
another scope than it was loaded under. -/
theorem Gathers.justifies_of_fault {root : CompiledGrammar} {documents : List CompiledGrammar}
    (h : loader.Gathers scope injectors root documents) {e : GrammarError}
    (he : Grammar.LinkFault root documents injectors e) : loader.Justifies e := by
  -- a needed scope that no document counts for has been declared otherwise
  have hmissing : ∀ s, loader.Needs scope injectors s → lastOf (documents ++ [root]) s = none →
      ∃ declared, loader.Misdeclares s declared := by
    intro s hs hlast
    obtain ⟨d, hmem, hd⟩ := h.complete s hs
    exact ⟨d.scopeName, d, hd, rfl, lastOf_eq_none_iff.1 hlast d hmem⟩
  cases he with
  | reference hlast hi hleads =>
    refine ⟨nofun, fun own' reference other entry heq hother => ?_⟩
    cases heq
    obtain ⟨s, hs, hd⟩ := h.sound _ (mem_of_lastOf hlast)
    obtain ⟨⟨reference, hspells⟩, _, hembedded⟩ := spells_of_mem_externalIncludes hd hi
    have hsplit := splitReference_spell (hash_notMem_of_splitReference hspells.split)
    cases hsplit.symm.trans hother.split
    refine .inr ?_
    cases hother' : lastOf (documents ++ [root]) other with
    | none => exact .inr (.inl (hmissing other (.embedded hs hd hembedded) hother'))
    | some d' =>
      obtain ⟨name, hname, hentry⟩ := hleads d' hother'
      obtain ⟨s', _, hd'⟩ := h.sound d' (mem_of_lastOf hother')
      have hdeclared := scopeName_of_lastOf hother'
      by_cases heq : other = s'
      · subst heq
        exact .inl ⟨d', name, hd', hname, hentry⟩
      · exact .inr (.inr ⟨s', d', hd', hdeclared, heq⟩)
  | injected hs hlast =>
    refine ⟨fun m heq => ?_, nofun⟩
    cases heq
    exact .inr (hmissing _ (.injected hs) hlast)

variable (loader scope) in
/-- The errors that loading a linked grammar may end with, for whichever grammars are injected into
it: something lacks, or what was gathered has a fault, and any fault may be met first. -/
inductive MayFail : GrammarError → Prop
  | lacks {injectors : List ScopeName} {e : GrammarError} (h : loader.Lacks scope injectors e) :
      MayFail e
  | unlinked {injectors : List ScopeName} {root : CompiledGrammar}
      {documents : List CompiledGrammar} {e : GrammarError}
      (h : loader.Gathers scope injectors root documents)
      (he : Grammar.LinkFault root documents injectors e) : MayFail e

theorem MayFail.justifies {e : GrammarError} (h : loader.MayFail scope e) : loader.Justifies e := by
  cases h with
  | lacks h => exact h.justifies
  | unlinked h he => exact h.justifies_of_fault he

end Loader

namespace Library

/-- What comes of doing things with a library that has loaded nothing. -/
inductive Reached (loader : Loader) : Library → Prop
  | empty (theme : Theme) : Reached loader (.empty theme)
  | setTheme {l : Library} (h : Reached loader l) (theme : Theme) :
      Reached loader (l.setTheme theme)
  | register {l : Library} (h : Reached loader l) (injector : ScopeName)
      (targets : List ScopeName) : Reached loader (l.register injector targets)
  | load {l : Library} (h : Reached loader l) (scope : ScopeName) :
      Reached loader (l.load loader scope).2
  | loadGrammar {l : Library} (h : Reached loader l) (scope : ScopeName) :
      Reached loader (l.loadGrammar loader scope).2
  | forget {l : Library} (h : Reached loader l) (scope : ScopeName) :
      Reached loader (l.forget scope)

/-- What the library keeps is what loading comes to, and may fail with the errors among it. -/
structure Fair (l : Library) (loader : Loader) : Prop where
  compiled : l.Keeps loader
  linked : ∀ scope e, l.linked.lookup scope = some (.error e) → loader.MayFail scope e

variable {l : Library} {loader : Loader}

theorem mayFail_of_link (h : l.Keeps loader) {scope : ScopeName} {e : GrammarError}
    (he : (l.link loader scope).1 = .error e) : loader.MayFail scope e := by
  rcases link_cases h scope with ⟨e', he', hlacks⟩ | ⟨root, documents, _, hgathers, hlink, _⟩
  · cases he'.symm.trans he
    exact .lacks hlacks
  · rw [he] at hlink
    exact .unlinked hgathers (Grammar.link_fault hlink.symm)

namespace Fair

theorem load (h : l.Fair loader) (scope : ScopeName) : (l.load loader scope).2.Fair loader := by
  obtain ⟨_, hkeeps, hlinked, _⟩ := load_spec h.compiled scope
  exact ⟨hkeeps, hlinked ▸ h.linked⟩

theorem loadGrammar (h : l.Fair loader) (scope : ScopeName) :
    (∀ e, (l.loadGrammar loader scope).1 = .error e → loader.MayFail scope e) ∧
      (l.loadGrammar loader scope).2.Fair loader := by
  unfold Library.loadGrammar
  cases hkept : l.linked.lookup scope with
  | some r =>
    refine ⟨fun e he => h.linked scope e ?_, h⟩
    rw [hkept]
    exact congrArg some he
  | none =>
    obtain ⟨hkeeps, hlinked⟩ := link_keeps h.compiled scope
    refine ⟨fun e he => mayFail_of_link h.compiled he, hkeeps, fun s e hs => ?_⟩
    dsimp only at hs
    rw [List.lookup_cons] at hs
    split at hs
    · next hsame =>
      rw [beq_iff_eq.1 hsame]
      exact mayFail_of_link h.compiled (Option.some.inj hs)
    · exact h.linked s e (hlinked ▸ hs)

theorem forget (h : l.Fair loader) (scope : ScopeName) : (l.forget scope).Fair loader :=
  ⟨fun s r hs => h.compiled s r (lookup_filter_ne hs),
    fun s e hs => h.linked s e (lookup_filter_ne hs)⟩

end Fair

/-- Whatever is done with a library, it keeps only errors that loading may end with. -/
theorem Reached.fair (h : l.Reached loader) : l.Fair loader := by
  induction h with
  | empty theme => exact ⟨nofun, nofun⟩
  | setTheme _ _ ih => exact ⟨ih.compiled, ih.linked⟩
  | register _ _ _ ih => exact ⟨ih.compiled, ih.linked⟩
  | load _ scope ih => exact ih.load scope
  | loadGrammar _ scope ih => exact (ih.loadGrammar scope).2
  | forget _ scope ih => exact ih.forget scope

/-- If a linked grammar cannot be loaded because a grammar is not found, the loader does not know
it, or its text declares another scope. If it cannot be loaded because a reference to another
grammar leads nowhere, the loader does not know that grammar, or its repository has no such entry,
or a text declares another scope: that of the other grammar, or one that takes its place. This holds
of the error that is given and of all others that might have been given in its place, had the
documents been looked at in another order. -/
theorem loadGrammar_error_justified (h : l.Reached loader) {scope : ScopeName} {e : GrammarError}
    (he : (l.loadGrammar loader scope).1 = .error e) :
    loader.MayFail scope e ∧ ∀ e', loader.MayFail scope e' → loader.Justifies e' :=
  ⟨(h.fair.loadGrammar scope).1 e he, fun _ => Loader.MayFail.justifies⟩

/-! ## A grammar with a wrong label -/

/-- Marks are to be injected into words, and letters embed them; their text declares another scope.
-/
def mislabelled : Loader where
  sources := [
    ("words", .source ⟨"scopeName: words\n", .yaml⟩),
    ("letters", .source ⟨"scopeName: letters\npatterns:\n- include: marks\n", .yaml⟩),
    ("marks", .source ⟨"scopeName: signs\n", .yaml⟩)]
  injectors := [("words", ["marks"])]

theorem mislabelled_errors :
    (((empty default).loadGrammar mislabelled "words").1.map fun _ => ()) =
        .error (.notFound "marks") ∧
      (((empty default).loadGrammar mislabelled "letters").1.map fun _ => ()) =
        .error (.unresolved "letters" "marks") := by
  decide +kernel

/-- The marks are not found, injected or embedded, although the loader knows them. -/
theorem mislabelled_notFound :
    mislabelled.sources.lookup "marks" ≠ none ∧
      ((empty default).loadGrammar mislabelled "words").1 = .error (.notFound "marks") ∧
      ((empty default).loadGrammar mislabelled "letters").1 =
        .error (.unresolved "letters" "marks") ∧
      NamesOther "letters" "marks" "marks" none :=
  ⟨by simp [mislabelled], Except.eq_error_of_map mislabelled_errors.1,
    Except.eq_error_of_map mislabelled_errors.2,
    ⟨splitReference_of_not_mem (by decide), by decide, by decide⟩⟩

/-- That the marks are not found is justified, for their text declares another scope. -/
theorem loadGrammar_error_justified_mislabelled :
    (empty default).Reached mislabelled ∧
      ((empty default).loadGrammar mislabelled "words").1 = .error (.notFound "marks") ∧
      ∃ declared, mislabelled.Misdeclares "marks" declared := by
  have hreached : (empty default).Reached mislabelled := .empty default
  have herror : ((empty default).loadGrammar mislabelled "words").1 = .error (.notFound "marks") :=
    Except.eq_error_of_map mislabelled_errors.1
  obtain ⟨hmay, hall⟩ := loadGrammar_error_justified hreached herror
  have hjustified := hall _ hmay
  refine ⟨hreached, herror, (hjustified.notFound "marks" rfl).resolve_left ?_⟩
  simp [mislabelled]

end Library

end Highlight
