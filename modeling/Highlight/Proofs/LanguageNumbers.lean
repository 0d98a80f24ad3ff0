import Mathlib.Data.Finset.Card
import Mathlib.Data.List.Induction
import Mathlib.Data.Set.Function
import Mathlib.Order.Interval.Set.Defs
import Highlight.Manifest.Provider
import Highlight.Proofs.DistinctLists
import Highlight.Proofs.LinkedDocuments
import Highlight.Proofs.MetadataWord
import Highlight.Proofs.PackedTokens

/-!
# Numbers of languages

The languages of a manifest are known by numbers of one byte. A number is given out when a provider
is made, goes into a tokenizer when the grammar is loaded, is kept with the tokenizer, and ends up
in the metadata of packed tokens. The same language is meant all the way.

1. `LanguageProvider.Numbers`: distinct languages are numbered from 1 on, in the order in which they
   first occur. Two numbers are equal only if as many languages come before
   (`LanguageProvider.toNat_languageId`).
2. `LanguageProvider.Reached.binds`: whatever was requested before, the tokenizer of a language has
   the numbers of the first grammar for that language. Tokenizers are kept by scope, so the
   invariant, `LanguageProvider.Faithful`, is that each has the numbers of the languages of a grammar
   with its scope, and there is only one such grammar.
3. `LanguageProvider.Binds.packLine`: the packed tokens of a tokenizer with these numbers tell the
   languages of their scopes.
4. `LanguageProvider.token_languages` puts these together, for a manifest whose grammars have
   different scopes.
-/

namespace Highlight

namespace Manifest

/-- The languages that a manifest names, those of its grammars first. -/
def declared (m : Manifest) : List String := m.grammars.filterMap (·.2.language) ++ m.configurations

theorem languages_eq (m : Manifest) : m.languages = m.declared.eraseDups := by
  show m.declared.foldl (fun out l => if out.contains l then out else out ++ [l]) [] = _
  induction m.declared using List.reverseRecOn with
  | nil => rfl
  | append_singleton ls l ih =>
    rw [List.foldl_append, ih, List.foldl_cons, List.foldl_nil]
    have hcontains : ls.eraseDups.contains l = true ↔ l ∈ ls := by
      rw [List.contains_iff_mem, List.mem_eraseDups]
    by_cases h : l ∈ ls
    · rw [if_pos (hcontains.2 h), eraseDups_concat_of_mem h]
    · rw [if_neg (mt hcontains.1 h), eraseDups_concat_of_not_mem h]

end Manifest

theorem length_eraseDups (ls : List String) : ls.eraseDups.length = ls.toFinset.card := by
  rw [← List.toFinset_card_of_nodup (nodup_eraseDups ls)]
  exact congrArg _ (List.toFinset.ext fun l => List.mem_eraseDups)

namespace LanguageProvider

variable {p p₀ : LanguageProvider} {m : Manifest} {ls : List String} {l : String}

/-! ## Numbering -/

/-- The languages of a list are numbered from 1 on, in the order in which they first occur. -/
structure Numbers (p : LanguageProvider) (ls : List String) : Prop where
  /-- Other languages have no number, and 0 stands for that. -/
  known : ∀ l, p.languageId? l = if l ∈ ls then some (p.languageId l) else none
  zero : ∀ l, p.languageId l = 0 ↔ l ∉ ls
  bijOn : Set.BijOn (fun l => (p.languageId l).toNat) {l | l ∈ ls} (Set.Icc 1 ls.toFinset.card)
  first : ∀ before l after, ls = before ++ l :: after → l ∉ before →
    (p.languageId l).toNat = before.toFinset.card + 1

theorem languageId?_eq_some {before after : List String} (h : p.languages = before ++ l :: after)
    (hfirst : l ∉ before) : p.languageId? l = some (UInt8.ofNat (before.length + 1)) := by
  have hbefore : before.findIdx? (· == l) = none :=
    List.findIdx?_eq_none_iff.2 fun x hx => beq_false_of_ne fun heq => hfirst (heq ▸ hx)
  rw [languageId?, h, List.findIdx?_append, hbefore, List.findIdx?_cons,
    if_pos (beq_self_eq_true l), Option.none_or, Option.map_some, Option.map_some, Nat.zero_add]

theorem languageId?_eq_none (h : l ∉ p.languages) : p.languageId? l = none := by
  have hnone : p.languages.findIdx? (· == l) = none :=
    List.findIdx?_eq_none_iff.2 fun x hx => beq_false_of_ne fun heq => h (heq ▸ hx)
  rw [languageId?, hnone, Option.map_none]

/-- The number of a language says how many languages come before it. -/
theorem toNat_languageId (hmax : p.languages.length ≤ maxLanguages) {before after : List String}
    (h : p.languages = before ++ l :: after) (hfirst : l ∉ before) :
    (p.languageId l).toNat = before.length + 1 := by
  have hlength : before.length + 1 ≤ maxLanguages := by
    refine Nat.le_trans ?_ hmax
    rw [h, List.length_append, List.length_cons]
    omega
  rw [languageId, languageId?_eq_some h hfirst, Option.getD_some]
  exact UInt8.toNat_ofNat_of_lt (Nat.lt_succ_of_le hlength)

theorem languageId_bijOn (hmax : p.languages.length ≤ maxLanguages) (hnodup : p.languages.Nodup) :
    Set.BijOn (fun l => (p.languageId l).toNat) {l | l ∈ p.languages}
      (Set.Icc 1 p.languages.length) := by
  refine ⟨fun l hl => ?mapsTo, fun l hl l' hl' heq => ?injOn, fun i hi => ?surjOn⟩
  case mapsTo =>
    obtain ⟨before, after, h, hfirst⟩ := List.eq_append_cons_of_mem hl
    have hlength := congrArg List.length h
    rw [List.length_append, List.length_cons] at hlength
    show 1 ≤ (p.languageId l).toNat ∧ (p.languageId l).toNat ≤ p.languages.length
    rw [toNat_languageId hmax h hfirst]
    omega
  case injOn =>
    obtain ⟨before, after, h, hfirst⟩ := List.eq_append_cons_of_mem hl
    obtain ⟨before', after', h', hfirst'⟩ := List.eq_append_cons_of_mem hl'
    dsimp only at heq
    rw [toNat_languageId hmax h hfirst, toNat_languageId hmax h' hfirst'] at heq
    -- as many languages come before both, so both stand at the same place
    exact (List.cons.inj (List.append_inj (h.symm.trans h') (Nat.succ.inj heq)).2).1
  case surjOn =>
    obtain ⟨hpos, hle⟩ := Set.mem_Icc.1 hi
    have hlt : i - 1 < p.languages.length := by omega
    have h : p.languages = p.languages.take (i - 1) ++ p.languages[i - 1] ::
        p.languages.drop (i - 1 + 1) := by
      rw [List.getElem_cons_drop, List.take_append_drop]
    have hfirst : p.languages[i - 1] ∉ p.languages.take (i - 1) := by
      rw [h] at hnodup
      exact fun hmem => (List.nodup_append.1 hnodup).2.2 _ hmem _ List.mem_cons_self rfl
    refine ⟨p.languages[i - 1], List.getElem_mem hlt, ?_⟩
    dsimp only
    rw [toNat_languageId hmax h hfirst, List.length_take]
    omega

theorem numbers_of_languages (h : p.languages = ls.eraseDups)
    (hmax : p.languages.length ≤ maxLanguages) : p.Numbers ls := by
  have hmem : ∀ l, l ∈ p.languages ↔ l ∈ ls := fun l => by rw [h, List.mem_eraseDups]
  have hbij := languageId_bijOn hmax (h ▸ nodup_eraseDups ls)
  have hunknown : ∀ l, l ∉ ls → p.languageId? l = none := fun l hl =>
    languageId?_eq_none (mt (hmem l).1 hl)
  refine ⟨fun l => ?known, fun l => ⟨fun hzero hl => ?positive, fun hl => ?zero⟩, ?bijOn,
    fun before l after hsplit hfirst => ?first⟩
  case known =>
    split
    · rename_i hl
      obtain ⟨before, after, hsplit, hfirst⟩ := List.eq_append_cons_of_mem ((hmem l).2 hl)
      rw [languageId, languageId?_eq_some hsplit hfirst, Option.getD_some]
    · rename_i hl
      exact hunknown l hl
  case positive =>
    have hpos : 1 ≤ (p.languageId l).toNat := (hbij.mapsTo ((hmem l).2 hl)).1
    rw [hzero] at hpos
    exact absurd hpos (by decide)
  case zero => rw [languageId, hunknown l hl, Option.getD_none]
  case bijOn =>
    rw [← length_eraseDups, ← h]
    simpa only [hmem] using hbij
  case first =>
    rw [hsplit, eraseDups_append_cons hfirst] at h
    rw [toNat_languageId hmax h (mt List.mem_eraseDups.1 hfirst), length_eraseDups]

theorem new_eq {theme : Theme} (htheme : Theme.compile m.theme = .ok theme) :
    new m = if maxLanguages < m.declared.toFinset.card
      then .error (.tooManyLanguages m.declared.toFinset.card)
      else .ok ⟨m, .empty theme, m.languages, []⟩ := by
  rw [← length_eraseDups, ← m.languages_eq, new, htheme]

section New

variable {theme : Theme} (htheme : Theme.compile m.theme = .ok theme)
include htheme

theorem new_eq_error_iff {count : Nat} : new m = .error (.tooManyLanguages count) ↔
    count = m.declared.toFinset.card ∧ maxLanguages < m.declared.toFinset.card := by
  rw [new_eq htheme]
  split
  · rename_i hmany
    simp [hmany, eq_comm]
  · rename_i hfew
    simp [hfew]

theorem new_eq_ok_iff : new m = .ok p ↔
    m.declared.toFinset.card ≤ maxLanguages ∧ p = ⟨m, .empty theme, m.languages, []⟩ := by
  rw [new_eq htheme]
  split
  · rename_i hmany
    simp [Nat.not_le_of_lt hmany]
  · rename_i hfew
    simp [Nat.le_of_not_lt hfew, eq_comm]

end New

/-! ## Requests -/

/-- The numbers of the languages that a grammar says are embedded in its text. -/
def embeddedNumbers (p : LanguageProvider) (g : ManifestGrammar) : List (ScopeName × LanguageId) :=
  g.embeddedLanguages.map fun (name, l) => (name, p.languageId l)

/-- A tokenizer has the numbers of a language and of those that the grammar for it embeds. -/
structure Binds (p : LanguageProvider) (language : String) (g : ManifestGrammar) (t : Tokenizer) :
    Prop where
  declares : g.language = some language
  number : t.language = p.languageId language
  embedded : t.embedded = p.embeddedNumbers g

/-- What comes of requests and of what becomes of the library meanwhile: other themes, packed lines,
grammars loaded and forgotten. -/
inductive Reached (p₀ : LanguageProvider) : LanguageProvider → Prop
  | start : Reached p₀ p₀
  | tokenizer {p : LanguageProvider} (h : Reached p₀ p) (files : Files) (language : String) :
      Reached p₀ (p.tokenizer files language).2
  | configuration {p : LanguageProvider} (h : Reached p₀ p) (files : Files) (language : String) :
      Reached p₀ (p.configuration files language).2
  | forget {p : LanguageProvider} (h : Reached p₀ p) (scope : ScopeName) :
      Reached p₀ { p with workshop := p.workshop.forget scope }
  | library {p : LanguageProvider} (h : Reached p₀ p) (l : Library) :
      Reached p₀ { p with workshop := { p.workshop with library := l } }

theorem Reached.info (h : Reached p₀ p) (files : Files) (language : String) :
    Reached p₀ (p.info files language).2 := by
  have hstate : (p.info files language).2 =
      ((p.tokenizer files language).2.configuration files language).2 := by
    unfold LanguageProvider.info
    dsimp only
    split <;> rfl
  rw [hstate]
  exact (h.tokenizer files language).configuration files language

/-- A request for a language gives a tokenizer, alone or with what else is known of it. -/
def Serves (p : LanguageProvider) (files : Files) (language : String) (t : Loaded Tokenizer) :
    Prop :=
  (p.tokenizer files language).1 = .ok (some t) ∨
    ∃ i, (p.info files language).1 = .ok i ∧ i.tokenizer = some t

theorem Serves.tokenizer {files : Files} {language : String} {t : Loaded Tokenizer}
    (h : p.Serves files language t) : (p.tokenizer files language).1 = .ok (some t) := by
  rcases h with h | ⟨i, hi, ht⟩
  · exact h
  · unfold LanguageProvider.info at hi
    dsimp only at hi
    split at hi
    · cases hi
    · cases hi
    · rename_i t' c heq _
      cases hi
      exact heq.trans (congrArg Except.ok ht)

end LanguageProvider

namespace Workshop

/-- A tokenizer that a request gives is kept. All that are kept were kept before, unless it has been
made with the numbers that were asked for. -/
theorem tokenizer_spec (w : Workshop) (loader : Loader) (scope : ScopeName) (language : LanguageId)
    (embedded : List (ScopeName × LanguageId)) :
    let result := w.tokenizer loader scope language embedded
    (∀ t, result.1 = .ok t → (scope, .ok t) ∈ result.2.tokenizers) ∧
      ∀ s t, (s, .ok t) ∈ result.2.tokenizers → (s, .ok t) ∈ w.tokenizers ∨
        s = scope ∧ t.value.language = language ∧ t.value.embedded = embedded := by
  unfold Workshop.tokenizer
  split
  · rename_i r hr
    refine ⟨fun t ht => ?_, fun s t ht => .inl ht⟩
    dsimp only at ht
    exact mem_of_lookup_eq_some (ht ▸ hr)
  · refine ⟨fun t ht => ?_, fun s t ht => ?_⟩
    · dsimp only at ht ⊢
      rw [ht]
      exact List.mem_cons_self
    · dsimp only at ht
      rcases List.mem_cons.1 ht with heq | ht
      · obtain ⟨rfl, hr⟩ := Prod.mk.inj heq
        exact .inr ⟨rfl, languages_of_make hr.symm⟩
      · rw [make_tokenizers] at ht
        exact .inl ht

end Workshop

namespace LanguageProvider

/-- A provider that has the languages of another one and keeps tokenizers only with their
numbers. -/
structure Faithful (p₀ p : LanguageProvider) : Prop where
  manifest : p.manifest = p₀.manifest
  languages : p.languages = p₀.languages
  kept : ∀ scope t, (scope, .ok t) ∈ p.workshop.tokenizers →
    ∃ language g, (scope, g) ∈ p₀.manifest.grammars ∧ p₀.Binds language g t.value

namespace Faithful

theorem languageId (h : Faithful p₀ p) : p.languageId = p₀.languageId := by
  funext l
  rw [LanguageProvider.languageId, LanguageProvider.languageId, languageId?, languageId?,
    h.languages]

theorem embeddedNumbers (h : Faithful p₀ p) : p.embeddedNumbers = p₀.embeddedNumbers := by
  funext g
  rw [LanguageProvider.embeddedNumbers, LanguageProvider.embeddedNumbers, h.languageId]

end Faithful

/-- A request for the tokenizer of a language asks the workshop for the scope of the first grammar
of the language. -/
theorem tokenizer_cases (p : LanguageProvider) (files : Files) (language : String) :
    (p.tokenizer files language = (.ok none, p)) ∨
    ∃ before scope g after, p.manifest.grammars = before ++ (scope, g) :: after ∧
      g.language = some language ∧ (∀ e ∈ before, e.2.language ≠ some language) ∧
      ∃ result, result = p.workshop.tokenizer (p.manifest.loader files) scope
          (p.languageId language) (p.embeddedNumbers g) ∧
        (p.tokenizer files language).2 = p.advance result.2 ∧
        ∀ t, (p.tokenizer files language).1 = .ok (some t) → result.1 = .ok t := by
  unfold LanguageProvider.tokenizer
  split
  · exact .inl rfl
  · rename_i scope g hfind
    obtain ⟨hlanguage, before, after, hsplit, hbefore⟩ := List.find?_eq_some_iff_append.1 hfind
    refine .inr ⟨before, scope, g, after, hsplit, beq_iff_eq.1 hlanguage,
      fun e he => by simpa using hbefore e he, _, rfl, ?_⟩
    dsimp only
    split
    · rename_i t heq
      refine ⟨rfl, fun t' ht => ?_⟩
      cases ht
      exact heq
    · exact ⟨rfl, nofun⟩

theorem Faithful.tokenizer (h : Faithful p₀ p) (files : Files) (language : String) :
    Faithful p₀ (p.tokenizer files language).2 := by
  rcases p.tokenizer_cases files language with heq | ⟨before, scope, g, after, hsplit, hlanguage, -,
    result, hresult, hstate, -⟩
  · rwa [heq]
  · rw [hstate]
    refine ⟨h.manifest, h.languages, fun s t ht => ?_⟩
    have hspec := (p.workshop.tokenizer_spec (p.manifest.loader files) scope
      (p.languageId language) (p.embeddedNumbers g)).2
    rw [← hresult] at hspec
    -- what was kept before has the right numbers, and a new tokenizer has those of this request
    rcases hspec s t ht with ht | ⟨rfl, hlanguageId, hembedded⟩
    · exact h.kept s t ht
    · refine ⟨language, g, ?_, hlanguage, ?_, ?_⟩
      · rw [← h.manifest, hsplit]
        exact List.mem_append_right _ List.mem_cons_self
      · rw [hlanguageId, h.languageId]
      · rw [hembedded, h.embeddedNumbers]

theorem Faithful.configuration (h : Faithful p₀ p) (files : Files) (language : String) :
    Faithful p₀ (p.configuration files language).2 := by
  unfold LanguageProvider.configuration
  split
  · have hasked : Faithful p₀ { p with
        places := p.manifest.configurationUri language :: p.places } :=
      ⟨h.manifest, h.languages, h.kept⟩
    dsimp only
    split
    · exact hasked
    · exact hasked
    · split
      · exact hasked
      · exact hasked
  · exact h

/-- Whatever has been requested before, only numbers of the right languages are kept. -/
theorem Reached.faithful (h : Reached p₀ p) (hnew : p₀.workshop.tokenizers = []) :
    Faithful p₀ p := by
  induction h with
  | start => exact ⟨rfl, rfl, fun scope t ht => by simp [hnew] at ht⟩
  | tokenizer _ files language ih => exact ih.tokenizer files language
  | configuration _ files language ih => exact ih.configuration files language
  | forget _ scope ih =>
    exact ⟨ih.manifest, ih.languages, fun s t ht => ih.kept s t (List.mem_of_mem_filter ht)⟩
  | library _ l ih => exact ⟨ih.manifest, ih.languages, ih.kept⟩

/-- The tokenizer that a request gives has the numbers of the languages of the first grammar for
that language, also if it was made for an earlier request. -/
theorem Reached.binds (h : Reached p₀ p) (hnew : p₀.workshop.tokenizers = [])
    (hkeys : (p₀.manifest.grammars.map (·.1)).Nodup) {files : Files} {language : String}
    {t : Loaded Tokenizer} (ht : (p.tokenizer files language).1 = .ok (some t)) :
    ∃ before scope g after, p₀.manifest.grammars = before ++ (scope, g) :: after ∧
      (∀ e ∈ before, e.2.language ≠ some language) ∧ p₀.Binds language g t.value := by
  rcases p.tokenizer_cases files language with heq | ⟨before, scope, g, after, hsplit, hlanguage,
    hbefore, result, hresult, hstate, hok⟩
  · rw [heq] at ht
    cases ht
  · have hspec := (p.workshop.tokenizer_spec (p.manifest.loader files) scope
      (p.languageId language) (p.embeddedNumbers g)).1
    rw [← hresult] at hspec
    have hmem : (scope, .ok t) ∈ (p.tokenizer files language).2.workshop.tokenizers := by
      rw [hstate]
      exact hspec t (hok t ht)
    rw [(h.faithful hnew).manifest] at hsplit
    obtain ⟨language', g', hg', hbinds⟩ :=
      ((h.tokenizer files language).faithful hnew).kept scope t hmem
    have hg : (scope, g) ∈ p₀.manifest.grammars := by
      rw [hsplit]
      exact List.mem_append_right _ List.mem_cons_self
    -- the kept tokenizer was made for the same grammar, so for the same language
    cases List.inj_on_of_nodup_map hkeys hg hg' rfl
    cases hlanguage.symm.trans hbinds.declares
    exact ⟨before, scope, g, after, hsplit, hbefore, hbinds⟩

end LanguageProvider

/-! ## Languages of tokens -/

/-- Replacing the values of a list of names replaces the value that it has for a scope. -/
theorem Scope.firstMatch?_map {α β : Type} (f : α → β) (entries : List (ScopeName × α)) :
    firstMatch? (entries.map (Prod.map id f)) = Option.map f ∘ firstMatch? entries := by
  funext scope
  rw [Function.comp_apply, firstMatch?, firstMatch?, List.find?_map, Option.map_map,
    Option.map_map]
  rfl

theorem LanguageProvider.Binds.languageOf {p : LanguageProvider} {language : String}
    {g : ManifestGrammar} {t : Tokenizer} (h : p.Binds language g t) (path : ScopePath) :
    t.languageOf path = p.languageId
      ((path.reverse.findSome? (Scope.firstMatch? g.embeddedLanguages)).getD language) := by
  have hscope : Scope.firstMatch? t.embedded =
      Option.map p.languageId ∘ Scope.firstMatch? g.embeddedLanguages := by
    rw [h.embedded]
    exact Scope.firstMatch?_map p.languageId g.embeddedLanguages
  rw [Tokenizer.languageOf, hscope, ← List.map_findSome?, h.number, Option.getD_map]

/-- Metadata tell the language of a scope path in a grammar's text: that of its innermost scope in
which the grammar embeds one, or else the grammar's own. -/
def LanguageProvider.Tells (p : LanguageProvider) (language : String) (g : ManifestGrammar)
    (path : ScopePath) (m : Metadata) : Prop :=
  ∃ l, Innermost (Scope.FirstMatch g.embeddedLanguages) language path l ∧
    m.language = p.languageId l

theorem LanguageProvider.Binds.tells {p : LanguageProvider} {language : String}
    {g : ManifestGrammar} {t : Tokenizer} (h : p.Binds language g t) (path : ScopePath)
    (style : Style) : p.Tells language g path (t.metadata path style) := by
  refine ⟨_, (innermost_iff fun _ _ => Scope.firstMatch?_eq_some_iff).2 rfl, ?_⟩
  rw [← h.languageOf, Tokenizer.metadata]
  exact (Metadata.fields_pack ..).1

theorem Packed.packLine {theme : Theme} (t : Tokenizer) (c : StyleCache theme) (line : String)
    (stack : RuleStack) : Packed (fun path => t.metadata path (theme.style path))
      (t.grammar.value.tokenizeLine line stack).tokens
      (t.packLine c line stack).1.tokens.reverse := by
  have htiles := t.grammar.value.tokenizeLine_tile line stack
  have hpacked := Packed.packFrom t (c := c) Packed.nil htiles.pairwise
  rwa [← List.reverse_reverse (t.packFrom ..).1] at hpacked

/-- The packed tokens of a line tell the languages of the scopes that the tokens of the line have. -/
theorem LanguageProvider.Binds.packLine {p : LanguageProvider} {language : String}
    {g : ManifestGrammar} {t : Tokenizer} (h : p.Binds language g t) {theme : Theme}
    (c : StyleCache theme) (line : String) (stack : RuleStack) :
    let plain := t.grammar.value.tokenizeLine line stack
    let packed := (t.packLine c line stack).1.tokens
    (∀ v ∈ packed, ∃ u ∈ plain.tokens, u.start = v.start ∧
      p.Tells language g u.scopes v.metadata) ∧
    ∀ u ∈ plain.tokens, ∀ offset, u.start ≤ offset → offset < u.stop →
      ∃ v, PackedToken.at? packed offset = some v ∧ p.Tells language g u.scopes v.metadata := by
  intro plain packed
  have hpacked := Packed.packLine t c line stack
  refine ⟨fun v hv => ?_, fun u hu offset hstart hstop => ?_⟩
  · obtain ⟨u, hu, hstart, hmetadata⟩ := hpacked.source v (List.mem_reverse.2 hv)
    exact ⟨u, hu, hstart, hmetadata ▸ h.tells u.scopes (theme.style u.scopes)⟩
  · obtain ⟨v, hv, hmetadata⟩ := hpacked.agrees u hu offset hstart hstop
    exact ⟨v, hv, hmetadata ▸ h.tells u.scopes (theme.style u.scopes)⟩

namespace LanguageProvider

/-- Numbers identify languages from the manifest to the packed tokens. A manifest with a theme is
refused only for having more than 255 distinct languages, and the error says how many there are.
Otherwise they are numbered from 1 on as they first occur. And after any requests, what the tokenizer
of a language says about a scope path is the number of the language that the innermost scope with an
embedded one has, or else the number of the language itself, in every packed token of every line. -/
theorem token_languages {m : Manifest} {theme : Theme} (htheme : Theme.compile m.theme = .ok theme)
    (hkeys : (m.grammars.map (·.1)).Nodup) :
    let n := m.declared.toFinset.card
    (∀ count, new m = .error (.tooManyLanguages count) ↔ count = n ∧ 255 < n) ∧
    ((∃ p, new m = .ok p) ↔ n ≤ 255) ∧
    ∀ p₀, new m = .ok p₀ → p₀.Numbers m.declared ∧
      ∀ p, Reached p₀ p → ∀ files language t, p.Serves files language t →
        ∃ before scope g after, m.grammars = before ++ (scope, g) :: after ∧
          g.language = some language ∧ (∀ e ∈ before, e.2.language ≠ some language) ∧
          ∀ {colors : Theme} (c : StyleCache colors) (line : String) (stack : RuleStack),
            let plain := t.value.grammar.value.tokenizeLine line stack
            let packed := (t.value.packLine c line stack).1.tokens
            (∀ v ∈ packed, ∃ u ∈ plain.tokens, u.start = v.start ∧
              p₀.Tells language g u.scopes v.metadata) ∧
            ∀ u ∈ plain.tokens, ∀ offset, u.start ≤ offset → offset < u.stop →
              ∃ v, PackedToken.at? packed offset = some v ∧
                p₀.Tells language g u.scopes v.metadata := by
  intro n
  refine ⟨fun count => new_eq_error_iff htheme, ?_, fun p₀ hp₀ => ?_⟩
  · constructor
    · rintro ⟨p, hp⟩
      exact ((new_eq_ok_iff htheme).1 hp).1
    · intro hfew
      exact ⟨_, (new_eq_ok_iff htheme).2 ⟨hfew, rfl⟩⟩
  · obtain ⟨hfew, rfl⟩ := (new_eq_ok_iff htheme).1 hp₀
    have hmax : m.languages.length ≤ maxLanguages := by
      rwa [m.languages_eq, length_eraseDups]
    refine ⟨numbers_of_languages m.languages_eq hmax, fun p hp files language t ht => ?_⟩
    obtain ⟨before, scope, g, after, hsplit, hbefore, hbinds⟩ := hp.binds rfl hkeys ht.tokenizer
    exact ⟨before, scope, g, after, hsplit, hbinds.declares, hbefore, hbinds.packLine⟩

/-- Papers embed code, which has a grammar too, and formulas, which are of no language of the
manifest. -/
def papers : Manifest where
  base := ""
  grammars := [
    ("text.paper", ⟨some "paper", [], [("meta.code", "code"), ("meta.math", "math")], "p.yaml"⟩),
    ("source.code", ⟨some "code", [], [], "c.yaml"⟩)]
  configurations := ["paper", "plain"]
  theme := .empty

/-- In papers `c` is code and `m` a formula. -/
def paperFiles : Files := [
  ("/grammars/p.yaml", .text ("scopeName: text.paper\npatterns:\n" ++
    "- name: meta.code\n  match: c\n- name: meta.math\n  match: m\n")),
  ("/grammars/c.yaml", .text "scopeName: source.code\n")]

/-- The languages of the manifest before any request. -/
def paperLanguages : LanguageProvider := ⟨papers, .empty .standard, papers.languages, []⟩

/-- The same after a request for code. -/
def afterCode : LanguageProvider := (paperLanguages.info paperFiles "code").2

theorem papers_outcomes : (papers.grammars.map (·.1)).Nodup ∧
    papers.declared.toFinset.card = 3 ∧
    ((afterCode.tokenizer paperFiles "paper").1.toOption.bind id).map (fun t =>
      (t.value.packLine (.empty .standard) "xcxm" .initial).1.tokens.map
        fun v => (v.start, v.metadata.language)) = some [(0, 1), (1, 2), (2, 1), (3, 0)] := by
  decide +kernel

/-- After a request for code, papers are language 1, the code in them is language 2, and the
formulas have no language. -/
theorem token_languages_papers : Theme.compile papers.theme = .ok .standard ∧
    (papers.grammars.map (·.1)).Nodup ∧ new papers = .ok paperLanguages ∧
    paperLanguages.Numbers papers.declared ∧ Reached paperLanguages afterCode ∧
    ∃ t, afterCode.Serves paperFiles "paper" t ∧
      let plain := t.value.grammar.value.tokenizeLine "xcxm" .initial
      let packed := (t.value.packLine (.empty .standard) "xcxm" .initial).1.tokens
      packed.map (fun v => (v.start, v.metadata.language)) = [(0, 1), (1, 2), (2, 1), (3, 0)] ∧
      ∃ scope g, (scope, g) ∈ papers.grammars ∧ g.language = some "paper" ∧
        ∀ v ∈ packed, ∃ u ∈ plain.tokens, u.start = v.start ∧
          paperLanguages.Tells "paper" g u.scopes v.metadata := by
  obtain ⟨hkeys, hcard, hpacked⟩ := papers_outcomes
  have htheme : Theme.compile papers.theme = .ok .standard := Theme.compile_empty
  have hnew : new papers = .ok paperLanguages := by
    rw [new_eq_ok_iff htheme, hcard]
    exact ⟨by decide, rfl⟩
  have hreached : Reached paperLanguages afterCode := Reached.start.info paperFiles "code"
  obtain ⟨t, ht, htokens⟩ := Option.map_eq_some_iff.1 hpacked
  obtain ⟨_, hok, rfl⟩ := Option.bind_eq_some_iff.1 ht
  have hserves : afterCode.Serves paperFiles "paper" t := .inl (Except.eq_ok_of_toOption hok)
  obtain ⟨-, -, hall⟩ := token_languages htheme hkeys
  obtain ⟨hnumbers, hrequests⟩ := hall paperLanguages hnew
  obtain ⟨before, scope, g, after, hsplit, hlanguage, -, hlines⟩ :=
    hrequests afterCode hreached paperFiles "paper" t hserves
  refine ⟨htheme, hkeys, hnew, hnumbers, hreached, t, hserves, htokens, scope, g, ?_, hlanguage,
    (hlines (.empty .standard) "xcxm" .initial).1⟩
  rw [hsplit]
  exact List.mem_append_right _ List.mem_cons_self

end LanguageProvider

end Highlight
