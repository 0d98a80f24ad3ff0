import Highlight.Theme.Style
import Highlight.Proofs.MetadataWord
import Highlight.Proofs.ScanSteps

/-!
# Colors of packed tokens

A theme says which color a path gets in words of its own: the most specific of the rules that set a
color for the path wins, or the default color where none does (`RawTheme.Wins`). What a token holds
is a number in a field of a few bits. Compiling a theme numbers colors one after another
(`ColorTable.intern_spec`); numbers given once stay, and none is beyond its field. So the rules of a
compiled theme say what those of the theme as written say (`Theme.Paints`), and the number that a
token holds stands for the color of the rule that wins (`compile_colors`).
-/

namespace Highlight

/-! ## Specificity -/

namespace Specificity

variable {a b c : Specificity}

theorem atLeast_iff : a.atLeast b = true ↔ b.depth < a.depth ∨ a.depth = b.depth ∧
    (b.segments < a.segments ∨ a.segments = b.segments ∧
      (b.parents < a.parents ∨ a.parents = b.parents ∧ b.index ≤ a.index)) := by
  simp [atLeast]

theorem atLeast_refl (a : Specificity) : a.atLeast a = true := by simp [atLeast_iff]

theorem atLeast_trans (hab : a.atLeast b = true) (hbc : b.atLeast c = true) :
    a.atLeast c = true := by
  rw [atLeast_iff] at hab hbc ⊢
  omega

theorem atLeast_of_not (h : ¬a.atLeast b = true) : b.atLeast a = true := by
  rw [atLeast_iff] at h ⊢
  omega

theorem index_eq_of_atLeast (hab : a.atLeast b = true) (hba : b.atLeast a = true) :
    a.index = b.index := by
  rw [atLeast_iff] at hab hba
  omega

end Specificity

/-! ## The rule that wins -/

namespace Theme

/-- How specific a selector of the rule at a place of a theme is for a path, if it applies. -/
def specificityOf? (place : Nat) (selector : String) (path : ScopePath) : Option Specificity :=
  (ruleOf place none none none selector).bind (·.specificity? path)

/-- What is set does not count. -/
theorem specificityOf?_eq {place : Nat} {selector : String} {path : ScopePath}
    {foreground background : Option Nat} {fontStyle : Option FontStyle} {rule : ThemeRule}
    (h : ruleOf place foreground background fontStyle selector = some rule) :
    specificityOf? place selector path = rule.specificity? path := by
  obtain ⟨scope, hscope, rfl⟩ := Option.map_eq_some_iff.1 h
  rw [specificityOf?, ruleOf, hscope]
  rfl

theorem index_of_specificityOf? {place : Nat} {selector : String} {path : ScopePath}
    {spec : Specificity} (h : specificityOf? place selector path = some spec) :
    spec.index = place := by
  obtain ⟨rule, hrule, h⟩ := Option.bind_eq_some_iff.1 h
  obtain ⟨scope, _, rfl⟩ := Option.map_eq_some_iff.1 hrule
  unfold ThemeRule.specificity? at h
  split at h
  · split at h
    · cases h
      rfl
    · cases h
  · cases h

end Theme

namespace RawTheme

variable (raw : RawTheme) (get : RawThemeSettings → Option String) (path : ScopePath)

/-- A rule of the theme sets a color for the path, with the specificity of one of its selectors. -/
inductive Sets : Specificity → String → Prop
  | rule {place : Nat} {r : RawThemeRule} {scope : RawThemeScope} {selector : String}
      {spec : Specificity} {text : String} (hplace : raw.settings[place]? = some r)
      (hscope : r.scope = some scope) (hselector : selector ∈ scope.selectors)
      (hspec : Theme.specificityOf? place selector path = some spec)
      (htext : get r.settings = some text) : Sets spec text

/-- The color that the theme means for the path: the one that the most specific rule sets, or the
last one of the defaults, or the color of a theme that sets none. -/
inductive Wins (fallback : String) : String → Prop
  | rule {spec : Specificity} {text : String} (h : raw.Sets get path spec text)
      (hmost : ∀ other text', raw.Sets get path other text' → spec.atLeast other = true) :
      Wins fallback text
  | default (hnone : ∀ spec text, ¬raw.Sets get path spec text) :
      Wins fallback (Theme.lastSet get fallback (raw.settings.filter Theme.isDefault))

variable {raw get path}

/-- Rules that are equally specific are one rule, which sets one color. -/
theorem Sets.unique {spec other : Specificity} {text text' : String}
    (h : raw.Sets get path spec text) (h' : raw.Sets get path other text')
    (hle : spec.atLeast other = true) (hge : other.atLeast spec = true) : text = text' := by
  have hindex := Specificity.index_eq_of_atLeast hle hge
  cases h with
  | rule hplace hscope _ hspec htext =>
    cases h' with
    | rule hplace' hscope' _ hspec' htext' =>
      rw [Theme.index_of_specificityOf? hspec, Theme.index_of_specificityOf? hspec'] at hindex
      subst hindex
      cases hplace.symm.trans hplace'
      exact Option.some.inj (htext.symm.trans htext')

theorem Wins.unique {fallback text text' : String} (h : raw.Wins get path fallback text)
    (h' : raw.Wins get path fallback text') : text = text' := by
  cases h with
  | rule h hmost =>
    cases h' with
    | rule h' hmost' => exact h.unique h' (hmost _ _ h') (hmost' _ _ h)
    | default hnone => exact absurd h (hnone _ _)
  | default hnone =>
    cases h' with
    | rule h' _ => exact absurd h' (hnone _ _)
    | default => rfl

end RawTheme

/-- The rule sets the attribute for the path, with that specificity. -/
def ThemeRule.Offers {α : Type} (get : ThemeRule → Option α) (path : ScopePath) (r : ThemeRule)
    (offer : Specificity × α) : Prop :=
  r.specificity? path = some offer.1 ∧ get r = some offer.2

namespace Theme

variable {α : Type} {get : ThemeRule → Option α} {path : ScopePath}

/-- The search through rules goes on with the better of the best offer so far and that of the next
rule. -/
theorem strongest_cons (get : ThemeRule → Option α) (path : ScopePath)
    (best : Option (Specificity × α)) (r : ThemeRule) (rs : List ThemeRule) :
    ∃ best', strongest get path best (r :: rs) = strongest get path best' rs ∧
      (∀ offer, best' = some offer → best = some offer ∨ r.Offers get path offer) ∧
      ∀ offer, best = some offer ∨ r.Offers get path offer →
        ∃ found, best' = some found ∧ found.1.atLeast offer.1 = true := by
  rw [strongest]
  split
  · rename_i spec a hspec ha
    have hoffers : ∀ offer, r.Offers get path offer ↔ offer = (spec, a) := by
      intro offer
      rw [ThemeRule.Offers, hspec, ha, Option.some_inj, Option.some_inj, Prod.ext_iff]
      exact ⟨fun h => ⟨h.1.symm, h.2.symm⟩, fun h => ⟨h.1.symm, h.2.symm⟩⟩
    simp only [hoffers]
    split
    · -- the rule is at least as specific as what has been found
      rename_i hbest
      refine ⟨some (spec, a), rfl, fun offer h => .inr (Option.some.inj h).symm, ?_⟩
      rintro offer (rfl | rfl)
      · exact ⟨(spec, a), rfl, by simpa using hbest⟩
      · exact ⟨(spec, a), rfl, spec.atLeast_refl⟩
    · rename_i hbest
      obtain ⟨old, hold, hless⟩ : ∃ old, best = some old ∧ ¬spec.atLeast old.1 = true := by
        cases best with
        | none => simp at hbest
        | some old => exact ⟨old, rfl, by simpa using hbest⟩
      refine ⟨best, rfl, fun offer h => .inl h, ?_⟩
      rintro offer (h | rfl)
      · exact ⟨offer, h, offer.1.atLeast_refl⟩
      · exact ⟨old, hold, Specificity.atLeast_of_not hless⟩
  · rename_i hnot
    have hoffers : ∀ offer, ¬r.Offers get path offer := fun offer h => hnot _ _ h.1 h.2
    refine ⟨best, rfl, fun offer h => .inl h, fun offer h => ?_⟩
    exact ⟨offer, h.resolve_right (hoffers offer), offer.1.atLeast_refl⟩

/-- What is found was offered by a rule, or was there before. -/
theorem offered_of_strongest : ∀ {rules : List ThemeRule} {best : Option (Specificity × α)}
    {offer : Specificity × α}, strongest get path best rules = some offer →
      best = some offer ∨ ∃ r ∈ rules, r.Offers get path offer
  | [], _, _, h => .inl h
  | r :: rs, best, offer, h => by
    obtain ⟨best', heq, hfrom, _⟩ := strongest_cons get path best r rs
    rw [heq] at h
    rcases offered_of_strongest h with h | ⟨r', hr', h⟩
    · exact (hfrom offer h).imp id fun h => ⟨r, List.mem_cons_self, h⟩
    · exact .inr ⟨r', List.mem_cons_of_mem r hr', h⟩

/-- What is found is at least as specific as any offer. -/
theorem strongest_atLeast : ∀ {rules : List ThemeRule} {best : Option (Specificity × α)}
    {offer : Specificity × α}, (best = some offer ∨ ∃ r ∈ rules, r.Offers get path offer) →
      ∃ found, strongest get path best rules = some found ∧ found.1.atLeast offer.1 = true
  | [], _, offer, h => by
    rcases h with h | ⟨r, hr, _⟩
    · exact ⟨offer, h, offer.1.atLeast_refl⟩
    · cases hr
  | r :: rs, best, offer, h => by
    obtain ⟨best', heq, _, hover⟩ := strongest_cons get path best r rs
    rw [heq]
    -- an offer of the first rule is met by what the search goes on with
    have hcase : (best = some offer ∨ r.Offers get path offer) ∨
        ∃ r' ∈ rs, r'.Offers get path offer := by
      rcases h with h | ⟨r', hr', h⟩
      · exact .inl (.inl h)
      · rcases List.mem_cons.1 hr' with rfl | hr'
        · exact .inl (.inr h)
        · exact .inr ⟨r', hr', h⟩
    rcases hcase with h | h
    · obtain ⟨met, hmet, hle⟩ := hover offer h
      obtain ⟨found, hfound, hle'⟩ := strongest_atLeast (.inl hmet)
      exact ⟨found, hfound, Specificity.atLeast_trans hle' hle⟩
    · exact strongest_atLeast (.inr h)

end Theme

/-! ## Numbers of colors -/

namespace ColorTable

variable {t t' : ColorTable} {most id : Nat} {text : String}

/-- The number is one of a field and stands for the color that the text describes. -/
structure Names (t : ColorTable) (most : Nat) (text : String) (id : Nat) : Prop where
  color : ∃ color, Color.normalize? text = some color ∧ t.get? id = some color
  le_most : id ≤ most

/-- Numbers keep their colors when a table grows. -/
theorem Names.grow (h : t.Names most text id) (hgrow : t.colors <+: t'.colors) :
    t'.Names most text id := by
  obtain ⟨⟨color, hcolor, hget⟩, hle⟩ := h
  refine ⟨⟨color, hcolor, ?_⟩, hle⟩
  unfold get? at hget ⊢
  split at hget
  · cases hget
  · rename_i hne
    rw [if_neg hne]
    obtain ⟨more, hmore⟩ := hgrow
    obtain ⟨hlt, _⟩ := List.getElem?_eq_some_iff.1 hget
    rwa [← hmore, List.getElem?_append_left hlt]

/-- What numbering a color does to a table. -/
theorem intern_spec {overflow : Nat → ThemeError}
    (h : t.intern most overflow text = .ok (id, t')) :
    t.colors <+: t'.colors ∧ t'.Names most text id := by
  unfold intern at h
  split at h
  · cases h
  · rename_i color hcolor
    split at h
    · rename_i number hnumber
      split at h
      · cases h
      · rename_i hle
        cases h
        obtain ⟨place, hplace, rfl⟩ := Option.map_eq_some_iff.1 hnumber
        obtain ⟨hlt, hfound, _⟩ := List.findIdx?_eq_some_iff_getElem.1 hplace
        refine ⟨List.prefix_rfl, ⟨color, hcolor, ?_⟩, Nat.le_of_not_lt hle⟩
        rw [get?, if_neg (Nat.succ_ne_zero place), Nat.add_sub_cancel,
          List.getElem?_eq_getElem hlt, beq_iff_eq.1 hfound]
    · dsimp only at h
      split at h
      · cases h
      · rename_i hle
        cases h
        refine ⟨List.prefix_append _ _, ⟨color, hcolor, ?_⟩, Nat.le_of_not_lt hle⟩
        rw [get?, if_neg (Nat.succ_ne_zero _), Nat.add_sub_cancel,
          List.getElem?_append_right (Nat.le_refl _), Nat.sub_self]
        rfl

/-- A color that may be missing has a number if it is there. -/
inductive NamesOptional (t : ColorTable) (most : Nat) : Option String → Option Nat → Prop
  | none : NamesOptional t most none none
  | some {text : String} {id : Nat} (h : t.Names most text id) :
      NamesOptional t most (some text) (some id)

theorem NamesOptional.grow {text? : Option String} {id? : Option Nat}
    (h : t.NamesOptional most text? id?) (hgrow : t.colors <+: t'.colors) :
    t'.NamesOptional most text? id? := by
  cases h with
  | none => exact .none
  | some h => exact .some (h.grow hgrow)

theorem internOptional_spec {overflow : Nat → ThemeError} {text? : Option String}
    {id? : Option Nat}
    (h : Theme.internOptional (fun t => t.intern most overflow) t text? = .ok (id?, t')) :
    t.colors <+: t'.colors ∧ t'.NamesOptional most text? id? := by
  cases text? with
  | none =>
    cases h
    exact ⟨List.prefix_rfl, .none⟩
  | some text =>
    obtain ⟨⟨id, t₁⟩, hintern, h⟩ := Except.bind_eq_ok.1 h
    cases h
    obtain ⟨hgrow, hnames⟩ := intern_spec hintern
    exact ⟨hgrow, .some hnames⟩

end ColorTable

/-! ## Compiled rules -/

namespace Theme

variable {t t' : ColorTable}

theorem internBackgrounds_grow : ∀ {rules : List RawThemeRule} {t t' : ColorTable},
    internBackgrounds t rules = .ok t' → t.colors <+: t'.colors
  | [], _, _, h => by
    cases h
    exact List.prefix_rfl
  | r :: rs, t, t', h => by
    unfold internBackgrounds at h
    split at h
    · obtain ⟨⟨_, t₁⟩, hintern, h⟩ := Except.bind_eq_ok.1 h
      exact (ColorTable.intern_spec hintern).1.trans (internBackgrounds_grow h)
    · exact internBackgrounds_grow h

/-- A rule with scopes was compiled with these numbers of its colors: each of its selectors has
become a rule. -/
structure Numbered (t : ColorTable) (place : Nat) (r : RawThemeRule) (scope : RawThemeScope)
    (foreground background : Option Nat) (rules : List ThemeRule) : Prop where
  hforeground : t.NamesOptional ColorTable.maxForeground r.settings.foreground foreground
  hbackground : t.NamesOptional ColorTable.maxBackground r.settings.background background
  mem_iff : ∀ rule, rule ∈ rules ↔ ∃ selector ∈ scope.selectors,
    ruleOf place foreground background (r.settings.fontStyle.map FontStyle.parse) selector =
      some rule

/-- The compiled rules are those of the rules with scopes, one after another. -/
inductive Compiled (t : ColorTable) : Nat → List RawThemeRule → List ThemeRule → Prop
  | nil {place : Nat} : Compiled t place [] []
  | skip {place : Nat} {r : RawThemeRule} {rs : List RawThemeRule} {rules : List ThemeRule}
      (hscope : r.scope = none) (h : Compiled t (place + 1) rs rules) :
      Compiled t place (r :: rs) rules
  | rule {place : Nat} {r : RawThemeRule} {rs : List RawThemeRule} {scope : RawThemeScope}
      {foreground background : Option Nat} {here rules : List ThemeRule}
      (hscope : r.scope = some scope)
      (hhere : Numbered t place r scope foreground background here)
      (h : Compiled t (place + 1) rs rules) : Compiled t place (r :: rs) (here ++ rules)

theorem compileRules_spec : ∀ {rs : List RawThemeRule} {place : Nat} {t t' : ColorTable}
    {rules : List ThemeRule}, compileRules place t rs = .ok (rules, t') →
      t.colors <+: t'.colors ∧ Compiled t' place rs rules
  | [], _, _, _, _, h => by
    cases h
    exact ⟨List.prefix_rfl, .nil⟩
  | r :: rs, place, t, t', rules, h => by
    unfold compileRules at h
    split at h
    · rename_i hscope
      obtain ⟨hgrow, hrest⟩ := compileRules_spec h
      exact ⟨hgrow, .skip hscope hrest⟩
    · rename_i scope hscope
      obtain ⟨⟨foreground, t₁⟩, hforeground, h⟩ := Except.bind_eq_ok.1 h
      obtain ⟨⟨background, t₂⟩, hbackground, h⟩ := Except.bind_eq_ok.1 h
      obtain ⟨⟨rest, t₃⟩, hrest, h⟩ := Except.bind_eq_ok.1 h
      cases h
      obtain ⟨hgrow₁, hforeground⟩ := ColorTable.internOptional_spec hforeground
      obtain ⟨hgrow₂, hbackground⟩ := ColorTable.internOptional_spec hbackground
      obtain ⟨hgrow₃, hrest⟩ := compileRules_spec hrest
      have hhere : Numbered t' place r scope foreground background _ :=
        ⟨hforeground.grow (hgrow₂.trans hgrow₃), hbackground.grow hgrow₃,
          fun rule => List.mem_filterMap⟩
      exact ⟨(hgrow₁.trans hgrow₂).trans hgrow₃, .rule hscope hhere hrest⟩

variable {place : Nat} {rs : List RawThemeRule} {rules : List ThemeRule}

/-- A compiled rule is one of a rule of the theme, with the numbers of its colors. -/
theorem Compiled.of_mem (h : Compiled t place rs rules) {rule : ThemeRule} (hrule : rule ∈ rules) :
    ∃ k r scope foreground background here, rs[k]? = some r ∧ r.scope = some scope ∧
      Numbered t (place + k) r scope foreground background here ∧ rule ∈ here := by
  induction h with
  | nil => cases hrule
  | skip _ _ ih =>
    obtain ⟨k, h⟩ := ih hrule
    rw [Nat.add_right_comm] at h
    exact ⟨k + 1, h⟩
  | rule hscope hhere _ ih =>
    rcases List.mem_append.1 hrule with hrule | hrule
    · exact ⟨0, _, _, _, _, _, rfl, hscope, hhere, hrule⟩
    · obtain ⟨k, h⟩ := ih hrule
      rw [Nat.add_right_comm] at h
      exact ⟨k + 1, h⟩

/-- Each rule of the theme with scopes has been compiled. -/
theorem Compiled.numbered (h : Compiled t place rs rules) {k : Nat} {r : RawThemeRule}
    {scope : RawThemeScope} (hr : rs[k]? = some r) (hscope : r.scope = some scope) :
    ∃ foreground background here,
      Numbered t (place + k) r scope foreground background here ∧ here ⊆ rules := by
  induction h generalizing k with
  | nil => cases hr
  | skip hnone _ ih =>
    cases k with
    | zero =>
      cases hr
      cases hnone.symm.trans hscope
    | succ k =>
      have h := ih hr
      rwa [Nat.add_right_comm] at h
  | rule hscope' hhere _ ih =>
    cases k with
    | zero =>
      cases hr
      cases hscope'.symm.trans hscope
      exact ⟨_, _, _, hhere, List.subset_append_left _ _⟩
    | succ k =>
      obtain ⟨foreground, background, here, h, hsubset⟩ := ih hr
      rw [Nat.add_right_comm] at h
      exact ⟨foreground, background, here, h, fun r hr => List.mem_append_right _ (hsubset hr)⟩

end Theme

/-! ## Colors of paths -/

namespace Theme

/-- An attribute of a compiled theme that says what the theme as written says: the rules offer
numbers of the colors that its rules set, and the default is the number of its default. -/
structure Paints (t : Theme) (raw : RawTheme) (most : Nat) (get : ThemeRule → Option Nat)
    (getRaw : RawThemeSettings → Option String) (fallback : String) (default : Nat) : Prop where
  sound : ∀ rule ∈ t.rules, ∀ path offer, rule.Offers get path offer →
    ∃ text, raw.Sets getRaw path offer.1 text ∧ t.colors.Names most text offer.2
  complete : ∀ path spec text, raw.Sets getRaw path spec text →
    ∃ rule ∈ t.rules, ∃ id, rule.Offers get path (spec, id)
  default : t.colors.Names most (lastSet getRaw fallback (raw.settings.filter isDefault)) default

variable {t : Theme} {raw : RawTheme} {most : Nat} {get : ThemeRule → Option Nat}
  {getRaw : RawThemeSettings → Option String} {fallback : String} {default : Nat}

/-- The number that a path gets is that of the color that wins. -/
theorem Paints.exists_wins (h : t.Paints raw most get getRaw fallback default)
    (path : ScopePath) : ∃ text, raw.Wins getRaw path fallback text ∧
      t.colors.Names most text (t.attributeOf get default path) := by
  unfold attributeOf
  split
  · rename_i spec id hfound
    obtain ⟨rule, hrule, hoffer⟩ := (offered_of_strongest hfound).resolve_left nofun
    obtain ⟨text, hsets, hnames⟩ := h.sound rule hrule path _ hoffer
    refine ⟨text, .rule hsets fun other text' hother => ?_, hnames⟩
    -- another rule that sets a color has been compiled, so the search has met its offer
    obtain ⟨rule', hrule', id', hoffer'⟩ := h.complete path other text' hother
    obtain ⟨found, heq, hle⟩ : ∃ found, strongest get path none t.rules = some found ∧
        found.1.atLeast other = true :=
      strongest_atLeast (.inr ⟨rule', hrule', hoffer'⟩)
    cases hfound.symm.trans heq
    exact hle
  · rename_i hnone
    refine ⟨_, .default fun spec text hsets => ?_, h.default⟩
    obtain ⟨rule, hrule, id, hoffer⟩ := h.complete path spec text hsets
    obtain ⟨found, heq, _⟩ : ∃ found, strongest get path none t.rules = some found ∧
        found.1.atLeast spec = true :=
      strongest_atLeast (.inr ⟨rule, hrule, hoffer⟩)
    cases hnone.symm.trans heq

/-- Compiled rules paint where each of them has the numbers of the colors of its rule. -/
theorem Compiled.paints (h : Compiled t.colors 0 raw.settings t.rules)
    (hnumbers : ∀ place r scope foreground background here,
      Numbered t.colors place r scope foreground background here →
        ∃ id?, t.colors.NamesOptional most (getRaw r.settings) id? ∧ ∀ rule ∈ here, get rule = id?)
    (hdefault : t.colors.Names most (lastSet getRaw fallback (raw.settings.filter isDefault))
      default) : t.Paints raw most get getRaw fallback default where
  sound := by
    rintro rule hrule path ⟨spec, id⟩ ⟨hspec, hid⟩
    obtain ⟨k, r, scope, foreground, background, here, hr, hscope, hhere, hmem⟩ := h.of_mem hrule
    rw [Nat.zero_add] at hhere
    obtain ⟨selector, hselector, hof⟩ := (hhere.mem_iff rule).1 hmem
    obtain ⟨id?, hnames, hget⟩ := hnumbers _ _ _ _ _ _ hhere
    have hid? : id? = some id := (hget rule hmem).symm.trans hid
    subst hid?
    cases htext : getRaw r.settings with
    | none =>
      rw [htext] at hnames
      cases hnames
    | some text =>
      rw [htext] at hnames
      cases hnames with
      | some hnames =>
        exact ⟨text, .rule hr hscope hselector ((specificityOf?_eq hof).trans hspec) htext, hnames⟩
  complete := by
    intro path spec text hsets
    cases hsets with
    | @rule place r scope selector _ _ hplace hscope hselector hspec htext =>
      obtain ⟨foreground, background, here, hhere, hsubset⟩ := h.numbered hplace hscope
      rw [Nat.zero_add] at hhere
      obtain ⟨bare, hbare, _⟩ := Option.bind_eq_some_iff.1 hspec
      obtain ⟨name, hname, _⟩ := Option.map_eq_some_iff.1 hbare
      obtain ⟨rule, hof⟩ : ∃ rule, ruleOf place foreground background
          (r.settings.fontStyle.map FontStyle.parse) selector = some rule := by
        rw [ruleOf, hname]
        exact ⟨_, rfl⟩
      have hmem : rule ∈ here := (hhere.mem_iff rule).2 ⟨selector, hselector, hof⟩
      obtain ⟨id?, hnames, hget⟩ := hnumbers _ _ _ _ _ _ hhere
      rw [htext] at hnames
      cases hnames with
      | some _ =>
        exact ⟨rule, hsubset hmem, _, (specificityOf?_eq hof).symm.trans hspec, hget rule hmem⟩
  default := hdefault

/-- Both colors of a compiled theme say what the theme as written says. -/
theorem compile_paints (h : compile raw = .ok t) :
    t.Paints raw ColorTable.maxForeground (·.foreground) (·.foreground) "#000000"
        t.defaults.foreground ∧
      t.Paints raw ColorTable.maxBackground (·.background) (·.background) "#FFFFFF"
        t.defaults.background := by
  obtain ⟨⟨foreground, t₁⟩, hforeground, h⟩ := Except.bind_eq_ok.1 h
  obtain ⟨⟨background, t₂⟩, hbackground, h⟩ := Except.bind_eq_ok.1 h
  obtain ⟨t₃, hbackgrounds, h⟩ := Except.bind_eq_ok.1 h
  obtain ⟨⟨rules, t₄⟩, hrules, h⟩ := Except.bind_eq_ok.1 h
  cases h
  obtain ⟨_, hforeground⟩ := ColorTable.intern_spec hforeground
  obtain ⟨hgrow₂, hbackground⟩ := ColorTable.intern_spec hbackground
  obtain ⟨hgrow₄, hcompiled⟩ := compileRules_spec hrules
  have hgrow := (internBackgrounds_grow hbackgrounds).trans hgrow₄
  constructor
  · refine hcompiled.paints (fun place r scope fg bg here hhere => ?_)
      (hforeground.grow (hgrow₂.trans hgrow))
    refine ⟨fg, hhere.hforeground, fun rule hrule => ?_⟩
    obtain ⟨selector, _, hof⟩ := (hhere.mem_iff rule).1 hrule
    obtain ⟨name, _, rfl⟩ := Option.map_eq_some_iff.1 hof
    rfl
  · refine hcompiled.paints (fun place r scope fg bg here hhere => ?_) (hbackground.grow hgrow)
    refine ⟨bg, hhere.hbackground, fun rule hrule => ?_⟩
    obtain ⟨selector, _, hof⟩ := (hhere.mem_iff rule).1 hrule
    obtain ⟨name, _, rfl⟩ := Option.map_eq_some_iff.1 hof
    rfl

end Theme

/-! ## Colors of packed tokens -/

namespace Theme

/-- The numbers that a compiled theme gives to a path fit their fields: a packed token gives them
back with the font style, and they stand for the colors that win for the path, one for each. -/
theorem compile_colors {raw : RawTheme} {t : Theme} (h : compile raw = .ok t) (path : ScopePath)
    (language : LanguageId) (type : TokenType) (balanced : Bool) :
    let style := t.style path
    let token := Metadata.pack language type balanced style.fontStyle style.foreground
      style.background
    (style.foreground ≤ ColorTable.maxForeground ∧ style.background ≤ ColorTable.maxBackground) ∧
    (token.foreground = style.foreground ∧ token.background = style.background ∧
      token.style = style.fontStyle) ∧
    (∃ text color, (∀ text', raw.Wins (·.foreground) path "#000000" text' ↔ text' = text) ∧
      Color.normalize? text = some color ∧ t.colors.get? token.foreground = some color) ∧
    ∃ text color, (∀ text', raw.Wins (·.background) path "#FFFFFF" text' ↔ text' = text) ∧
      Color.normalize? text = some color ∧ t.colors.get? token.background = some color := by
  intro style token
  obtain ⟨hforeground, hbackground⟩ := compile_paints h
  obtain ⟨fg, hfg, ⟨fgColor, hfgColor, hfgGet⟩, hfgLe⟩ := hforeground.exists_wins path
  obtain ⟨bg, hbg, ⟨bgColor, hbgColor, hbgGet⟩, hbgLe⟩ := hbackground.exists_wins path
  have htoken : token.foreground = style.foreground ∧ token.background = style.background := by
    have hlt : style.foreground < 512 := Nat.lt_succ_of_le hfgLe
    have hlt' : style.background < 256 := Nat.lt_succ_of_le hbgLe
    exact ⟨(Metadata.foreground_pack ..).trans (Nat.mod_eq_of_lt hlt),
      (Metadata.background_pack ..).trans (Nat.mod_eq_of_lt hlt')⟩
  refine ⟨⟨hfgLe, hbgLe⟩, ⟨htoken.1, htoken.2, Metadata.style_pack ..⟩,
    ⟨fg, fgColor, fun text' => ?_, hfgColor, ?_⟩, bg, bgColor, fun text' => ?_, hbgColor, ?_⟩
  · exact ⟨fun hwins => hwins.unique hfg, fun heq => heq ▸ hfg⟩
  · rw [htoken.1]
    exact hfgGet
  · exact ⟨fun hwins => hwins.unique hbg, fun heq => heq ▸ hbg⟩
  · rw [htoken.2]
    exact hbgGet

/-- Comments among words are white on blue, for the rule that names what is around them is more
specific than the one for comments alone. -/
def dusk : RawTheme where
  name := none
  settings := [
    ⟨none, none, ⟨some "#d4d4d4", some "#1e1e1e", none⟩⟩,
    ⟨none, some (.many ["string", "words comment"]), ⟨some "#fff", some " #123", none⟩⟩,
    ⟨none, some (.one "comment, keyword"), ⟨some "#6a9955", none, some "italic"⟩⟩]

theorem dusk_compiles : (compile dusk).toOption.map (fun t => (t.colors.colors,
    t.style ["words", "comment.line"])) = some (["#D4D4D4", "#1E1E1E", "#112233", "#FFFFFF",
      "#6A9955"], ⟨4, 3, { FontStyle.plain with italic := true }⟩) := by
  decide +kernel

/-- The packed token of a comment among words has the numbers of white and blue, which win. -/
theorem compile_colors_dusk : ∃ t, compile dusk = .ok t ∧
    (t.style ["words", "comment.line"]).foreground = 4 ∧
    ∃ text, (∀ text', dusk.Wins (·.foreground) ["words", "comment.line"] "#000000" text' ↔
        text' = text) ∧
      Color.normalize? text = some "#FFFFFF" := by
  have hcompiles := dusk_compiles
  cases h : compile dusk with
  | error e =>
    rw [h] at hcompiles
    cases hcompiles
  | ok t =>
    rw [h] at hcompiles
    obtain ⟨hcolors, hstyle⟩ := Prod.ext_iff.1 (Option.some.inj hcompiles)
    obtain ⟨_, ⟨hpacked, _⟩, ⟨text, color, hwins, hcolor, hget⟩, _⟩ :=
      compile_colors h ["words", "comment.line"] 1 .comment true
    have hnumber : (t.style ["words", "comment.line"]).foreground = 4 :=
      congrArg (·.foreground) hstyle
    refine ⟨t, rfl, hnumber, text, hwins, ?_⟩
    rw [hpacked, hnumber, ColorTable.get?, show t.colors.colors = _ from hcolors] at hget
    cases hget
    exact hcolor

end Theme

end Highlight
