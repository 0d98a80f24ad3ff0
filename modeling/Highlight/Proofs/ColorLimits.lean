import Highlight.Proofs.DistinctLists
import Highlight.Proofs.ThemeColors

/-!
# The colors that a theme can have

Colors of a theme are numbered in three passes over its rules, with two limits: the default colors
and the backgrounds must fit the field of backgrounds, and all colors that of foregrounds. This
module says which themes compile and how their colors are numbered.

1. `Color.Spells` says which texts are accepted for a color, and `Color.normalize?_eq_some_iff` that
   these are the texts that have a form in which they are kept.
2. Numbering one text adds its color if that is new (`ColorTable.intern_interned`), so that a table
   holds the distinct colors of the texts numbered so far. `ColorTable.Interned` says how numbering
   several texts can end, and `Interned.bind` puts runs together.
3. A theme compiles if and only if its colors are accepted and fit, and the table of the compiled
   theme holds each of them once (`Theme.compile_fits`).
-/

namespace Highlight

/-! ## Spellings of a color -/

namespace Color

/-- The digits that are meant by those that are written: six or eight stand for themselves, three or
four for pairs. -/
inductive Digits : List Char → List Char → Prop
  | all {digits : List Char} (hlength : digits.length = 6 ∨ digits.length = 8) :
      Digits digits digits
  | pairs {digits : List Char} (hlength : digits.length = 3 ∨ digits.length = 4) :
      Digits digits (digits.flatMap fun c => [c, c])

/-- A text that is accepted for a color, which is given in the form in which it is kept: blanks may
stand around it, and its digits may be in either case. -/
inductive Spells : String → String → Prop
  | intro {before digits after meant : List Char}
      (hbefore : before.all Property.isWhiteSpace = true)
      (hafter : after.all Property.isWhiteSpace = true) (hhex : digits.all Numeral.isHexDigit = true)
      (hdigits : Digits digits meant) :
      Spells (String.ofList (before ++ '#' :: digits ++ after))
        (String.ofList ('#' :: meant.map Char.toUpper))

theorem toNat_of_isHexDigit {c : Char} (h : Numeral.isHexDigit c = true) :
    (48 ≤ c.toNat ∧ c.toNat ≤ 57) ∨ (97 ≤ c.toNat ∧ c.toNat ≤ 102) ∨
      (65 ≤ c.toNat ∧ c.toNat ≤ 70) := by
  simp only [Numeral.isHexDigit_iff, Char.isDigit, Char.le_def, UInt32.le_iff_toNat_le,
    Bool.and_eq_true, decide_eq_true_eq, ge_iff_le] at h
  exact h

theorem isWhiteSpace_of_isHexDigit {c : Char} (h : Numeral.isHexDigit c = true) :
    Property.isWhiteSpace c = false := by
  have := toNat_of_isHexDigit h
  exact Property.isWhiteSpace_of_between (by omega)

theorem toUpper_of_isHexDigit {c : Char} (h : Numeral.isHexDigit c = true) :
    Numeral.isHexDigit c.toUpper = true ∧ c.toUpper.toUpper = c.toUpper := by
  have hall : ∀ n < 103, Numeral.isHexDigit (Char.ofNat n) = true →
      Numeral.isHexDigit (Char.ofNat n).toUpper = true ∧
        (Char.ofNat n).toUpper.toUpper = (Char.ofNat n).toUpper := by
    decide
  have hlt : c.toNat < 103 := by
    have := toNat_of_isHexDigit h
    omega
  have hc := hall c.toNat hlt
  rw [Char.ofNat_toNat] at hc
  exact hc h

/-- What is meant by digits is six or eight digits. -/
theorem Digits.meant {digits meant : List Char} (h : Digits digits meant)
    (hhex : digits.all Numeral.isHexDigit = true) :
    (∀ c ∈ meant, Numeral.isHexDigit c = true) ∧ (meant.length = 6 ∨ meant.length = 8) := by
  rw [List.all_eq_true] at hhex
  cases h with
  | all hlength => exact ⟨hhex, hlength⟩
  | pairs hlength =>
    refine ⟨fun c hc => ?_, ?_⟩
    · obtain ⟨d, hd, hc⟩ := List.mem_flatMap.1 hc
      have hcd : c = d := by simpa using hc
      exact hcd ▸ hhex d hd
    · rcases hlength with h | h <;> simp [List.length_flatMap, List.map_const', h]

/-- The accepted texts are those that have a form in which they are kept. -/
theorem normalize?_eq_some_iff {text color : String} :
    normalize? text = some color ↔ Spells text color := by
  constructor
  · intro h
    obtain ⟨before, after, hbefore, hafter, htext⟩ := Blank.exists_trim text.toList
    unfold normalize? at h
    split at h
    · rename_i digits htrim
      rw [htrim] at htext
      split at h
      · rename_i hhex
        rw [← String.ofList_toList (s := text), htext]
        split at h
        · rename_i hlength
          cases h
          exact .intro hbefore hafter hhex (.pairs (by simpa using hlength))
        · split at h
          · rename_i hlength
            cases h
            exact .intro hbefore hafter hhex (.all (by simpa using hlength))
          · cases h
      · cases h
    · cases h
  · rintro @⟨before, digits, after, meant, hbefore, hafter, hhex, hdigits⟩
    -- the sign and the digits are no white space, so trimming stops at them
    have htrim : Blank.trim (before ++ '#' :: digits ++ after) = '#' :: digits := by
      refine Blank.trim_append hbefore hafter (List.cons_ne_nil _ _) fun c hc => ?_
      rcases List.mem_cons.1 hc with rfl | hc
      · decide
      · exact isWhiteSpace_of_isHexDigit (List.all_eq_true.1 hhex c hc)
    rw [normalize?, String.toList_ofList, htrim]
    simp only [hhex, if_true]
    cases hdigits with
    | all hlength => rcases hlength with h | h <;> simp [h]
    | pairs hlength => rcases hlength with h | h <;> simp [h]

/-- The form in which a color is kept is one that is accepted for it. -/
theorem Spells.kept {text color : String} (h : Spells text color) : Spells color color := by
  obtain @⟨_, digits, _, meant, _, _, hhex, hdigits⟩ := h
  obtain ⟨hmeant, hlength⟩ := hdigits.meant hhex
  have hupper : (meant.map Char.toUpper).map Char.toUpper = meant.map Char.toUpper := by
    rw [List.map_map]
    exact List.map_congr_left fun c hc => (toUpper_of_isHexDigit (hmeant c hc)).2
  have hhex' : (meant.map Char.toUpper).all Numeral.isHexDigit = true :=
    List.all_eq_true.2
      (List.forall_mem_map.2 fun c hc => (toUpper_of_isHexDigit (hmeant c hc)).1)
  have hkept := @Spells.intro [] _ [] _ rfl rfl hhex' (.all (by simpa using hlength))
  rwa [hupper, List.append_nil, List.nil_append] at hkept

/-- The colors of texts, each in the place of its first text. -/
def distinct (texts : List String) : List String := (texts.filterMap normalize?).eraseDups

theorem mem_distinct {texts : List String} {color : String} :
    color ∈ distinct texts ↔ ∃ text ∈ texts, Spells text color := by
  simp only [distinct, List.mem_eraseDups, List.mem_filterMap, normalize?_eq_some_iff]

theorem distinct_prefix (texts more : List String) :
    distinct texts <+: distinct (texts ++ more) := by
  rw [distinct, distinct, List.filterMap_append, List.eraseDups_append]
  exact List.prefix_append _ _

theorem nodup_distinct (texts : List String) : (distinct texts).Nodup := nodup_eraseDups _

theorem length_distinct_le (texts : List String) : (distinct texts).length ≤ texts.length :=
  Nat.le_trans (length_eraseDups_le _) (List.length_filterMap_le _ _)

theorem filterMap_concat {text color : String} (texts : List String) (h : Spells text color) :
    (texts ++ [text]).filterMap normalize? = texts.filterMap normalize? ++ [color] := by
  rw [List.filterMap_append, List.filterMap_cons_some (normalize?_eq_some_iff.2 h),
    List.filterMap_nil]

theorem distinct_concat_of_mem {text color : String} {texts : List String} (h : Spells text color)
    (hmem : color ∈ distinct texts) : distinct (texts ++ [text]) = distinct texts := by
  rw [distinct, filterMap_concat texts h,
    eraseDups_concat_of_mem (List.mem_eraseDups.1 hmem), distinct]

theorem distinct_concat_of_not_mem {text color : String} {texts : List String}
    (h : Spells text color) (hnew : color ∉ distinct texts) :
    distinct (texts ++ [text]) = distinct texts ++ [color] := by
  rw [distinct, filterMap_concat texts h,
    eraseDups_concat_of_not_mem (mt List.mem_eraseDups.2 hnew), distinct]

end Color

/-! ## Numbering -/

namespace ColorTable

variable {t : ColorTable} {most : Nat} {overflow : Nat → ThemeError} {color : String} {id : Nat}

/-- Without repeats, the color with a number has that number. -/
theorem number?_eq_some_iff (hnodup : t.colors.Nodup) :
    t.number? color = some id ↔ t.get? id = some color := by
  cases id with
  | zero => simp [number?, get?]
  | succ place =>
    simp only [number?, get?, Option.map_eq_some_iff, Nat.succ_ne_zero, if_false,
      Nat.add_sub_cancel, Nat.succ.injEq, exists_eq_right, List.getElem?_eq_some_iff]
    rw [List.findIdx?_eq_some_iff_getElem]
    constructor
    · rintro ⟨hlt, hfound, -⟩
      exact ⟨hlt, beq_iff_eq.1 hfound⟩
    · rintro ⟨hlt, rfl⟩
      refine ⟨hlt, beq_self_eq_true _, fun j hj hfound => ?_⟩
      exact Nat.ne_of_lt hj ((hnodup.getElem_inj_iff).1 (beq_iff_eq.1 hfound))

/-- A color of the table has a number, which counts the colors up to it. -/
theorem exists_number? (h : color ∈ t.colors) :
    ∃ id, t.number? color = some id ∧ id ≤ t.colors.length := by
  cases hid : t.number? color with
  | none =>
    rw [number?, Option.map_eq_none_iff, List.findIdx?_eq_none_iff] at hid
    simpa using hid color h
  | some id =>
    obtain ⟨place, hplace, rfl⟩ := Option.map_eq_some_iff.1 hid
    obtain ⟨hlt, -⟩ := List.findIdx?_eq_some_iff_getElem.1 hplace
    exact ⟨place + 1, rfl, hlt⟩

theorem mem_of_get? (h : t.get? id = some color) : color ∈ t.colors := by
  unfold get? at h
  split at h
  · cases h
  · exact List.mem_of_getElem? h

theorem number?_eq_none (h : color ∉ t.colors) : t.number? color = none := by
  simpa [number?] using fun x hx => ne_of_mem_of_not_mem hx h

/-- A color keeps its number when the table grows. -/
theorem number?_grow {t' : ColorTable} (hgrow : t.colors <+: t'.colors)
    (h : t.number? color = some id) : t'.number? color = some id := by
  obtain ⟨more, hmore⟩ := hgrow
  obtain ⟨place, hplace, rfl⟩ := Option.map_eq_some_iff.1 h
  rw [number?, ← hmore, List.findIdx?_append, hplace]
  rfl

/-- What can come of numbering texts one after another in a table with the colors of the texts
`seen`: all of them are accepted and their colors fit, or one is not accepted, or the colors are too
many. What is left of a run that succeeds may hold more than the table. -/
inductive Interned {α : Type} (table : α → ColorTable) (most : Nat) (overflow : Nat → ThemeError)
    (seen texts : List String) : Except ThemeError α → Prop
  | fits {a : α} (hvalid : ∀ text ∈ texts, ∃ color, Color.Spells text color)
      (hle : (Color.distinct (seen ++ texts)).length ≤ most)
      (hcolors : (table a).colors = Color.distinct (seen ++ texts)) :
      Interned table most overflow seen texts (.ok a)
  | invalid {text : String} (htext : text ∈ texts) (hnone : ∀ color, ¬Color.Spells text color) :
      Interned table most overflow seen texts (.error (.invalidColor text))
  | full (hlt : most < (Color.distinct (seen ++ texts)).length) :
      Interned table most overflow seen texts (.error (overflow (most + 1)))

namespace Interned

variable {α β : Type} {table : α → ColorTable} {table' : β → ColorTable}
  {seen texts more : List String} {m : Except ThemeError α} {f : α → Except ThemeError β}

theorem done {a : α} (hcolors : (table a).colors = Color.distinct seen)
    (hle : (table a).colors.length ≤ most) : Interned table most overflow seen [] (.ok a) := by
  refine .fits nofun ?_ ?_
  · rwa [List.append_nil, ← hcolors]
  · rwa [List.append_nil]

/-- What holds of a run that goes on after texts: they end it, or all of them have been numbered. -/
theorem bind_elim {P : Except ThemeError β → Prop}
    (h : Interned table most overflow seen texts m)
    (hinvalid : ∀ text ∈ texts, (∀ color, ¬Color.Spells text color) →
      P (.error (.invalidColor text)))
    (hfull : most < (Color.distinct (seen ++ texts)).length → P (.error (overflow (most + 1))))
    (hfits : ∀ a, (∀ text ∈ texts, ∃ color, Color.Spells text color) →
      (table a).colors = Color.distinct (seen ++ texts) → (table a).colors.length ≤ most →
      P (f a)) : P (m >>= f) := by
  cases h with
  | fits hvalid hle hcolors => exact hfits _ hvalid hcolors (hcolors ▸ hle)
  | invalid htext hnone => exact hinvalid _ htext hnone
  | full hlt => exact hfull hlt

/-- No limit is met by fewer texts than it allows. -/
theorem within {most' : Nat} {overflow' : Nat → ThemeError}
    (h : Interned table most overflow seen texts m) (hmost : (seen ++ texts).length ≤ most)
    (hmost' : (seen ++ texts).length ≤ most') : Interned table most' overflow' seen texts m := by
  have hlength := Color.length_distinct_le (seen ++ texts)
  cases h with
  | fits hvalid _ hcolors => exact .fits hvalid (Nat.le_trans hlength hmost') hcolors
  | invalid htext hnone => exact .invalid htext hnone
  | full hlt => exact absurd (Nat.le_trans hlength hmost) (Nat.not_le.2 hlt)

/-- Numbering goes on with more texts. -/
theorem bind (h : Interned table most overflow seen texts m)
    (hf : ∀ a, (table a).colors = Color.distinct (seen ++ texts) →
      (table a).colors.length ≤ most → Interned table' most overflow (seen ++ texts) more (f a)) :
    Interned table' most overflow seen (texts ++ more) (m >>= f) := by
  refine h.bind_elim (fun text htext hnone => ?_) (fun hlt => ?_) fun a hvalid hcolors hle => ?_
  · exact .invalid (List.mem_append_left more htext) hnone
  · refine .full (Nat.lt_of_lt_of_le hlt ?_)
    rw [← List.append_assoc]
    exact (Color.distinct_prefix _ more).length_le
  · have hmore := hf a hcolors hle
    generalize f a = r at hmore ⊢
    cases hmore with
    | fits hvalid' hle hcolors =>
      rw [List.append_assoc] at hle hcolors
      exact .fits (List.forall_mem_append.2 ⟨hvalid, hvalid'⟩) hle hcolors
    | invalid htext hnone => exact .invalid (List.mem_append_right texts htext) hnone
    | full hlt => exact .full (List.append_assoc .. ▸ hlt)

theorem map (h : Interned table most overflow seen texts m)
    (hf : ∀ a, ∃ b, f a = .ok b ∧ table' b = table a) :
    Interned table' most overflow seen texts (m >>= f) := by
  refine h.bind_elim (fun _ => .invalid) .full fun a hvalid hcolors hle => ?_
  obtain ⟨b, hb, htable⟩ := hf a
  rw [hb]
  exact .fits hvalid (hcolors ▸ hle) ((congrArg colors htable).trans hcolors)

end Interned

variable {seen : List String}

/-- What numbering one text comes to. -/
theorem intern_interned (overflow : Nat → ThemeError) (text : String)
    (hcolors : t.colors = Color.distinct seen) (hle : t.colors.length ≤ most) :
    Interned Prod.snd most overflow seen [text] (t.intern most overflow text) := by
  unfold intern
  split
  · rename_i hnone
    refine .invalid List.mem_cons_self fun color hspells => ?_
    rw [Color.normalize?_eq_some_iff.2 hspells] at hnone
    cases hnone
  · rename_i color hcolor
    have hspells := Color.normalize?_eq_some_iff.1 hcolor
    have hvalid : ∀ text' ∈ [text], ∃ color, Color.Spells text' color :=
      List.forall_mem_singleton.2 ⟨color, hspells⟩
    by_cases hmem : color ∈ Color.distinct seen
    · -- the color is there, so its number is one of the table, and these fit
      obtain ⟨id, hid, hidle⟩ := exists_number? (hcolors ▸ hmem)
      have hnext := Color.distinct_concat_of_mem hspells hmem
      rw [hid]
      dsimp only
      rw [if_neg (Nat.not_lt.2 (Nat.le_trans hidle hle))]
      exact .fits hvalid (by rwa [hnext, ← hcolors]) (hcolors.trans hnext.symm)
    · have hnext := Color.distinct_concat_of_not_mem hspells hmem
      rw [← hcolors] at hnext
      have hlength : (Color.distinct (seen ++ [text])).length = t.colors.length + 1 := by
        rw [hnext, List.length_append, List.length_singleton]
      rw [number?_eq_none (hcolors ▸ hmem)]
      dsimp only
      split
      · -- the first number beyond the limit is the only one that can be refused
        rename_i hlt
        have hfull : t.colors.length = most := by omega
        rw [hfull]
        exact .full (by omega)
      · exact .fits hvalid (by omega) hnext.symm

/-- A color that may be missing adds no color of its own. -/
theorem internOptional_interned (overflow : Nat → ThemeError) (text? : Option String)
    (hcolors : t.colors = Color.distinct seen) (hle : t.colors.length ≤ most) :
    Interned Prod.snd most overflow seen text?.toList
      (Theme.internOptional (fun t => t.intern most overflow) t text?) := by
  cases text? with
  | none => exact .done hcolors hle
  | some text =>
    exact (intern_interned overflow text hcolors hle).map fun a => ⟨(some a.1, a.2), rfl, rfl⟩

/-- A color among the first ones of a table has a number that fits, whatever came after it. -/
theorem internOptional_known {known : List String} (overflow : Nat → ThemeError)
    (text? : Option String) (hgrow : known <+: t.colors) (hle : known.length ≤ most)
    (htext : ∀ text ∈ text?.toList, ∃ color ∈ known, Color.Spells text color) :
    ∃ id?, Theme.internOptional (fun t => t.intern most overflow) t text? = .ok (id?, t) := by
  cases text? with
  | none => exact ⟨none, rfl⟩
  | some text =>
    obtain ⟨color, hmem, hspells⟩ := htext text List.mem_cons_self
    obtain ⟨id, hid, hidle⟩ := @exists_number? ⟨known⟩ color hmem
    have hintern : t.intern most overflow text = .ok (id, t) := by
      rw [intern, Color.normalize?_eq_some_iff.2 hspells]
      dsimp only
      rw [number?_grow hgrow hid]
      exact if_neg (Nat.not_lt.2 (Nat.le_trans hidle hle))
    exact ⟨some id, Except.bind_eq_ok.2 ⟨(id, t), hintern, rfl⟩⟩

end ColorTable

/-! ## Colors of a theme -/

namespace RawTheme

/-- The color that the rules without selectors make a default: the one that the last of them to set
the color sets, or else the fallback. -/
inductive DefaultColor (raw : RawTheme) (get : RawThemeSettings → Option String)
    (fallback : String) : String → Prop
  | rule {earlier later : List RawThemeRule} {r : RawThemeRule} {text : String}
      (hsettings : raw.settings = earlier ++ r :: later) (hdefault : Theme.isDefault r = true)
      (htext : get r.settings = some text)
      (hlast : ∀ r' ∈ later, Theme.isDefault r' = true → get r'.settings = none) :
      DefaultColor raw get fallback text
  | fallback (hnone : ∀ r ∈ raw.settings, Theme.isDefault r = true → get r.settings = none) :
      DefaultColor raw get fallback fallback

variable {raw : RawTheme} {get : RawThemeSettings → Option String} {fallback text : String}

theorem defaultColor_iff : raw.DefaultColor get fallback text ↔
    Theme.lastSet get fallback (raw.settings.filter Theme.isDefault) = text := by
  rw [Theme.lastSet, List.filterMap_filter, List.getLast?_filterMap]
  constructor
  · rintro (@⟨earlier, later, r, _, hsettings, hdefault, htext, hlast⟩ | hnone)
    · rw [List.findSome?_eq_some_iff.2 ⟨later.reverse, r, earlier.reverse, by simp [hsettings],
        (if_pos hdefault).trans htext, by simpa using hlast⟩]
      rfl
    · rw [List.findSome?_eq_none_iff.2 (by simpa using hnone)]
      rfl
  · intro h
    cases hfound : raw.settings.reverse.findSome?
        (fun r => if Theme.isDefault r = true then get r.settings else none) with
    | none =>
      rw [hfound] at h
      subst h
      exact .fallback (by simpa using List.findSome?_eq_none_iff.1 hfound)
    | some found =>
      rw [hfound] at h
      subst h
      obtain ⟨later, r, earlier, hsplit, hset, hlast⟩ := List.findSome?_eq_some_iff.1 hfound
      split at hset
      · rename_i hdefault
        have hsettings : raw.settings = earlier.reverse ++ r :: later.reverse := by
          rw [← List.reverse_reverse raw.settings, hsplit]
          simp
        exact .rule hsettings hdefault hset (by simpa using hlast)
      · cases hset

end RawTheme

namespace Theme

/-- The colors that rules with scopes set, in the order of the rules. -/
def declared (get : RawThemeSettings → Option String) (rules : List RawThemeRule) : List String :=
  (rules.filter (·.scope.isSome)).filterMap fun r => get r.settings

variable {get : RawThemeSettings → Option String} {r : RawThemeRule} {rs : List RawThemeRule}

theorem declared_cons_none (h : r.scope = none) : declared get (r :: rs) = declared get rs := by
  simp [declared, h]

theorem declared_cons_some {scope : RawThemeScope} (h : r.scope = some scope) :
    declared get (r :: rs) = (get r.settings).toList ++ declared get rs := by
  cases hget : get r.settings <;> simp [declared, h, hget]

open ColorTable

theorem internBackgrounds_interned : ∀ {rs : List RawThemeRule} {t : ColorTable}
    {seen : List String}, t.colors = Color.distinct seen → t.colors.length ≤ maxBackground →
      Interned id maxBackground .tooManyBackgrounds seen (declared (·.background) rs)
        (internBackgrounds t rs)
  | [], _, _, hcolors, hle => .done hcolors hle
  | r :: rs, t, seen, hcolors, hle => by
    unfold internBackgrounds
    split
    · rename_i scope background hscope hbackground
      rw [declared_cons_some hscope, hbackground]
      exact (intern_interned _ background hcolors hle).bind fun _ => internBackgrounds_interned
    · rename_i hnot
      have hdeclared : declared (·.background) (r :: rs) = declared (·.background) rs := by
        cases hscope : r.scope with
        | none => exact declared_cons_none hscope
        | some scope =>
          rw [declared_cons_some hscope]
          cases hbackground : r.settings.background with
          | none => rfl
          | some background => exact absurd hbackground (hnot scope background hscope)
      rw [hdeclared]
      exact internBackgrounds_interned hcolors hle

/-- The backgrounds are numbered by now, so only the foregrounds can be new. -/
theorem compileRules_interned {first : List String}
    (hfirst : (Color.distinct first).length ≤ maxBackground) :
    ∀ {rs : List RawThemeRule} (index : Nat) {t : ColorTable} {seen : List String},
      t.colors = Color.distinct (first ++ seen) → t.colors.length ≤ maxForeground →
      (∀ text ∈ declared (·.background) rs, ∃ color ∈ Color.distinct first,
        Color.Spells text color) →
      Interned Prod.snd maxForeground .tooManyColors (first ++ seen) (declared (·.foreground) rs)
        (compileRules index t rs)
  | [], _, _, _, hcolors, hle, _ => .done hcolors hle
  | r :: rs, index, t, seen, hcolors, hle, hknown => by
    unfold compileRules
    split
    · rename_i hscope
      rw [declared_cons_none hscope] at hknown ⊢
      exact compileRules_interned hfirst (index + 1) hcolors hle hknown
    · rename_i scope hscope
      rw [declared_cons_some hscope] at hknown ⊢
      obtain ⟨hhere, hrest⟩ := List.forall_mem_append.1 hknown
      refine (internOptional_interned _ r.settings.foreground hcolors hle).bind ?_
      rintro ⟨foreground, t₁⟩ hcolors₁ hle₁
      rw [List.append_assoc] at hcolors₁ ⊢
      -- the background is among the first colors, whose numbers stay within the smaller limit
      obtain ⟨background, hbackground⟩ := internOptional_known .tooManyBackgrounds
        r.settings.background (hcolors₁ ▸ Color.distinct_prefix first _) hfirst hhere
      dsimp only
      rw [show internOptional internBackground t₁ r.settings.background = .ok (background, t₁) from
        hbackground]
      exact (compileRules_interned hfirst (index + 1) hcolors₁ hle₁ hrest).map
        fun a => ⟨_, rfl, rfl⟩

/-- Numbers the default colors and the backgrounds. -/
def internFirst (foreground background : String) (rules : List RawThemeRule) :
    Except ThemeError (Nat × Nat × ColorTable) := do
  let (foreground, t) ← ColorTable.empty.internForeground foreground
  let (background, t) ← t.internBackground background
  let t ← internBackgrounds t rules
  return (foreground, background, t)

theorem compile_eq (raw : RawTheme) :
    let defaults := raw.settings.filter isDefault
    compile raw = (do
      let (foreground, background, t) ← internFirst (lastSet (·.foreground) "#000000" defaults)
        (lastSet (·.background) "#FFFFFF" defaults) raw.settings
      let (rules, t) ← compileRules 0 t raw.settings
      return ⟨raw.name, ⟨foreground, background, lastSet (fun s => s.fontStyle.map FontStyle.parse)
        FontStyle.plain defaults⟩, rules, t⟩) := by
  simp only [compile, internFirst, bind_assoc, pure_bind]

theorem internFirst_interned (foreground background : String) (rules : List RawThemeRule) :
    Interned (·.2.2) maxBackground .tooManyBackgrounds []
      ([foreground, background] ++ declared (·.background) rules)
      (internFirst foreground background rules) := by
  have hempty : ColorTable.empty.colors = Color.distinct [] := rfl
  -- the default foreground is the first color, so the smaller limit does for it as well
  have hforeground : Interned Prod.snd maxBackground .tooManyBackgrounds [] [foreground]
      (ColorTable.empty.internForeground foreground) :=
    (intern_interned _ foreground hempty (Nat.zero_le _)).within
      (by simp [maxForeground]) (by simp [maxBackground])
  refine hforeground.bind fun x hcolors hle => ?_
  refine (intern_interned _ background hcolors hle).bind fun y hcolors hle => ?_
  exact (internBackgrounds_interned hcolors hle).map fun t => ⟨_, rfl, rfl⟩

/-- What compiling a theme comes to, whose defaults and backgrounds are the texts `first`, and its
foregrounds `rest`. -/
inductive Outcome (first rest : List String) : Except ThemeError Theme → Prop
  | fits {t : Theme} (hvalid : ∀ text ∈ first ++ rest, ∃ color, Color.Spells text color)
      (hfirst : (Color.distinct first).length ≤ maxBackground)
      (hall : (Color.distinct (first ++ rest)).length ≤ maxForeground)
      (hcolors : t.colors.colors = Color.distinct (first ++ rest)) : Outcome first rest (.ok t)
  | invalid {text : String} (htext : text ∈ first ++ rest)
      (hnone : ∀ color, ¬Color.Spells text color) : Outcome first rest (.error (.invalidColor text))
  | backgrounds (hlt : maxBackground < (Color.distinct first).length) :
      Outcome first rest (.error (.tooManyBackgrounds (maxBackground + 1)))
  | colors (hle : (Color.distinct first).length ≤ maxBackground)
      (hlt : maxForeground < (Color.distinct (first ++ rest)).length) :
      Outcome first rest (.error (.tooManyColors (maxForeground + 1)))

theorem compile_outcome {raw : RawTheme} {foreground background : String}
    (hforeground : raw.DefaultColor (·.foreground) "#000000" foreground)
    (hbackground : raw.DefaultColor (·.background) "#FFFFFF" background) :
    Outcome ([foreground, background] ++ declared (·.background) raw.settings)
      (declared (·.foreground) raw.settings) (compile raw) := by
  rw [compile_eq, RawTheme.defaultColor_iff.1 hforeground, RawTheme.defaultColor_iff.1 hbackground]
  have hinterned := internFirst_interned foreground background raw.settings
  generalize hfirst : [foreground, background] ++ declared (·.background) raw.settings = first
    at hinterned ⊢
  refine hinterned.bind_elim (fun text htext => .invalid (List.mem_append_left _ htext))
    .backgrounds ?_
  rintro ⟨foregroundId, backgroundId, t⟩ hvalid hcolors hle
  have hle' : (Color.distinct first).length ≤ maxBackground := hcolors ▸ hle
  have hknown : ∀ text ∈ declared (·.background) raw.settings,
      ∃ color ∈ Color.distinct first, Color.Spells text color := by
    intro text htext
    have hmem : text ∈ first := hfirst ▸ List.mem_append_right _ htext
    obtain ⟨color, hcolor⟩ := hvalid text hmem
    exact ⟨color, Color.mem_distinct.2 ⟨text, hmem, hcolor⟩, hcolor⟩
  rw [List.nil_append, ← List.append_nil first] at hcolors
  have hrules := compileRules_interned hle' 0 hcolors (Nat.le_trans hle (by decide)) hknown
  rw [List.append_nil] at hrules
  refine hrules.bind_elim (fun text htext => .invalid (List.mem_append_right _ htext))
    (.colors hle') ?_
  rintro ⟨rules, t'⟩ hvalid' hcolors' hall
  exact .fits (List.forall_mem_append.2 ⟨hvalid, hvalid'⟩) hle' (hcolors' ▸ hall) hcolors'

/-- A theme compiles if and only if all its colors are accepted and fit: the default colors and the
backgrounds, which come first, the field of backgrounds, and all of them the field of foregrounds.
Then they are numbered in this order, and a color has one number, however it is spelled. A theme
with too many of both is refused for its backgrounds. -/
theorem compile_fits {raw : RawTheme} {foreground background : String}
    (hforeground : raw.DefaultColor (·.foreground) "#000000" foreground)
    (hbackground : raw.DefaultColor (·.background) "#FFFFFF" background) :
    let first := [foreground, background] ++ declared (·.background) raw.settings
    let all := first ++ declared (·.foreground) raw.settings
    let valid := ∀ text ∈ all, ∃ color, Color.Spells text color
    ((∃ t, compile raw = .ok t) ↔ valid ∧ (Color.distinct first).length ≤ 255 ∧
      (Color.distinct all).length ≤ 511) ∧
    (∀ t, compile raw = .ok t →
      t.colors.colors = Color.distinct all ∧ t.colors.colors.Nodup ∧
      (∀ text color id, Color.Spells text color →
        (t.colors.idOf? text = some id ↔ t.colors.get? id = some color)) ∧
      ∀ id color, t.colors.get? id = some color → t.colors.idOf? color = some id) ∧
    (valid → 255 < (Color.distinct first).length →
      compile raw = .error (.tooManyBackgrounds 256)) ∧
    (valid → (Color.distinct first).length ≤ 255 → 511 < (Color.distinct all).length →
      compile raw = .error (.tooManyColors 512)) := by
  intro first all valid
  have houtcome : Outcome first (declared (·.foreground) raw.settings) (compile raw) :=
    compile_outcome hforeground hbackground
  generalize compile raw = outcome at houtcome ⊢
  cases houtcome with
  | @fits t hvalid hfirst hall hcolors =>
    refine ⟨⟨fun _ => ⟨hvalid, hfirst, hall⟩, fun _ => ⟨t, rfl⟩⟩, ?_,
      fun _ hlt => absurd hfirst (Nat.not_le.2 hlt),
      fun _ _ hlt => absurd hall (Nat.not_le.2 hlt)⟩
    rintro _ ⟨⟩
    have hnodup : t.colors.colors.Nodup := hcolors ▸ Color.nodup_distinct all
    have hnumber : ∀ text color id, Color.Spells text color →
        (t.colors.idOf? text = some id ↔ t.colors.get? id = some color) := by
      intro text color id hspells
      rw [idOf?, Color.normalize?_eq_some_iff.2 hspells]
      exact number?_eq_some_iff hnodup
    refine ⟨hcolors, hnodup, hnumber, fun id color hget => ?_⟩
    have hmem : color ∈ Color.distinct all := hcolors ▸ mem_of_get? hget
    obtain ⟨text, _, hspells⟩ := Color.mem_distinct.1 hmem
    exact (hnumber color color id hspells.kept).2 hget
  | @invalid text htext hnone =>
    have hnot : ¬valid := fun hvalid => (hvalid text htext).elim hnone
    exact ⟨⟨nofun, fun h => absurd h.1 hnot⟩, nofun, fun h => absurd h hnot,
      fun h => absurd h hnot⟩
  | backgrounds hlt =>
    exact ⟨⟨nofun, fun h => absurd h.2.1 (Nat.not_le.2 hlt)⟩, nofun, fun _ _ => rfl,
      fun _ hle => absurd hle (Nat.not_le.2 hlt)⟩
  | colors hle hlt =>
    exact ⟨⟨nofun, fun h => absurd h.2.2 (Nat.not_le.2 hlt)⟩, nofun,
      fun _ hlt' => absurd hle (Nat.not_le.2 hlt'), fun _ _ _ => rfl⟩

/-- A rule whose scopes are blank sets the default foreground, which is a color of a rule with a
scope as well. -/
def dawn : RawTheme where
  name := none
  settings := [
    ⟨none, none, ⟨some "#fff", some "#000", none⟩⟩,
    ⟨none, some (.one "comment"), ⟨some "#FFFFFF", some " #0a0B0c ", none⟩⟩,
    ⟨none, some (.many [" , "]), ⟨some "#abc", none, none⟩⟩]

/-- The color of comments is new, for the first rule is not the last one that sets a default. -/
theorem compile_fits_dawn : ∃ t, compile dawn = .ok t ∧
    t.colors.colors = ["#AABBCC", "#000000", "#0A0B0C", "#FFFFFF"] ∧
    t.colors.idOf? "#FfF" = some 4 := by
  have hforeground : dawn.DefaultColor (·.foreground) "#000000" "#abc" :=
    RawTheme.defaultColor_iff.2 rfl
  have hbackground : dawn.DefaultColor (·.background) "#FFFFFF" "#000" :=
    RawTheme.defaultColor_iff.2 rfl
  have hfirst : ["#abc", "#000"] ++ declared (·.background) dawn.settings =
      ["#abc", "#000", " #0a0B0c "] := rfl
  have hrest : declared (·.foreground) dawn.settings = ["#FFFFFF", "#abc"] := rfl
  obtain ⟨hfits, hcompiled, -⟩ := compile_fits hforeground hbackground
  rw [hfirst, hrest] at hfits hcompiled
  have hall : Color.distinct (["#abc", "#000", " #0a0B0c "] ++ ["#FFFFFF", "#abc"]) =
      ["#AABBCC", "#000000", "#0A0B0C", "#FFFFFF"] := by
    decide +kernel
  have hvalid : ∀ text ∈ ["#abc", "#000", " #0a0B0c "] ++ ["#FFFFFF", "#abc"],
      ∃ color, Color.Spells text color := by
    simp only [← Color.normalize?_eq_some_iff, ← Option.isSome_iff_exists]
    decide +kernel
  obtain ⟨t, ht⟩ : ∃ t, compile dawn = .ok t := by
    refine hfits.2 ⟨hvalid, Nat.le_trans (Color.length_distinct_le _) (by decide), ?_⟩
    rw [hall]
    decide
  obtain ⟨hcolors, -, hnumber, -⟩ := hcompiled t ht
  rw [hall] at hcolors
  refine ⟨t, ht, hcolors, (hnumber _ "#FFFFFF" 4 (Color.normalize?_eq_some_iff.1 rfl)).2 ?_⟩
  rw [ColorTable.get?, hcolors]
  rfl

end Theme

end Highlight
