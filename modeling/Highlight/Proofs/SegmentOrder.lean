import Highlight.Scope.Name

/-!
# Matching of scope names is the order of their segments

A selector name is compared with a scope by bytes: the scope has to start with its bytes, and the
byte behind them has to be a dot. What is meant are the segments: those of the selector are the
first ones of the scope.

1. `Scope.covers?_eq_some`, `Scope.covers_iff`: the byte behind the selector is looked at only where
   the scope has one, and it is a dot if and only if the scope goes on with the character after the
   selector. UTF-8 allows no other characters in the place of the same bytes (`utf8_prefix_iff`).
2. `Scope.segments_eq_iff`: the segments are the texts without dots that the name joins. Empty ones
   count, so `a.` has two segments, and the empty name has none.
3. `Scope.covers_iff_segments`: a name starts with a selector and a dot if and only if its segments
   start with those of the selector and go on.
4. `Scope.covers_prefix_order`: so matching is a partial order on the names that are not empty, and
   a selector has no more segments than a scope that it matches.
-/

namespace Highlight

namespace Scope

/-! ## Bytes -/

theorem append_singleton_prefix_iff {α : Type} {l m : List α} {a : α} :
    l ++ [a] <+: m ↔ l <+: m ∧ m[l.length]? = some a := by
  constructor
  · rintro ⟨rest, rfl⟩
    simp
  · rintro ⟨⟨rest, rfl⟩, h⟩
    rw [List.getElem?_append_right (Nat.le_refl _), Nat.sub_self, ← List.head?_eq_getElem?] at h
    rwa [List.prefix_append_right_inj, List.singleton_prefix_iff_head?_eq_some]

/-- A scope starts with the selector and a dot if and only if its bytes start with those of the
selector and the next one is a dot. -/
theorem append_dot_prefix_iff {selector scope : ScopeName} :
    selector.toList ++ ['.'] <+: scope.toList ↔ utf8 selector.toList <+: utf8 scope.toList ∧
      (utf8 scope.toList)[selector.utf8ByteSize]? = some '.'.toUInt8 := by
  have hdot : utf8 ['.'] = ['.'.toUInt8] := rfl
  rw [← utf8_prefix_iff, utf8_append, hdot, append_singleton_prefix_iff, length_utf8_toList]

/-- There is an answer for all names, and it is yes for a selector that is not empty if the scope
equals it or starts with it and a dot. -/
theorem exists_covers? (selector scope : ScopeName) : ∃ answer,
    covers? selector scope = some answer ∧ (answer = true ↔
      selector ≠ "" ∧ (scope = selector ∨ selector.toList ++ ['.'] <+: scope.toList)) := by
  unfold covers?
  by_cases hempty : selector = ""
  · exact ⟨false, by simp [hempty], by simp [hempty]⟩
  by_cases hsame : scope = selector
  · exact ⟨true, by simp [hempty, hsame], by simp [hempty, hsame]⟩
  rw [if_neg (by simpa using hempty), if_neg (by simpa using hsame), append_dot_prefix_iff]
  split
  · next hstarts =>
    rw [Bool.and_eq_true, decide_eq_true_eq, List.isPrefixOf_iff_prefix] at hstarts
    obtain ⟨hlonger, hprefix⟩ := hstarts
    -- the byte behind the selector is one of the scope, which is longer
    obtain ⟨b, hb⟩ : ∃ b, (utf8 scope.toList)[selector.utf8ByteSize]? = some b :=
      ⟨_, List.getElem?_eq_getElem (by rwa [length_utf8_toList])⟩
    refine ⟨b == '.'.toUInt8, by rw [hb, Option.map_some], ?_⟩
    simp [hempty, hsame, hprefix, hb]
  · next hstarts =>
    refine ⟨false, rfl, ?_⟩
    simp only [Bool.false_eq_true, false_iff, not_and, not_or]
    refine fun _ => ⟨hsame, fun hprefix hdot => hstarts ?_⟩
    obtain ⟨hlonger, -⟩ := List.getElem?_eq_some_iff.1 hdot
    rw [length_utf8_toList] at hlonger
    rw [Bool.and_eq_true, decide_eq_true_eq, List.isPrefixOf_iff_prefix]
    exact ⟨hlonger, hprefix⟩

theorem covers?_eq_some (selector scope : ScopeName) :
    covers? selector scope = some (covers selector scope) := by
  obtain ⟨answer, h, -⟩ := exists_covers? selector scope
  rw [covers, h, Option.getD_some]

theorem covers_iff {selector scope : ScopeName} : covers selector scope = true ↔
    selector ≠ "" ∧ (scope = selector ∨ selector.toList ++ ['.'] <+: scope.toList) := by
  obtain ⟨answer, h, hanswer⟩ := exists_covers? selector scope
  rw [covers, h, Option.getD_some, hanswer]

/-! ## Segments -/

theorem segments_of_ne {scope : ScopeName} (h : scope ≠ "") :
    segments scope = Blank.split '.' scope :=
  if_neg (by simpa using h)

theorem segments_eq_iff {scope : ScopeName} {pieces : List String} :
    segments scope = pieces ↔ ".".intercalate pieces = scope ∧
      (∀ piece ∈ pieces, '.' ∉ piece.toList) ∧ pieces ≠ [""] := by
  constructor
  · rintro rfl
    by_cases hempty : scope = ""
    · simp [hempty, segments]
    · rw [segments_of_ne hempty]
      have hjoin : ".".intercalate (Blank.split '.' scope) = scope :=
        Blank.intercalate_split '.' scope
      refine ⟨hjoin, fun piece => Blank.not_mem_of_mem_split, fun hone => hempty ?_⟩
      rw [← hjoin, hone, String.intercalate_singleton]
  · rintro ⟨rfl, hdots, hne⟩
    by_cases hnil : pieces = []
    · subst hnil
      rfl
    · have hsplit : Blank.split '.' (".".intercalate pieces) = pieces :=
        Blank.split_intercalate hnil hdots
      rw [segments_of_ne, hsplit]
      -- otherwise the only piece would be empty
      intro hempty
      rw [hempty] at hsplit
      exact hne hsplit.symm

theorem intercalate_segments (scope : ScopeName) : ".".intercalate (segments scope) = scope :=
  (segments_eq_iff.1 rfl).1

theorem segments_injective {a b : ScopeName} (h : segments a = segments b) : a = b := by
  rw [← intercalate_segments a, h, intercalate_segments]

theorem segments_ne_nil {scope : ScopeName} (h : scope ≠ "") : segments scope ≠ [] := by
  intro hnil
  apply h
  rw [← intercalate_segments scope, hnil, String.intercalate_nil]

theorem segments_append_dot {selector : ScopeName} (h : selector ≠ "") (rest : String) :
    segments (selector ++ "." ++ rest) = segments selector ++ Blank.split '.' rest := by
  rw [segments_of_ne h, segments_of_ne]
  · exact Blank.split_append_separator '.' selector rest
  · simp [h]

theorem append_dot_prefix_iff_exists {selector scope : ScopeName} :
    selector.toList ++ ['.'] <+: scope.toList ↔ ∃ rest, scope = selector ++ "." ++ rest := by
  constructor
  · rintro ⟨rest, hrest⟩
    have hdot : ".".toList = ['.'] := rfl
    refine ⟨String.ofList rest, String.toList_inj.1 ?_⟩
    rw [← hrest, String.toList_append, String.toList_append, hdot, String.toList_ofList]
  · rintro ⟨rest, rfl⟩
    rw [String.toList_append, String.toList_append]
    exact List.prefix_append _ _

/-- A name starts with a selector and a dot if and only if its segments are those of the selector
and others behind them. -/
theorem append_dot_prefix_iff_segments {selector scope : ScopeName} (h : selector ≠ "") :
    selector.toList ++ ['.'] <+: scope.toList ↔
      ∃ rest, rest ≠ [] ∧ segments selector ++ rest = segments scope := by
  rw [append_dot_prefix_iff_exists]
  constructor
  · rintro ⟨rest, rfl⟩
    rw [segments_append_dot h]
    exact ⟨_, Blank.split_ne_nil '.' _, rfl⟩
  · rintro ⟨rest, hne, hscope⟩
    refine ⟨".".intercalate rest, ?_⟩
    rw [← intercalate_segments scope, ← hscope,
      String.intercalate_append_of_ne_nil (segments_ne_nil h) hne, intercalate_segments]

theorem covers_iff_segments {selector scope : ScopeName} : covers selector scope = true ↔
    selector ≠ "" ∧ segments selector <+: segments scope := by
  rw [covers_iff]
  refine and_congr_right fun hselector => ?_
  rw [append_dot_prefix_iff_segments hselector]
  constructor
  · rintro (rfl | ⟨rest, -, hrest⟩)
    · exact List.prefix_rfl
    · exact ⟨rest, hrest⟩
  · rintro ⟨rest, hrest⟩
    by_cases hnil : rest = []
    · rw [hnil, List.append_nil] at hrest
      exact .inl (segments_injective hrest.symm)
    · exact .inr ⟨rest, hnil, hrest⟩

/-! ## The order -/

theorem covers_self {scope : ScopeName} (h : scope ≠ "") : covers scope scope = true :=
  covers_iff_segments.2 ⟨h, List.prefix_rfl⟩

theorem covers_trans {a b c : ScopeName} (hab : covers a b = true) (hbc : covers b c = true) :
    covers a c = true := by
  rw [covers_iff_segments] at hab hbc ⊢
  exact ⟨hab.1, hab.2.trans hbc.2⟩

theorem covers_antisymm {a b : ScopeName} (hab : covers a b = true) (hba : covers b a = true) :
    a = b := by
  rw [covers_iff_segments] at hab hba
  exact segments_injective (hab.2.eq_of_length_le hba.2.length_le)

theorem segmentCount_le_of_covers {selector scope : ScopeName} (h : covers selector scope = true) :
    segmentCount selector ≤ segmentCount scope :=
  (covers_iff_segments.1 h).2.length_le

/-- Matching of names is the order of prefixes on their segments. The comparison by bytes has an
answer for all names, and a selector matches a scope if and only if it is not empty and its segments
are the first ones of the scope. So every name that is not empty matches itself, a name that matches
another one matches what that one matches, two names that match each other are the same, and a
selector has at most as many segments as a scope that it matches. -/
theorem covers_prefix_order :
    (∀ selector scope, covers? selector scope = some (covers selector scope)) ∧
    (∀ selector scope, covers selector scope = true ↔
      selector ≠ "" ∧ segments selector <+: segments scope) ∧
    (∀ scope, scope ≠ "" → covers scope scope = true) ∧
    (∀ a b c, covers a b = true → covers b c = true → covers a c = true) ∧
    (∀ a b, covers a b = true → covers b a = true → a = b) ∧
    ∀ selector scope, covers selector scope = true →
      segmentCount selector ≤ segmentCount scope := by
  refine ⟨?_, ?_, ?_, ?_, ?_, ?_⟩
  · exact covers?_eq_some
  · exact fun _ _ => covers_iff_segments
  · exact fun _ => covers_self
  · exact fun _ _ _ => covers_trans
  · exact fun _ _ => covers_antisymm
  · exact fun _ _ => segmentCount_le_of_covers

/-- Names with characters of two bytes. The longer ones have an empty segment. -/
theorem covers_prefix_order_umlauts :
    covers "grün" "grün.ß." = true ∧ covers "grün.ß." "grün.ß..é" = true ∧
      covers "grün" "grün.ß..é" = true ∧ segmentCount "grün" ≤ segmentCount "grün.ß..é" ∧
      segments "grün.ß." = ["grün", "ß", ""] ∧ covers "grün.ß." "grün.ß.é" = false := by
  have hinner : covers "grün" "grün.ß." = true := by decide
  have houter : covers "grün.ß." "grün.ß..é" = true := by decide
  obtain ⟨-, -, -, htrans, -, hcount⟩ := covers_prefix_order
  have hboth := htrans _ _ _ hinner houter
  exact ⟨hinner, houter, hboth, hcount _ _ hboth, by decide, by decide⟩

end Scope

end Highlight
