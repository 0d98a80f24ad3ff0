import Highlight.Proofs.BackReferences

/-!
# Variants of patterns

A pattern is compiled once for each choice of the anchors that hold, with the others replaced.
`AnchorsReplaced` says what is meant: an anchor is a backslash that is not escaped with the `A` or
`G` behind it, each one that does not hold becomes the character that occurs in no text, and all
else is kept in its order.

1. The anchors are looked for among bytes, two of which are passed at once behind a backslash. This
   stays in step with the characters (`anchorsFrom_utf8`), for no byte of a longer character is one
   of a backslash or letter (`eq_of_mem_utf8EncodeChar`).
2. What is kept is cut out by the bytes that have been found. No cut falls inside a character, and
   the pieces come to the text meant (`replaceAnchors?_eq`, `withoutAnchors_replaced`).
3. `Pattern.compile_variants`: so the regex that a search uses is read from that text.
-/

namespace Highlight

/-! ## Anchors among characters -/

/-- The anchor that a character behind a backslash makes: whether it is `\G`. -/
def anchor? (c : Char) : Option Bool :=
  if c = 'A' then some false else if c = 'G' then some true else none

/-- The character behind a backslash makes an anchor that does not hold. -/
def Anchors.Refuses (a : Anchors) (c : Char) : Prop :=
  c = 'A' ∧ a.documentStart = false ∨ c = 'G' ∧ a.lastMatch = false

instance (a : Anchors) (c : Char) : Decidable (a.Refuses c) :=
  inferInstanceAs (Decidable (_ ∨ _))

/-- A text becomes another one where each backslash that is not escaped becomes, with the character
behind it, the one that occurs in no text, if both make an anchor that does not hold; everything
else is kept. Whether a backslash is escaped depends on the text before it. -/
inductive AnchorsReplaced (a : Anchors) : (before cs out : List Char) → Prop
  | nil {before : List Char} : AnchorsReplaced a before [] []
  | anchor {before cs out : List Char} {c : Char} (hfree : Unescaped before) (hc : a.Refuses c)
      (h : AnchorsReplaced a (before ++ ['\\', c]) cs out) :
      AnchorsReplaced a before ('\\' :: c :: cs) (neverMatched :: out)
  | kept {before cs out : List Char} {c : Char}
      (hkept : c = '\\' → ∀ d ∈ cs.head?, a.Refuses d → ¬Unescaped before)
      (h : AnchorsReplaced a (before ++ [c]) cs out) : AnchorsReplaced a before (c :: cs) (c :: out)

/-- The anchors of a text that starts at a byte, character by character. -/
def anchorsAmong (offset : Nat) : List Char → List AnchorPlace
  | '\\' :: c :: cs =>
    ((anchor? c).map (⟨offset, ·⟩)).toList ++ anchorsAmong (offset + (utf8 ['\\', c]).length) cs
  | c :: cs => anchorsAmong (offset + (utf8 [c]).length) cs
  | [] => []

/-- The pattern with the anchors that do not hold replaced, character by character. -/
def withoutAnchors (a : Anchors) : List Char → List Char
  | '\\' :: c :: cs =>
    if a.Refuses c then neverMatched :: withoutAnchors a cs
    else '\\' :: c :: withoutAnchors a cs
  | c :: cs => c :: withoutAnchors a cs
  | [] => []

/-- Whether the pattern has anchors. -/
def hasAnchors : List Char → Bool
  | '\\' :: c :: cs => c == 'A' || c == 'G' || hasAnchors cs
  | _ :: cs => hasAnchors cs
  | [] => false

/-! ## Bytes of characters -/

theorem utf8EncodeChar_of_lt {c : Char} (hc : c.toNat < 128) :
    String.utf8EncodeChar c = [c.toUInt8] :=
  String.utf8EncodeChar_eq_singleton (Char.utf8Size_eq_one_iff.2
    (UInt32.le_iff_toNat_le.2 (Nat.le_of_lt_succ hc)))

theorem toNat_toUInt8 {c : Char} (hc : c.toNat < 128) : c.toUInt8.toNat = c.toNat :=
  Nat.mod_eq_of_lt (Nat.lt_trans hc (by decide))

/-- The bytes of a longer character are 128 and more. -/
theorem le_of_mem_utf8EncodeChar {c : Char} {b : UInt8} (hc : 128 ≤ c.toNat)
    (h : b ∈ String.utf8EncodeChar c) : 128 ≤ b.toNat := by
  have hbyte : ∃ n, 128 ≤ n ∧ n < 256 ∧ b = UInt8.ofNat n := by
    have hlong : ¬c.val.toNat ≤ 127 := Nat.not_le.2 hc
    simp only [String.utf8EncodeChar, if_neg hlong] at h
    split at h
    · simp only [List.mem_cons, List.not_mem_nil, or_false] at h
      rcases h with h | h <;> exact ⟨_, by omega, by omega, h⟩
    · split at h
      · simp only [List.mem_cons, List.not_mem_nil, or_false] at h
        rcases h with h | h | h <;> exact ⟨_, by omega, by omega, h⟩
      · simp only [List.mem_cons, List.not_mem_nil, or_false] at h
        rcases h with h | h | h | h <;> exact ⟨_, by omega, by omega, h⟩
  obtain ⟨n, hle, hlt, rfl⟩ := hbyte
  rwa [UInt8.toNat_ofNat', Nat.mod_eq_of_lt hlt]

/-- A byte below 128 is a character of its own, and no part of another one. -/
theorem eq_of_mem_utf8EncodeChar {c d : Char} (hd : d.toNat < 128)
    (h : d.toUInt8 ∈ String.utf8EncodeChar c) : c = d := by
  by_cases hc : c.toNat < 128
  · rw [utf8EncodeChar_of_lt hc, List.mem_singleton] at h
    have hnat : c.toNat = d.toNat := by rw [← toNat_toUInt8 hc, ← toNat_toUInt8 hd, h]
    exact Char.toNat_inj.1 hnat
  · have hle := le_of_mem_utf8EncodeChar (Nat.le_of_not_lt hc) h
    rw [toNat_toUInt8 hd] at hle
    omega

/-! ## Anchors among bytes -/

/-- Bytes that are no backslashes are passed one by one. -/
theorem anchorsFrom_append {ks : List UInt8} (bs : List UInt8) (h : '\\'.toUInt8 ∉ ks)
    (offset : Nat) : anchorsFrom offset (ks ++ bs) = anchorsFrom (offset + ks.length) bs := by
  induction ks generalizing offset with
  | nil => rfl
  | cons k ks ih =>
    rw [List.mem_cons, not_or] at h
    have hk : (k == '\\'.toUInt8) = false := beq_eq_false_iff_ne.2 (Ne.symm h.1)
    have hstep : anchorsFrom offset (k :: (ks ++ bs)) = anchorsFrom (offset + 1) (ks ++ bs) := by
      cases ks ++ bs with
      | nil => rfl
      | cons next rest => rw [anchorsFrom, hk, if_neg Bool.false_ne_true]
    rw [List.cons_append, hstep, ih h.2, List.length_cons, Nat.add_right_comm, Nat.add_assoc]

/-- The bytes of a character behind its first one are no backslashes, and neither is the first one
unless the character is. -/
theorem backslash_notMem_utf8EncodeChar {c : Char} (hc : c ≠ '\\') :
    '\\'.toUInt8 ∉ String.utf8EncodeChar c :=
  fun h => hc (eq_of_mem_utf8EncodeChar (by decide) h)

/-- Behind a backslash a character is passed as a whole, if not at once. -/
theorem anchorsFrom_escaped (offset : Nat) (c : Char) (bs : List UInt8) :
    anchorsFrom offset ('\\'.toUInt8 :: (String.utf8EncodeChar c ++ bs)) =
      ((anchor? c).map (⟨offset, ·⟩)).toList ++ anchorsFrom (offset + (1 + c.utf8Size)) bs := by
  have hbyte : ∀ d : Char, d.toNat < 128 → c = d →
      String.utf8EncodeChar c = [d.toUInt8] ∧ c.utf8Size = 1 := by
    rintro d hd rfl
    rw [← String.length_utf8EncodeChar, utf8EncodeChar_of_lt hd]
    exact ⟨rfl, rfl⟩
  by_cases hA : c = 'A'
  · obtain ⟨hbytes, hsize⟩ := hbyte 'A' (by decide) hA
    rw [hbytes, hsize, hA]
    rfl
  by_cases hG : c = 'G'
  · obtain ⟨hbytes, hsize⟩ := hbyte 'G' (by decide) hG
    rw [hbytes, hsize, hG]
    rfl
  by_cases hbackslash : c = '\\'
  · obtain ⟨hbytes, hsize⟩ := hbyte '\\' (by decide) hbackslash
    rw [hbytes, hsize, hbackslash]
    rfl
  rw [anchor?, if_neg hA, if_neg hG, ← String.length_utf8EncodeChar]
  obtain ⟨k, ks, hbytes⟩ := List.exists_cons_of_ne_nil (String.utf8EncodeChar_ne_nil (c := c))
  -- the first byte makes no anchor, and the others are no backslashes
  have hfirst : ∀ d : Char, d.toNat < 128 → c ≠ d → (k == d.toUInt8) = false := by
    intro d hd hne
    rw [beq_eq_false_iff_ne]
    rintro rfl
    exact hne (eq_of_mem_utf8EncodeChar hd (hbytes ▸ List.mem_cons_self))
  have hothers : '\\'.toUInt8 ∉ ks := fun h =>
    backslash_notMem_utf8EncodeChar hbackslash (hbytes ▸ List.mem_cons_of_mem k h)
  rw [hbytes, List.cons_append, anchorsFrom, hfirst 'A' (by decide) hA, hfirst 'G' (by decide) hG]
  simp only [beq_self_eq_true, if_true, Bool.false_eq_true, if_false]
  rw [anchorsFrom_append bs hothers, List.length_cons, Nat.add_assoc]
  congr 1
  omega

/-- The search among bytes stays in step with the characters. -/
theorem anchorsFrom_utf8 (offset : Nat) (cs : List Char) :
    anchorsFrom offset (utf8 cs) = anchorsAmong offset cs := by
  fun_induction anchorsAmong offset cs with
  | case1 offset c cs ih =>
    have hlength : (utf8 ['\\', c]).length = 1 + c.utf8Size := by
      rw [length_utf8_cons, length_utf8_cons]
      rfl
    rw [← ih, hlength, utf8_cons, utf8_cons]
    exact anchorsFrom_escaped offset c (utf8 cs)
  | case2 offset c cs hnot ih =>
    rw [← ih]
    by_cases hc : c = '\\'
    · -- a backslash is the last character
      cases cs with
      | nil =>
        subst hc
        rfl
      | cons d ds => exact (hnot d ds hc rfl).elim
    · rw [utf8_cons, anchorsFrom_append _ (backslash_notMem_utf8EncodeChar hc)]
      simp [utf8]
  | case3 => rfl

theorem isEmpty_anchorPlaces (cs : List Char) : (anchorPlaces cs).isEmpty = !hasAnchors cs := by
  rw [anchorPlaces, anchorsFrom_utf8]
  generalize 0 = offset
  fun_induction anchorsAmong offset cs with
  | case1 offset c cs ih =>
    rw [hasAnchors, anchor?]
    split
    · next hA => simp [hA]
    · next hA =>
      split
      · next hG => simp [hG]
      · next hG => simpa [beq_eq_false_iff_ne.2 hA, beq_eq_false_iff_ne.2 hG] using ih
  | case2 offset c cs hnot ih =>
    rw [ih, hasAnchors]
    exact hnot
  | case3 => rfl

/-! ## Cutting a text by bytes -/

theorem cutAt?_length (before after : List Char) :
    cutAt? (utf8 before).length (before ++ after) = some (before, after) := by
  induction before with
  | nil => cases after <;> rfl
  | cons c before ih =>
    have hpos := c.utf8Size_pos
    have hlength := length_utf8_cons c before
    obtain ⟨n, hn⟩ : ∃ n, (utf8 (c :: before)).length = n + 1 :=
      ⟨_, (Nat.succ_pred (by omega)).symm⟩
    have hrest : n + 1 - c.utf8Size = (utf8 before).length := by omega
    rw [hn, List.cons_append, cutAt?, if_pos (by omega), hrest, ih]
    rfl

theorem slice?_length (before part after : List Char) :
    slice? (before ++ part ++ after) (utf8 before).length (utf8 (before ++ part)).length =
      some part := by
  have hlength := length_utf8_append before part
  have hpart : (utf8 (before ++ part)).length - (utf8 before).length = (utf8 part).length := by
    omega
  rw [slice?, if_pos (by omega), List.append_assoc, cutAt?_length, hpart]
  simp only [Option.bind_eq_bind, Option.bind_some, cutAt?_length]
  rfl

/-- An anchor that does not hold takes two bytes. -/
theorem Anchors.Refuses.anchor? {a : Anchors} {c : Char} (h : a.Refuses c) :
    (utf8 ['\\', c]).length = 2 ∧ ∃ lastMatch, Highlight.anchor? c = some lastMatch ∧
      ∀ offset, AnchorPlace.holds ⟨offset, lastMatch⟩ a = false := by
  rcases h with ⟨rfl, h⟩ | ⟨rfl, h⟩
  · exact ⟨rfl, false, rfl, fun _ => h⟩
  · exact ⟨rfl, true, rfl, fun _ => h⟩

/-- Any other anchor holds. -/
theorem holds_of_not_refuses {a : Anchors} {c : Char} {lastMatch : Bool} (h : ¬a.Refuses c)
    (hc : anchor? c = some lastMatch) (offset : Nat) :
    AnchorPlace.holds ⟨offset, lastMatch⟩ a = true := by
  rw [Anchors.Refuses, not_or] at h
  unfold anchor? at hc
  split at hc
  · next hA =>
    cases hc
    simpa [AnchorPlace.holds] using fun hfalse => h.1 ⟨hA, hfalse⟩
  · split at hc
    · next hG =>
      cases hc
      simpa [AnchorPlace.holds] using fun hfalse => h.2 ⟨hG, hfalse⟩
    · cases hc

/-- Replacing by bytes is replacing by characters: what has been passed and not yet cut out is
kept. -/
theorem replaceAnchors?_anchorsAmong (a : Anchors) (before pending cs : List Char) :
    replaceAnchors? a (before ++ pending ++ cs) (utf8 before).length
      (anchorsAmong (utf8 (before ++ pending)).length cs) =
        some (pending ++ withoutAnchors a cs) := by
  fun_induction withoutAnchors a cs generalizing before pending with
  | case1 c cs hc ih =>
    obtain ⟨htwo, lastMatch, hanchor, hholds⟩ := hc.anchor?
    have hbehind := ih (before ++ pending ++ ['\\', c]) []
    have hcut := slice?_length before pending ('\\' :: c :: cs)
    rw [List.append_nil, length_utf8_append _ ['\\', c], htwo,
      List.append_assoc (before ++ pending), List.cons_append, List.singleton_append,
      List.nil_append] at hbehind
    rw [anchorsAmong, hanchor, htwo, Option.map_some, Option.toList_some, List.singleton_append,
      replaceAnchors?, hholds, if_neg Bool.false_ne_true]
    simp only [hcut, hbehind, Option.bind_eq_bind, Option.bind_some]
    rfl
  | case2 c cs hc ih =>
    have hbehind := ih before (pending ++ ['\\', c])
    rw [← List.append_assoc before, length_utf8_append _ ['\\', c],
      List.append_assoc (before ++ pending), List.append_assoc pending] at hbehind
    rw [anchorsAmong]
    cases hanchor : anchor? c with
    | none => exact hbehind
    | some lastMatch =>
      rw [Option.map_some, Option.toList_some, List.singleton_append, replaceAnchors?,
        holds_of_not_refuses hc hanchor, if_pos rfl]
      exact hbehind
  | case3 c cs hnot ih =>
    have hbehind := ih before (pending ++ [c])
    rw [← List.append_assoc before, length_utf8_append _ [c], List.append_assoc (before ++ pending),
      List.append_assoc pending] at hbehind
    rw [anchorsAmong]
    · exact hbehind
    · exact hnot
  | case4 =>
    rw [anchorsAmong, replaceAnchors?, List.append_nil (before ++ pending), List.append_nil]
    have hcut := slice?_length before pending []
    rwa [List.append_nil] at hcut

/-- No cut falls inside a character. -/
theorem replaceAnchors?_eq (a : Anchors) (cs : List Char) :
    replaceAnchors? a cs 0 (anchorPlaces cs) = some (withoutAnchors a cs) := by
  rw [anchorPlaces, anchorsFrom_utf8]
  exact replaceAnchors?_anchorsAmong a [] [] cs

/-! ## What is replaced -/

theorem unescaped_append_backslash {before : List Char} :
    Unescaped (before ++ ['\\']) ↔ ¬Unescaped before := by
  simp only [Unescaped, trailingBackslashes, List.reverse_append, List.reverse_singleton,
    List.singleton_append, List.takeWhile_cons, beq_self_eq_true, if_true, List.length_cons]
  omega

theorem unescaped_append_of_ne {before : List Char} {c : Char} (hc : c ≠ '\\') :
    Unescaped (before ++ [c]) := by
  simp [Unescaped, trailingBackslashes, hc]

/-- A backslash that is not escaped and the character behind it leave nothing escaped. -/
theorem Unescaped.pair {before : List Char} (h : Unescaped before) (c : Char) :
    Unescaped (before ++ ['\\', c]) := by
  rw [List.append_cons]
  by_cases hc : c = '\\'
  · subst hc
    rw [unescaped_append_backslash, unescaped_append_backslash, Classical.not_not]
    exact h
  · exact unescaped_append_of_ne hc

namespace AnchorsReplaced

variable {a : Anchors} {before cs out out' : List Char}

/-- What a text becomes is determined. -/
theorem unique (h : AnchorsReplaced a before cs out) (h' : AnchorsReplaced a before cs out') :
    out = out' := by
  induction h generalizing out' with
  | nil =>
    cases h'
    rfl
  | anchor hfree hc _ ih =>
    cases h' with
    | anchor _ _ h' => rw [ih h']
    | kept hkept => exact absurd hfree (hkept rfl _ rfl hc)
  | kept hkept _ ih =>
    cases h' with
    | anchor hfree hc => exact absurd hfree (hkept rfl _ rfl hc)
    | kept _ h' => rw [ih h']

end AnchorsReplaced

/-- The anchors that do not hold are replaced, and nothing else. -/
theorem withoutAnchors_replaced (a : Anchors) {before cs : List Char} (hfree : Unescaped before) :
    AnchorsReplaced a before cs (withoutAnchors a cs) := by
  fun_induction withoutAnchors a cs generalizing before with
  | case1 c cs hc ih => exact .anchor hfree hc (ih (hfree.pair c))
  | case2 c cs hc ih =>
    refine .kept (fun _ d hd hrefuses => ?_) (.kept (fun hbackslash d _ _ => ?_) ?_)
    · cases hd
      exact absurd hrefuses hc
    · -- the second backslash of two is escaped
      rw [unescaped_append_backslash, Classical.not_not]
      exact hfree
    · rw [List.append_assoc]
      exact ih (hfree.pair c)
  | case3 c cs hnot ih =>
    refine .kept (fun hc d hd _ => ?_) ?_
    · obtain ⟨ds, rfl⟩ := List.head?_eq_some_iff.1 hd
      exact (hnot d ds hc rfl).elim
    · cases cs with
      | nil => exact .nil
      | cons d ds => exact ih (unescaped_append_of_ne fun hc => hnot d ds hc rfl)
  | case4 => exact .nil

/-! ## Where it is cut -/

/-- The first byte behind a part of a text falls between two characters. -/
theorem isValid_length_utf8 {source : String} {before after : List Char}
    (h : source.toList = before ++ after) :
    String.Pos.Raw.IsValid source ⟨(utf8 before).length⟩ := by
  have hvalid : String.Pos.Raw.IsValid (String.ofList source.toList)
      ⟨(String.ofList (source.toList.take before.length)).utf8ByteSize⟩ :=
    String.Pos.Raw.isValid_ofList.2 ⟨before.length, rfl⟩
  rwa [String.ofList_toList, h, List.take_left, ← length_utf8] at hvalid

/-- Where an anchor is found there is one. -/
theorem exists_of_mem_anchorsAmong {place : AnchorPlace} (before cs : List Char)
    (h : place ∈ anchorsAmong (utf8 before).length cs) : ∃ part c after,
      before ++ cs = part ++ '\\' :: c :: after ∧ place.offset = (utf8 part).length ∧
      anchor? c = some place.lastMatch := by
  generalize hoffset : (utf8 before).length = offset at h
  fun_induction anchorsAmong offset cs generalizing before with
  | case1 offset c cs ih =>
    rcases List.mem_append.1 h with h | h
    · rw [Option.mem_toList, Option.map_eq_some_iff] at h
      obtain ⟨lastMatch, hanchor, rfl⟩ := h
      exact ⟨before, c, cs, rfl, hoffset.symm, hanchor⟩
    · have hbehind := ih (before ++ ['\\', c]) (by rw [length_utf8_append, hoffset]) h
      rwa [List.append_assoc] at hbehind
  | case2 offset c cs _ ih =>
    have hbehind := ih (before ++ [c]) (by rw [length_utf8_append, hoffset]) h
    rwa [List.append_assoc] at hbehind
  | case3 => cases h

/-- An anchor starts and ends between two characters. -/
theorem isValid_of_mem_anchorPlaces {source : String} {place : AnchorPlace}
    (h : place ∈ anchorPlaces source.toList) : String.Pos.Raw.IsValid source ⟨place.offset⟩ ∧
      String.Pos.Raw.IsValid source ⟨place.offset + 2⟩ := by
  rw [anchorPlaces, anchorsFrom_utf8] at h
  obtain ⟨part, c, after, hsource, hoffset, hanchor⟩ := exists_of_mem_anchorsAmong [] _ h
  have htwo : (utf8 ['\\', c]).length = 2 := by
    unfold anchor? at hanchor
    split at hanchor
    · next hc =>
      subst hc
      rfl
    · split at hanchor
      · next hc =>
        subst hc
        rfl
      · cases hanchor
  have hbehind : source.toList = (part ++ ['\\', c]) ++ after := by
    rw [List.append_assoc]
    exact hsource
  rw [hoffset]
  refine ⟨isValid_length_utf8 hsource, ?_⟩
  have hvalid := isValid_length_utf8 hbehind
  rwa [length_utf8_append, htwo] at hvalid

/-! ## Compiled variants -/

theorem withoutAnchors_every (cs : List Char) : withoutAnchors .every cs = cs := by
  fun_induction withoutAnchors .every cs with
  | case1 c cs hc => exact absurd hc (by simp [Anchors.Refuses, Anchors.every])
  | case2 c cs _ ih => rw [ih]
  | case3 c cs _ ih => rw [ih]
  | case4 => rfl

theorem withoutAnchors_of_hasAnchors_eq_false (a : Anchors) {cs : List Char}
    (h : hasAnchors cs = false) : withoutAnchors a cs = cs := by
  fun_induction withoutAnchors a cs with
  | case1 c cs hc =>
    rw [hasAnchors] at h
    rcases hc with ⟨rfl, _⟩ | ⟨rfl, _⟩ <;> cases h
  | case2 c cs _ ih =>
    rw [hasAnchors, Bool.or_eq_false_iff] at h
    rw [ih h.2]
  | case3 c cs hnot ih =>
    rw [hasAnchors] at h
    · rw [ih h]
    · exact hnot
  | case4 => rfl

namespace Pattern

theorem compileText_eq_ok {source : String} {r : Regex} :
    compileText source = .ok r ↔ Regex.ofGrammarPattern source = .ok r := by
  unfold compileText
  split
  · next r' h => rw [h, Except.ok.injEq, Except.ok.injEq]
  · next e h => simp [h]

theorem compileText_eq_error {source : String} {e : PatternError} :
    compileText source = .error e ↔
      e.pattern = source ∧ Regex.ofGrammarPattern source = .error e.reason := by
  obtain ⟨pattern, reason⟩ := e
  unfold compileText
  split
  · next r h => simp [h]
  · next reason' h =>
    rw [h, Except.error.injEq, Except.error.injEq, PatternError.mk.injEq]
    exact and_congr_left' eq_comm

theorem compileVariant_eq (source : String) (a : Anchors) :
    compileVariant source (anchorPlaces source.toList) a =
      compileText (String.ofList (withoutAnchors a source.toList)) := by
  rw [compileVariant, replaceAnchors?_eq]

/-- Every variant is compiled from the pattern without the anchors that do not hold. -/
theorem compileText_of_compile {source : String} {p : Pattern} (h : compile source = .ok p)
    (a : Anchors) :
    compileText (String.ofList (withoutAnchors a source.toList)) = .ok (p.regex a) := by
  obtain ⟨full, hfull, h⟩ := Except.bind_eq_ok.1 h
  simp only [isEmpty_anchorPlaces, compileVariant_eq, Bool.not_eq_true'] at h
  split at h
  · next hnone =>
    cases h
    rw [withoutAnchors_of_hasAnchors_eq_false a hnone, String.ofList_toList, hfull]
    obtain ⟨documentStart, lastMatch⟩ := a
    cases documentStart <;> cases lastMatch <;> rfl
  · obtain ⟨noDocumentStart, hnoDocumentStart, h⟩ := Except.bind_eq_ok.1 h
    obtain ⟨noLastMatch, hnoLastMatch, h⟩ := Except.bind_eq_ok.1 h
    obtain ⟨bare, hbare, h⟩ := Except.bind_eq_ok.1 h
    cases h
    obtain ⟨documentStart, lastMatch⟩ := a
    cases documentStart with
    | false =>
      cases lastMatch with
      | false => exact hbare
      | true => exact hnoDocumentStart
    | true =>
      cases lastMatch with
      | false => exact hnoLastMatch
      | true =>
        rw [show (⟨true, true⟩ : Anchors) = .every from rfl, withoutAnchors_every,
          String.ofList_toList]
        exact hfull

/-- A pattern that does not compile has a variant that cannot be read. -/
theorem exists_of_compile_eq_error {source : String} {e : PatternError}
    (h : compile source = .error e) :
    ∃ a, compileText (String.ofList (withoutAnchors a source.toList)) = .error e := by
  have hsource : compileText (String.ofList (withoutAnchors .every source.toList)) =
      compileText source := by
    rw [withoutAnchors_every, String.ofList_toList]
  rcases Except.bind_eq_error.1 h with h | ⟨full, _, h⟩
  · exact ⟨.every, hsource.trans h⟩
  · simp only [compileVariant_eq] at h
    split at h
    · cases h
    · rcases Except.bind_eq_error.1 h with h | ⟨_, _, h⟩
      · exact ⟨_, h⟩
      · rcases Except.bind_eq_error.1 h with h | ⟨_, _, h⟩
        · exact ⟨_, h⟩
        · rcases Except.bind_eq_error.1 h with h | ⟨_, _, h⟩
          · exact ⟨_, h⟩
          · cases h

/-- The regex that searches a text where some anchors hold is read from the pattern in which the
other anchors are replaced, those whose backslash is not escaped, and everything else is kept. The
pattern is cut only between two characters, and one that does not compile has such a text that
cannot be read. -/
theorem compile_variants (source : String) :
    (∀ place ∈ anchorPlaces source.toList, String.Pos.Raw.IsValid source ⟨place.offset⟩ ∧
      String.Pos.Raw.IsValid source ⟨place.offset + 2⟩) ∧
    (∀ a, ∃ text : String, (∀ out, AnchorsReplaced a [] source.toList out ↔ out = text.toList) ∧
      replaceAnchors? a source.toList 0 (anchorPlaces source.toList) = some text.toList ∧
      ∀ p, compile source = .ok p → ∃ r, Regex.ofGrammarPattern text = .ok r ∧
        ∀ chars start stop, p.search chars start stop a = r.search chars start stop) ∧
    ∀ e, compile source = .error e → ∃ a, AnchorsReplaced a [] source.toList e.pattern.toList ∧
      Regex.ofGrammarPattern e.pattern = .error e.reason := by
  have hreplaced : ∀ a, AnchorsReplaced a [] source.toList (withoutAnchors a source.toList) :=
    fun a => withoutAnchors_replaced a rfl
  refine ⟨fun place => isValid_of_mem_anchorPlaces, fun a => ?_, fun e h => ?_⟩
  · refine ⟨String.ofList (withoutAnchors a source.toList), fun out => ?_, ?_, fun p h => ?_⟩
    · rw [String.toList_ofList]
      constructor
      · exact fun hout => hout.unique (hreplaced a)
      · rintro rfl
        exact hreplaced a
    · rw [String.toList_ofList]
      exact replaceAnchors?_eq a source.toList
    · exact ⟨p.regex a, compileText_eq_ok.1 (compileText_of_compile h a), fun _ _ _ => rfl⟩
  · obtain ⟨a, h⟩ := exists_of_compile_eq_error h
    obtain ⟨hpattern, hreason⟩ := compileText_eq_error.1 h
    rw [hpattern]
    refine ⟨a, ?_, hreason⟩
    rw [String.toList_ofList]
    exact hreplaced a

/-- Anchors of both kinds, with a longer character and escaped backslashes between them. -/
def mixedAnchors : String := "\\Gé\\\\\\A\\\\A"

/-- Where neither anchor holds, a search for the mixed ones reads the pattern with two characters
replaced; the letter behind two backslashes is kept. -/
theorem compile_variants_mixed : ∃ p, compile mixedAnchors = .ok p ∧
    anchorPlaces mixedAnchors.toList = [⟨0, true⟩, ⟨6, false⟩] ∧
    String.Pos.Raw.IsValid mixedAnchors ⟨6⟩ ∧
    AnchorsReplaced ⟨false, false⟩ [] mixedAnchors.toList "\uffffé\\\\\uffff\\\\A".toList ∧
    ∃ r, Regex.ofGrammarPattern "\uffffé\\\\\uffff\\\\A" = .ok r ∧
      ∀ chars start stop, p.search chars start stop ⟨false, false⟩ = r.search chars start stop := by
  have hplaces : anchorPlaces mixedAnchors.toList = [⟨0, true⟩, ⟨6, false⟩] := by decide
  have hcut : replaceAnchors? ⟨false, false⟩ mixedAnchors.toList 0
      (anchorPlaces mixedAnchors.toList) = some "\uffffé\\\\\uffff\\\\A".toList := by
    decide
  obtain ⟨p, hp⟩ : ∃ p, compile mixedAnchors = .ok p := by
    have hcompiles : (compile mixedAnchors).toOption.isSome = true := by decide +kernel
    cases h : compile mixedAnchors with
    | ok p => exact ⟨p, rfl⟩
    | error e =>
      rw [h] at hcompiles
      cases hcompiles
  obtain ⟨hvalid, hvariant, _⟩ := compile_variants mixedAnchors
  obtain ⟨text, htext, hcuts, hreads⟩ := hvariant ⟨false, false⟩
  have heq : text = "\uffffé\\\\\uffff\\\\A" :=
    String.toList_inj.1 (Option.some.inj (hcuts.symm.trans hcut))
  subst heq
  exact ⟨p, hp, hplaces, (hvalid ⟨6, false⟩ (by rw [hplaces]; decide)).1, (htext _).2 rfl,
    hreads p hp⟩

end Pattern

end Highlight
