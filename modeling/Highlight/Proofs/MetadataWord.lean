import Mathlib.Data.Nat.Bitwise
import Highlight.Scope.Metadata

/-!
# Fields of a metadata word

Six fields share the 32 bits of a token's metadata. `Metadata.pack` adds them up and the accessors
divide; here it is the same to shift, mask and join bits.

1. `BitField` is a stretch of bits of a word: its mask, the value it holds (`BitField.take`) and the
   word that holds a value there (`BitField.place`), which loses what the field has no room for.
   `BitField.toNat_take` and `BitField.toNat_place` say both as numbers.
2. `Metadata.word_pack`: packed metadata are the fields shifted and joined, where only the colors
   have to be cut by their masks. `Metadata.reads_word`: each accessor takes its field from the word.
3. `Metadata.fields_pack`: no field of packed metadata reaches into another one.
4. `Metadata.pack_bijective`: what is packed is read back, colors without the bits that their fields
   have no room for, and every word is packed from what is read from it.
-/

namespace Highlight

/-! ## Fields of words -/

/-- The `width` bits of a word of 32 bits from the bit `offset` on. -/
structure BitField where
  offset : Nat
  width : Nat
  fits : offset + width ≤ 32 := by decide

namespace BitField

variable (f : BitField) (word value : BitVec 32)

/-- The word that has the bits of the field. -/
def mask : BitVec 32 := BitVec.ofNat 32 ((2 ^ f.width - 1) <<< f.offset)

/-- The value that a word holds in the field. -/
def take : BitVec 32 := (word &&& f.mask) >>> f.offset

/-- The word that holds a value in the field and nothing elsewhere. -/
def place : BitVec 32 := value <<< f.offset &&& f.mask

theorem shiftLeft_lt {n : Nat} (h : n < 2 ^ f.width) : n <<< f.offset < 2 ^ 32 := by
  rw [Nat.shiftLeft_eq]
  calc n * 2 ^ f.offset < 2 ^ f.width * 2 ^ f.offset :=
        Nat.mul_lt_mul_of_pos_right h (Nat.two_pow_pos _)
    _ = 2 ^ (f.offset + f.width) := by rw [Nat.mul_comm, Nat.pow_add]
    _ ≤ 2 ^ 32 := Nat.pow_le_pow_right (by decide) f.fits

theorem toNat_mask : f.mask.toNat = (2 ^ f.width - 1) <<< f.offset := by
  rw [mask, BitVec.toNat_ofNat]
  exact Nat.mod_eq_of_lt (f.shiftLeft_lt (Nat.sub_lt (Nat.two_pow_pos _) Nat.one_pos))

theorem toNat_take : (f.take word).toNat = word.toNat / 2 ^ f.offset % 2 ^ f.width := by
  rw [take, BitVec.toNat_ushiftRight, BitVec.toNat_and, toNat_mask, Nat.shiftRight_and_distrib,
    Nat.shiftLeft_shiftRight, Nat.and_two_pow_sub_one_eq_mod, Nat.shiftRight_eq_div_pow]

/-- The bits that the shift pushes out of the word are among those that the mask cuts off. -/
theorem toNat_place : (f.place value).toNat = (value.toNat % 2 ^ f.width) <<< f.offset := by
  have hmask : f.mask.toNat = f.mask.toNat % 2 ^ 32 := (Nat.mod_eq_of_lt f.mask.isLt).symm
  rw [place, BitVec.toNat_and, BitVec.toNat_shiftLeft, hmask, ← Nat.and_mod_two_pow, toNat_mask,
    ← Nat.shiftLeft_and_distrib, Nat.and_two_pow_sub_one_eq_mod]
  exact Nat.mod_eq_of_lt (f.shiftLeft_lt (Nat.mod_lt _ (Nat.two_pow_pos _)))

/-- A value that the field has room for needs no mask. -/
theorem toNat_shiftLeft {n : Nat} (h : n < 2 ^ f.width) :
    (BitVec.ofNat 32 n <<< f.offset).toNat = n <<< f.offset := by
  have hn : n < 2 ^ 32 :=
    Nat.lt_of_lt_of_le h (Nat.pow_le_pow_right (by decide) (by have := f.fits; omega))
  rw [BitVec.toNat_shiftLeft, BitVec.toNat_ofNat, Nat.mod_eq_of_lt hn]
  exact Nat.mod_eq_of_lt (f.shiftLeft_lt h)

end BitField

/-- To join a number shifted above another one is to add it. -/
theorem or_shiftLeft {low offset : Nat} (h : low < 2 ^ offset) (n : Nat) :
    low ||| n <<< offset = low + n * 2 ^ offset := by
  rw [Nat.or_comm, ← Nat.shiftLeft_add_eq_or_of_lt h, Nat.shiftLeft_eq, Nat.add_comm]

theorem FontStyle.ofBits_bits (s : FontStyle) : ofBits s.bits = s := by
  obtain ⟨a, b, c, d⟩ := s
  cases a <;> cases b <;> cases c <;> cases d <;> rfl

theorem FontStyle.bits_ofBits {n : Nat} (h : n < 16) : (ofBits n).bits = n := by
  have hbit : ∀ k : Nat, (k % 2 == 1).toNat = k % 2 := by
    intro k
    rcases Nat.mod_two_eq_zero_or_one k with hk | hk <;> rw [hk] <;> rfl
  rw [bits, ofBits, hbit, hbit, hbit, hbit]
  omega

theorem TokenType.ofBits_bits (t : TokenType) : ofBits t.bits = t := by
  cases t <;> rfl

theorem TokenType.bits_ofBits {n : Nat} (h : n < 4) : (ofBits n).bits = n := by
  obtain rfl | rfl | rfl | rfl : n = 0 ∨ n = 1 ∨ n = 2 ∨ n = 3 := by omega
  all_goals rfl

namespace Metadata

/-! ## The layout -/

/-- The number of the language. -/
def languageField : BitField := { offset := 0, width := 8 }

/-- The kind of text. -/
def typeField : BitField := { offset := 8, width := 2 }

/-- The bracket flag. -/
def balancedField : BitField := { offset := 10, width := 1 }

/-- The font style. -/
def styleField : BitField := { offset := 11, width := 4 }

/-- The number of the foreground color. -/
def foregroundField : BitField := { offset := 15, width := 9 }

/-- The number of the background color. -/
def backgroundField : BitField := { offset := 24, width := 8 }

example : [languageField, typeField, balancedField, styleField, foregroundField,
    backgroundField].map (fun f => f.mask.toNat) =
    [0x000000FF, 0x00000300, 0x00000400, 0x00007800, 0x00FF8000, 0xFF000000] := by decide

/-- The bits of the metadata. -/
def word (m : Metadata) : BitVec 32 := BitVec.ofNatLT m.bits m.bits_lt

/-- The fields shifted to their places and joined. Only colors can be too large. -/
def join (language : LanguageId) (type : TokenType) (balanced : Bool) (style : FontStyle)
    (foreground background : BitVec 32) : BitVec 32 :=
  BitVec.ofNat 32 language.toNat <<< languageField.offset
    ||| BitVec.ofNat 32 type.bits <<< typeField.offset
    ||| BitVec.ofNat 32 balanced.toNat <<< balancedField.offset
    ||| BitVec.ofNat 32 style.bits <<< styleField.offset
    ||| foregroundField.place foreground
    ||| backgroundField.place background

theorem toNat_word (m : Metadata) : m.word.toNat = m.bits := rfl

/-- What the accessors say is what masks and shifts take from the word. The flag is one bit. -/
structure Reads (m : Metadata) (w : BitVec 32) : Prop where
  language : m.language = UInt8.ofNat (languageField.take w).toNat
  type : m.type = .ofBits (typeField.take w).toNat
  balanced : m.balanced = (w &&& balancedField.mask != 0)
  style : m.style = .ofBits (styleField.take w).toNat
  foreground : m.foreground = (foregroundField.take w).toNat
  background : m.background = (backgroundField.take w).toNat

theorem reads_word (m : Metadata) : m.Reads m.word where
  language := by
    rw [BitField.toNat_take, toNat_word, Metadata.language, languageField, Nat.pow_zero,
      Nat.div_one]
    rfl
  type := by
    rw [BitField.toNat_take]
    rfl
  balanced := by
    have hbit : (m.word &&& balancedField.mask).toNat = m.bits / 2 ^ 10 % 2 * 2 ^ 10 := by
      rw [← Nat.toNat_testBit]
      exact Nat.and_two_pow m.bits 10
    rw [Bool.eq_iff_iff, bne_iff_ne, BitVec.toNat_ne, hbit, Metadata.balanced, beq_iff_eq]
    show m.bits / 1024 % 2 = 1 ↔ m.bits / 2 ^ 10 % 2 * 2 ^ 10 ≠ 0
    omega
  style := by
    rw [BitField.toNat_take]
    rfl
  foreground := by
    rw [BitField.toNat_take]
    rfl
  background := by
    rw [BitField.toNat_take]
    rfl

section Pack

variable (language : LanguageId) (type : TokenType) (balanced : Bool) (style : FontStyle)
  (foreground background : Nat)

theorem bits_pack : (pack language type balanced style foreground background).bits =
    language.toNat + 256 * type.bits + 1024 * balanced.toNat + 2048 * style.bits
      + 32768 * (foreground % 512) + 16777216 * (background % 256) := rfl

/-- Packed metadata are the fields at their places: what is added up in them has no bits in
common. -/
theorem word_pack (foreground background : BitVec 32) :
    (pack language type balanced style foreground.toNat background.toNat).word =
      join language type balanced style foreground background := by
  have hlanguage : language.toNat < 2 ^ languageField.width := language.toNat_lt
  have htype : type.bits < 2 ^ typeField.width := type.bits_lt
  have hbalanced : balanced.toNat < 2 ^ balancedField.width :=
    Nat.lt_succ_of_le (Bool.toNat_le balanced)
  have hstyle : style.bits < 2 ^ styleField.width := style.bits_lt
  apply BitVec.eq_of_toNat_eq
  simp only [join, BitVec.toNat_or, BitField.toNat_place,
    languageField.toNat_shiftLeft hlanguage, typeField.toNat_shiftLeft htype,
    balancedField.toNat_shiftLeft hbalanced, styleField.toNat_shiftLeft hstyle]
  simp only [languageField, typeField, balancedField, styleField, foregroundField,
    backgroundField, Nat.shiftLeft_zero] at *
  -- from the lowest field on, each lies above those that have been added up
  simp (disch := omega) only [or_shiftLeft]
  rw [toNat_word, bits_pack]
  omega

/-- No field of packed metadata reaches into another one. -/
theorem fields_pack :
    let m := pack language type balanced style foreground background
    m.language = language ∧ m.type = type ∧ m.balanced = balanced ∧ m.style = style ∧
      m.foreground = foreground % 512 ∧ m.background = background % 256 := by
  intro m
  have hbits : m.bits = _ := bits_pack language type balanced style foreground background
  have hlanguage := language.toNat_lt
  have htype := type.bits_lt
  have hbalanced := Bool.toNat_le balanced
  have hstyle := style.bits_lt
  obtain ⟨h₁, h₂, h₃, h₄, h₅, h₆⟩ : m.bits % 256 = language.toNat ∧
      m.bits / 256 % 4 = type.bits ∧ m.bits / 1024 % 2 = balanced.toNat ∧
      m.bits / 2048 % 16 = style.bits ∧ m.bits / 32768 % 512 = foreground % 512 ∧
      m.bits / 16777216 % 256 = background % 256 := by
    omega
  refine ⟨?_, ?_, ?_, ?_, h₅, h₆⟩
  · rw [Metadata.language, h₁, UInt8.ofNat_toNat]
  · rw [Metadata.type, h₂, TokenType.ofBits_bits]
  · rw [Metadata.balanced, h₃]
    cases balanced <;> rfl
  · rw [Metadata.style, h₄, FontStyle.ofBits_bits]

theorem style_pack :
    (pack language type balanced style foreground background).style = style :=
  (fields_pack language type balanced style foreground background).2.2.2.1

theorem foreground_pack :
    (pack language type balanced style foreground background).foreground = foreground % 512 :=
  (fields_pack language type balanced style foreground background).2.2.2.2.1

theorem background_pack :
    (pack language type balanced style foreground background).background = background % 256 :=
  (fields_pack language type balanced style foreground background).2.2.2.2.2

end Pack

/-- A word is packed from what is read from it. -/
theorem pack_fields (m : Metadata) :
    pack m.language m.type m.balanced m.style m.foreground m.background = m := by
  have hbits := m.bits_lt
  have hlanguage : m.language.toNat = m.bits % 256 :=
    UInt8.toNat_ofNat_of_lt (Nat.mod_lt _ (by decide))
  have htype : m.type.bits = m.bits / 256 % 4 := TokenType.bits_ofBits (Nat.mod_lt _ (by decide))
  have hbalanced : m.balanced.toNat = m.bits / 1024 % 2 := by
    rw [balanced]
    rcases Nat.mod_two_eq_zero_or_one (m.bits / 1024) with h | h <;> rw [h] <;> rfl
  have hstyle : m.style.bits = m.bits / 2048 % 16 := FontStyle.bits_ofBits (Nat.mod_lt _ (by decide))
  have hwhole : (pack m.language m.type m.balanced m.style m.foreground m.background).bits =
      m.bits := by
    rw [bits_pack, hlanguage, htype, hbalanced, hstyle, foreground, background]
    omega
  obtain ⟨bits, hbits⟩ := m
  exact (Metadata.mk.injEq ..).mpr hwhole

/-- Packing is a bijection between fields and words. The packed word is the fields shifted to their
places and joined, and the accessors give back what was packed, of colors the bits that their fields
have room for. And every word is read with masks and shifts, and packed again from what is read. -/
theorem pack_bijective :
    (∀ (language : LanguageId) (type : TokenType) (balanced : Bool) (style : FontStyle)
      (foreground background : BitVec 32),
      let m := pack language type balanced style foreground.toNat background.toNat
      m.word = join language type balanced style foreground background ∧
      m.language = language ∧ m.type = type ∧ m.balanced = balanced ∧ m.style = style ∧
      m.foreground = foreground.toNat % 512 ∧ m.background = background.toNat % 256) ∧
    ∀ w : BitVec 32,
      let m := ofBits w.toNat
      m.word = w ∧ m.Reads w ∧
      pack m.language m.type m.balanced m.style m.foreground m.background = m := by
  refine ⟨fun language type balanced style foreground background => ?_, fun w => ?_⟩
  · exact ⟨word_pack language type balanced style foreground background,
      fields_pack language type balanced style foreground.toNat background.toNat⟩
  · have hword : (ofBits w.toNat).word = w :=
      BitVec.eq_of_toNat_eq (Nat.mod_eq_of_lt w.isLt)
    have hreads := (ofBits w.toNat).reads_word
    rw [hword] at hreads
    exact ⟨hword, hreads, pack_fields _⟩

end Metadata

end Highlight
