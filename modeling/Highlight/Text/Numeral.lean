/-!
# Numerals

Numbers, and characters by their numbers, are written alike in documents, expressions and colors:
with digits of a base up to sixteen, in ASCII and in either case.
-/

namespace Highlight.Numeral

/-- The value of a digit of the base sixteen. -/
def hexDigit? (c : Char) : Option Nat :=
  if c.isDigit then some (c.toNat - 48)
  else if 'a' ≤ c && c ≤ 'f' then some (c.toNat - 87)
  else if 'A' ≤ c && c ≤ 'F' then some (c.toNat - 55)
  else none

/-- Whether a character is a digit of the base sixteen. -/
def isHexDigit (c : Char) : Bool := (hexDigit? c).isSome

/-- The value of a digit of a base up to sixteen. -/
def digit? (base : Nat) (c : Char) : Option Nat := (hexDigit? c).filter (· < base)

/-- The number with one more digit. -/
def push? (base : Nat) (n? : Option Nat) (c : Char) : Option Nat :=
  n?.bind fun n => (digit? base c).map (n * base + ·)

/-- The number that digits of a base write, if there are any and nothing else. -/
def value? (base : Nat) (cs : List Char) : Option Nat :=
  if cs.isEmpty then none else cs.foldl (push? base) (some 0)

/-- The character of a code point. -/
def character? (n : Nat) : Option Char :=
  if n < 0xD800 || (0xDFFF < n && n < 0x110000) then some (Char.ofNat n) else none

/-- The last digits of a number to the base sixteen. -/
def hexDigits : Nat → Nat → List Char
  | 0, _ => []
  | count + 1, n => hexDigits count (n / 16) ++ [Nat.digitChar (n % 16)]

theorem isHexDigit_iff {c : Char} : isHexDigit c = true ↔
    c.isDigit = true ∨ ('a' ≤ c ∧ c ≤ 'f') ∨ ('A' ≤ c ∧ c ≤ 'F') := by
  unfold isHexDigit hexDigit?
  by_cases hdigit : c.isDigit = true
  · simp [hdigit]
  · by_cases hsmall : 'a' ≤ c ∧ c ≤ 'f'
    · simp [hdigit, hsmall]
    · by_cases hlarge : 'A' ≤ c ∧ c ≤ 'F' <;> simp [hdigit, hsmall, hlarge]

theorem digit?_of_isDigit {c : Char} (h : c.isDigit = true) :
    digit? 10 c = some (c.toNat - 48) := by
  have hlt : c.toNat - 48 < 10 := by
    have hle : c.toNat ≤ 57 := (Char.isDigit_iff_toNat.1 h).2
    omega
  rw [digit?, hexDigit?, if_pos h, Option.filter_some, if_pos (decide_eq_true hlt)]

theorem digit?_digitChar : ∀ d < 16, digit? 16 (Nat.digitChar d) = some d := by
  decide

theorem character?_toNat (c : Char) : character? c.toNat = some c := by
  have hvalid : c.toNat < 0xD800 ∨ 0xDFFF < c.toNat ∧ c.toNat < 0x110000 := c.valid
  rw [character?, Char.ofNat_toNat, if_pos]
  simpa using hvalid

/-! ## Digits that are written and read -/

theorem foldl_push? : ∀ (cs : List Char) (n : Nat), (∀ c ∈ cs, c.isDigit = true) →
    cs.foldl (push? 10) (some n) = some (Nat.ofDigitChars 10 cs n)
  | [], _, _ => rfl
  | c :: cs, n, h => by
    rw [List.foldl_cons, push?, Option.bind_some, digit?_of_isDigit (h c List.mem_cons_self),
      Option.map_some, foldl_push? cs _ fun c hc => h c (List.mem_cons_of_mem _ hc),
      Nat.ofDigitChars_cons, Nat.mul_comm]
    rfl

theorem value?_of_isDigit {cs : List Char} (hne : cs ≠ []) (h : ∀ c ∈ cs, c.isDigit = true) :
    value? 10 cs = some (Nat.ofDigitChars 10 cs 0) := by
  have hempty : ¬cs.isEmpty = true := by simpa using hne
  rw [value?, if_neg hempty, foldl_push? cs 0 h]

theorem length_hexDigits (count n : Nat) : (hexDigits count n).length = count := by
  induction count generalizing n with
  | zero => rfl
  | succ count ih => rw [hexDigits, List.length_append, ih, List.length_singleton]

end Highlight.Numeral
