import Highlight.Data.JsonText
import Highlight.Proofs.WrittenValues

/-!
# JSON texts that are read back

`Json.parse?` reads the compact text of a value as that value (`Json.parse?_rendered`), for values
of scalars that JSON has and of texts as keys. The parts of a text are read in front of whatever
follows them, a number in front of whatever does not go on with it.
-/

namespace Highlight.Json

/-! ## Strings -/

theorem fourDigits?_hexDigits {n : Nat} (h : n < 16 ^ 4) (rest : List Char) :
    fourDigits? (Numeral.hexDigits 4 n ++ rest) = some (n, rest) := by
  have hlength := Numeral.length_hexDigits 4 n
  have hle : 4 ≤ (Numeral.hexDigits 4 n ++ rest).length := by
    rw [List.length_append, hlength]
    exact Nat.le_add_right 4 _
  rw [fourDigits?, if_pos hle, List.take_left' hlength, List.drop_left' hlength,
    Numeral.value?_hexDigits (by decide) h, Option.map_some]

/-- A character is written after a backslash, by its number after a backslash, or as it is. -/
theorem escaped_cases (c : Char) :
    (∃ e, escape? e = some c ∧ escaped c = ['\\', e]) ∨
      (c.toNat < 32 ∧ escaped c = '\\' :: 'u' :: Numeral.hexDigits 4 c.toNat) ∨
      (c ≠ '"' ∧ c ≠ '\\' ∧ 32 ≤ c.toNat ∧ escaped c = [c]) := by
  have letter : ∀ {d e : Char}, (c == d) = true → escape? e = some d → escape? e = some c :=
    fun heq h => beq_iff_eq.1 heq ▸ h
  unfold escaped
  split_ifs with hquote hbackslash hfeed hreturn htab hback hform hcontrol
  · exact .inl ⟨'"', letter hquote rfl, rfl⟩
  · exact .inl ⟨'\\', letter hbackslash rfl, rfl⟩
  · exact .inl ⟨'n', letter hfeed rfl, rfl⟩
  · exact .inl ⟨'r', letter hreturn rfl, rfl⟩
  · exact .inl ⟨'t', letter htab rfl, rfl⟩
  · exact .inl ⟨'b', letter hback rfl, rfl⟩
  · exact .inl ⟨'f', letter hform rfl, rfl⟩
  · exact .inr (.inl ⟨hcontrol, rfl⟩)
  · refine .inr (.inr ⟨by simpa using hquote, by simpa using hbackslash, ?_, rfl⟩)
    exact Nat.le_of_not_lt hcontrol

theorem stringFrom_letter {c e : Char} (h : escape? e = some c) (acc : List Char) (fuel : Nat)
    (rest : List Char) : stringFrom acc true (fuel + 1) ('\\' :: e :: rest) =
      stringFrom (c :: acc) true fuel rest := by
  have hu : e ≠ 'u' := by
    rintro rfl
    cases h
  rw [stringFrom, if_neg (by decide), if_pos (by decide), h]
  exact hu

theorem stringFrom_number {c : Char} (h : c.toNat < 32) (acc : List Char) (fuel : Nat)
    (rest : List Char) : stringFrom acc true (fuel + 1)
        ('\\' :: 'u' :: (Numeral.hexDigits 4 c.toNat ++ rest)) =
      stringFrom (c :: acc) true fuel rest := by
  have hdigits := fourDigits?_hexDigits (n := c.toNat) (by omega) rest
  have hlow : c.toNat < 0xD800 := by omega
  rw [stringFrom, if_neg (by decide), if_pos (by decide)]
  simp only [hdigits, hlow, decide_true, Bool.true_or, if_true, Char.ofNat_toNat]

/-- A character within quotes is read as itself. -/
theorem stringFrom_escaped (acc : List Char) (fuel : Nat) (c : Char) (rest : List Char) :
    stringFrom acc true (fuel + 1) (escaped c ++ rest) = stringFrom (c :: acc) true fuel rest := by
  obtain ⟨e, hescape, hwritten⟩ | ⟨hcontrol, hwritten⟩ | ⟨hquote, hbackslash, hle, hwritten⟩ :=
    escaped_cases c
  · rw [hwritten]
    exact stringFrom_letter hescape acc fuel rest
  · rw [hwritten]
    exact stringFrom_number hcontrol acc fuel rest
  · rw [hwritten, List.singleton_append, stringFrom.eq_def acc]
    dsimp only
    rw [if_neg (by simpa using hquote), if_neg (by simpa using hbackslash),
      if_neg (Nat.not_lt.2 hle)]

/-- Characters within quotes are read up to the closing quote. -/
theorem stringFrom_flatMap (rest : List Char) : ∀ (cs acc : List Char) (fuel : Nat),
    cs.length < fuel → stringFrom acc true fuel (cs.flatMap escaped ++ '"' :: rest) =
      some (acc.reverse ++ cs, true, rest)
  | [], acc, fuel + 1, _ => by
    rw [List.flatMap_nil, List.nil_append, List.append_nil]
    unfold stringFrom
    dsimp only
    rw [if_pos (by decide)]
  | c :: cs, acc, fuel + 1, h => by
    rw [List.length_cons] at h
    rw [List.flatMap_cons, List.append_assoc, stringFrom_escaped,
      stringFrom_flatMap rest cs (c :: acc) fuel (by omega), List.reverse_cons, List.append_assoc]
    rfl

theorem escaped_ne_nil (c : Char) : escaped c ≠ [] := by
  obtain ⟨e, -, hwritten⟩ | ⟨-, hwritten⟩ | ⟨-, -, -, hwritten⟩ := escaped_cases c <;>
    rw [hwritten] <;> exact List.cons_ne_nil _ _

/-- The rest of a quoted text after its opening quote. -/
def afterQuote (s : String) : List Char := s.toList.flatMap escaped ++ ['"']

theorem quoted_eq (s : String) : quoted s = '"' :: afterQuote s := rfl

/-- A quoted text is read as the text. -/
theorem stringFrom_afterQuote (s : String) (rest : List Char) :
    stringFrom [] true ((afterQuote s ++ rest).length + 1) (afterQuote s ++ rest) =
      some (s.toList, true, rest) := by
  have hwritten : afterQuote s ++ rest = s.toList.flatMap escaped ++ '"' :: rest := by
    rw [afterQuote, List.append_assoc]
    rfl
  rw [hwritten]
  apply stringFrom_flatMap
  have := length_le_flatMap escaped_ne_nil s.toList
  rw [List.length_append]
  omega

/-! ## Numbers -/

/-- Whether a value may be followed by the text: nothing there goes on with a number. -/
def Ends (rest : List Char) : Prop :=
  ∀ c ∈ rest.head?, c = ',' ∨ c = ']' ∨ c = '\x7d'

theorem ends_nil : Ends [] := nofun

theorem ends_comma (rest : List Char) : Ends (',' :: rest) := by
  rintro c ⟨⟩
  exact .inl rfl

theorem ends_bracket (rest : List Char) : Ends (']' :: rest) := by
  rintro c ⟨⟩
  exact .inr (.inl rfl)

theorem ends_brace (rest : List Char) : Ends ('\x7d' :: rest) := by
  rintro c ⟨⟩
  exact .inr (.inr rfl)

variable {rest : List Char}

theorem Ends.takeWhile (h : Ends rest) : rest.takeWhile Char.isDigit = [] := by
  cases rest with
  | nil => rfl
  | cons c rest =>
    have hc : c.isDigit = false := by
      rcases h c rfl with rfl | rfl | rfl <;> rfl
    rw [List.takeWhile_cons_of_neg (by simp [hc])]

theorem Ends.afterFraction? (h : Ends rest) : afterFraction? rest = some (false, rest) := by
  unfold Json.afterFraction?
  split
  · rcases h '.' rfl with heq | heq | heq <;> cases heq
  · rfl

theorem Ends.afterExponent? (h : Ends rest) : afterExponent? rest = some (false, rest) := by
  cases rest with
  | nil => rfl
  | cons c rest =>
    rcases h c rfl with rfl | rfl | rfl <;> rfl

theorem integerDigits?_toDigits (n : Nat) (h : Ends rest) :
    integerDigits? (Nat.toDigits 10 n ++ rest) = some (Nat.toDigits 10 n, rest) := by
  obtain ⟨-, hzero⟩ | ⟨c, cs, hdigits, hc⟩ := Value.toDigits_cases n
  · rw [hzero]
    cases rest with
    | nil => rfl
    | cons c rest =>
      rcases h c rfl with rfl | rfl | rfl <;> rfl
  · have hall : ∀ d ∈ c :: cs, d.isDigit = true := fun d hd =>
      Value.isDigit_of_mem_toDigits (hdigits ▸ hd)
    have hdrop : rest.dropWhile Char.isDigit = rest := by
      have happend := List.takeWhile_append_dropWhile (p := Char.isDigit) (l := rest)
      rwa [h.takeWhile, List.nil_append] at happend
    rw [hdigits]
    unfold integerDigits?
    split
    · rename_i heq
      exact absurd (List.cons.inj heq).1 hc
    · rw [digits?, List.takeWhile_append_of_pos hall, h.takeWhile,
        List.dropWhile_append_of_pos hall, hdrop, List.append_nil]

theorem ofDigits_toDigits (n : Nat) : ofDigits (Nat.toDigits 10 n) = n := by
  have hfold : ∀ (cs : List Char) (n : Nat), cs.foldl (fun n c => n * 10 + (c.toNat - 48)) n =
      Nat.ofDigitChars 10 cs n := by
    intro cs
    induction cs with
    | nil => exact fun _ => rfl
    | cons c cs ih =>
      intro n
      rw [List.foldl_cons, ih, Nat.ofDigitChars_cons, Nat.mul_comm]
      rfl
  rw [ofDigits, hfold, Nat.ofDigitChars_ten_toDigits]

/-- An integer of 64 bits is read as it was written. -/
theorem number?_toString {n : Int} (hn : Value.isWord n = true) (h : Ends rest) :
    number? ((toString n).toList ++ rest) = some (.int n, rest) := by
  rw [Value.toList_toString_int]
  by_cases hneg : n < 0
  · have hvalue : integerValue true n.natAbs = .int n := by
      have habs : -(n.natAbs : Int) = n := by omega
      have hzero : (n.natAbs == 0) = false := by
        rw [beq_eq_false_iff_ne]
        omega
      show (if Value.isWord (-(n.natAbs : Int)) && !(n.natAbs == 0) then
        Value.int (-(n.natAbs : Int)) else .real) = _
      rw [hzero, habs, hn]
      rfl
    rw [if_pos hneg]
    unfold number?
    simp [integerDigits?_toDigits n.natAbs h, h.afterFraction?, h.afterExponent?,
      ofDigits_toDigits, hvalue]
  · have hvalue : integerValue false n.natAbs = .int n := by
      have habs : (n.natAbs : Int) = n := by omega
      show (if Value.isWord (n.natAbs : Int) && true then Value.int n.natAbs else .real) = _
      rw [habs, hn]
      rfl
    rw [if_neg hneg, number?]
    · simp [integerDigits?_toDigits n.natAbs h, h.afterFraction?, h.afterExponent?,
        ofDigits_toDigits, hvalue]
    · intro cs heq
      obtain ⟨c, ds, hdigits⟩ := List.exists_cons_of_ne_nil (Nat.toDigits_ne_nil (n := n.natAbs))
      have hdigit := Value.isDigit_of_mem_toDigits (n := n.natAbs) (hdigits ▸ List.mem_cons_self)
      rw [hdigits] at heq
      rw [(List.cons.inj heq).1] at hdigit
      cases hdigit

/-! ## Values -/

/-- The scalars that JSON has. -/
inductive IsScalar : Value → Prop
  | null : IsScalar .null
  | bool (b : Bool) : IsScalar (.bool b)
  | int {n : Int} (h : Value.isWord n = true) : IsScalar (.int n)
  | text (s : String) : IsScalar (.text s)

/-- Keys are texts. -/
inductive IsKey : Value → Prop
  | text (s : String) : IsKey (.text s)

/-- The values that have a JSON text. -/
abbrev Writable : Value → Prop := Value.Built IsScalar IsKey

/-- Whether the value is read in front of whatever may follow it. -/
def ReadsBack (v : Value) : Prop :=
  ∀ (fuel : Nat) (rest : List Char), (characters v).length ≤ fuel → Ends rest →
    value? fuel (characters v ++ rest) = some (v, rest)

theorem skip_of_not_blank {c : Char} (h : isBlank c = false) (cs : List Char) :
    skip (c :: cs) = c :: cs :=
  List.dropWhile_cons_of_neg (by simp [h])

/-- Whether a character starts a value: it is no blank and ends no list. -/
def Starts (c : Char) : Prop := isBlank c = false ∧ c ≠ ']'

instance (c : Char) : Decidable (Starts c) := inferInstanceAs (Decidable (_ ∧ _))

theorem starts_of_startsNumber {c : Char} (h : Value.StartsNumber c) : Starts c := by
  refine ⟨?_, h.ne⟩
  simp only [isBlank, Bool.or_eq_false_iff, beq_eq_false_iff_ne]
  exact ⟨⟨⟨h.ne, h.ne⟩, h.ne⟩, h.ne⟩

theorem exists_characters {v : Value} (h : Writable v) :
    ∃ c cs, characters v = c :: cs ∧ Starts c := by
  cases h with
  | list h => exact ⟨_, _, rfl, by decide⟩
  | dict hkeys h => exact ⟨_, _, rfl, by decide⟩
  | scalar h =>
    cases h with
    | null => exact ⟨_, _, rfl, by decide⟩
    | bool b => cases b <;> exact ⟨_, _, rfl, by decide⟩
    | text s => exact ⟨_, _, rfl, by decide⟩
    | @int n h =>
      obtain ⟨c, cs, hwritten, hc⟩ := Value.exists_toString_int n
      exact ⟨c, cs, hwritten, starts_of_startsNumber hc⟩

theorem value?_startsNumber {c : Char} (h : Value.StartsNumber c) (fuel : Nat) (cs : List Char) :
    value? (fuel + 1) (c :: cs) = number? (c :: cs) := by
  rw [value?, skip_of_not_blank (starts_of_startsNumber h).1]
  split
  · rename_i heq
    cases heq
  · rename_i heq
    exact absurd (List.cons.inj heq).1 h.ne
  · rename_i heq
    exact absurd (List.cons.inj heq).1 h.ne
  · rename_i heq
    exact absurd (List.cons.inj heq).1 h.ne
  · rename_i heq
    obtain ⟨rfl, rfl⟩ := List.cons.inj heq
    have letter : ∀ d, c ≠ d → ¬(c == d) = true := fun d hne heq => hne (beq_iff_eq.1 heq)
    rw [if_neg (letter _ h.ne), if_neg (letter _ h.ne), if_neg (letter _ h.ne)]

theorem value?_text (s : String) (fuel : Nat) (rest : List Char) :
    value? (fuel + 1) (quoted s ++ rest) = some (.text s, rest) := by
  have hskip := skip_of_not_blank (c := '"') (by decide) (afterQuote s ++ rest)
  rw [quoted_eq, List.cons_append]
  simp only [value?, hskip, stringFrom_afterQuote, String.ofList_toList]

/-- A scalar is read as it was written. -/
theorem IsScalar.readsBack {v : Value} (h : IsScalar v) : ReadsBack v := by
  intro fuel rest hfuel hrest
  obtain ⟨c, cs, hwritten, -⟩ := exists_characters (.scalar h)
  rw [hwritten, List.length_cons] at hfuel
  obtain ⟨fuel, rfl⟩ := Nat.exists_eq_add_one.2 (Nat.zero_lt_of_lt hfuel)
  cases h with
  | null => rfl
  | bool b => cases b <;> rfl
  | text s => exact value?_text s fuel rest
  | @int n hn =>
    obtain ⟨c, cs, hwritten, hc⟩ := Value.exists_toString_int n
    have hread := number?_toString hn hrest
    rw [hwritten, List.cons_append] at hread
    rw [characters, hwritten, List.cons_append, value?_startsNumber hc, hread]

/-! ## Lists -/

theorem items_cons {v : Value} {vs : List Value} (h : vs ≠ []) :
    characters.items (v :: vs) = characters v ++ ',' :: characters.items vs := by
  cases vs with
  | nil => exact absurd rfl h
  | cons w vs => rfl

/-- The items of a list are read up to its end. -/
theorem items?_items (rest : List Char) : ∀ (vs acc : List Value) (fuel : Nat), vs ≠ [] →
    (∀ v ∈ vs, ReadsBack v) → (characters.items vs).length < fuel →
      items? fuel acc (characters.items vs ++ ']' :: rest) = some (acc.reverse ++ vs, rest)
  | [], _, _, h, _, _ => absurd rfl h
  | [v], acc, fuel + 1, _, hread, hfuel => by
    have hv := hread v List.mem_cons_self fuel (']' :: rest) (Nat.le_of_lt_succ hfuel)
      (ends_bracket rest)
    rw [items?, characters.items, hv]
    show some ((v :: acc).reverse, rest) = _
    rw [List.reverse_cons]
  | v :: w :: vs, acc, fuel + 1, _, hread, hfuel => by
    have hwritten := items_cons (v := v) (List.cons_ne_nil w vs)
    rw [hwritten, List.length_append, List.length_cons] at hfuel
    have hv := hread v List.mem_cons_self fuel
      (',' :: (characters.items (w :: vs) ++ ']' :: rest)) (by omega) (ends_comma _)
    have hvs := items?_items rest (w :: vs) (v :: acc) fuel (List.cons_ne_nil w vs)
      (fun u hu => hread u (List.mem_cons_of_mem _ hu)) (by omega)
    rw [items?, hwritten, List.append_assoc, List.cons_append, hv]
    show items? fuel (v :: acc) _ = _
    rw [hvs, List.reverse_cons, List.append_assoc]
    rfl

theorem exists_items {v : Value} (vs : List Value) (h : Writable v) :
    ∃ c cs, characters.items (v :: vs) = c :: cs ∧ Starts c := by
  obtain ⟨c, cs, hwritten, hc⟩ := exists_characters h
  cases vs with
  | nil => exact ⟨c, cs, hwritten, hc⟩
  | cons w vs =>
    refine ⟨c, cs ++ ',' :: characters.items (w :: vs), ?_, hc⟩
    rw [items_cons (List.cons_ne_nil w vs), hwritten]
    rfl

theorem readsBack_list {vs : List Value} (hvs : ∀ v ∈ vs, Writable v)
    (hread : ∀ v ∈ vs, ReadsBack v) : ReadsBack (.list vs) := by
  intro fuel rest hfuel _
  cases fuel with
  | zero => cases hfuel
  | succ fuel =>
  cases vs with
  | nil => rfl
  | cons v vs =>
    obtain ⟨c, cs, hwritten, hblank, hbracket⟩ := exists_items vs
      (hvs v List.mem_cons_self)
    have hlength : (characters.items (v :: vs)).length < fuel := by
      rw [characters, List.cons_append, List.length_cons, List.length_append] at hfuel
      exact Nat.lt_of_succ_le (Nat.le_of_succ_le_succ hfuel)
    have hitems := items?_items rest (v :: vs) [] fuel (List.cons_ne_nil v vs) hread hlength
    have hbegin := skip_of_not_blank (c := '[') (by decide)
      (characters.items (v :: vs) ++ ']' :: rest)
    have hskip : skip (characters.items (v :: vs) ++ ']' :: rest) =
        characters.items (v :: vs) ++ ']' :: rest := by
      rw [hwritten]
      exact skip_of_not_blank hblank _
    -- no value starts like the end of a list, so the list is not taken for an empty one
    have hopen : ∀ cs', characters.items (v :: vs) ++ ']' :: rest ≠ ']' :: cs' := by
      intro cs' heq
      rw [hwritten] at heq
      exact hbracket (List.cons.inj heq).1
    rw [characters, List.cons_append, List.cons_append, List.append_assoc, List.singleton_append]
    simp only [value?, hbegin, hskip, hitems, Option.map_some]
    rfl

/-! ## Dictionaries -/

theorem pairs_cons {k v : Value} {es : List (Value × Value)} (h : es ≠ []) :
    characters.pairs ((k, v) :: es) =
      quoted (keyText k) ++ ':' :: characters v ++ ',' :: characters.pairs es := by
  cases es with
  | nil => exact absurd rfl h
  | cons e es => rfl

section Entry

variable {v : Value} (fuel : Nat) (s : String) (acc : List (Value × Value)) (rest : List Char)

theorem entries?_more (h : ReadsBack v) (hfuel : (characters v).length ≤ fuel) :
    entries? (fuel + 1) acc (quoted s ++ ':' :: (characters v ++ ',' :: rest)) =
      entries? fuel ((.text s, v) :: acc) rest := by
  have hv := h fuel (',' :: rest) hfuel (ends_comma rest)
  have hquote := skip_of_not_blank (c := '"') (by decide)
    (afterQuote s ++ ':' :: (characters v ++ ',' :: rest))
  have hcolon := skip_of_not_blank (c := ':') (by decide) (characters v ++ ',' :: rest)
  have hcomma := skip_of_not_blank (c := ',') (by decide) rest
  rw [quoted_eq, List.cons_append]
  simp only [entries?, hquote, stringFrom_afterQuote, hcolon, hv, hcomma, String.ofList_toList]

theorem entries?_last (h : ReadsBack v) (hfuel : (characters v).length ≤ fuel) :
    entries? (fuel + 1) acc (quoted s ++ ':' :: (characters v ++ '\x7d' :: rest)) =
      some (((.text s, v) :: acc).reverse, rest) := by
  have hv := h fuel ('\x7d' :: rest) hfuel (ends_brace rest)
  have hquote := skip_of_not_blank (c := '"') (by decide)
    (afterQuote s ++ ':' :: (characters v ++ '\x7d' :: rest))
  have hcolon := skip_of_not_blank (c := ':') (by decide) (characters v ++ '\x7d' :: rest)
  have hbrace := skip_of_not_blank (c := '\x7d') (by decide) rest
  rw [quoted_eq, List.cons_append]
  simp only [entries?, hquote, stringFrom_afterQuote, hcolon, hv, hbrace, String.ofList_toList]

end Entry

/-- The entries of a dictionary are read up to its end. -/
theorem entries?_pairs (rest : List Char) : ∀ (es acc : List (Value × Value)) (fuel : Nat),
    es ≠ [] → (∀ e ∈ es, IsKey e.1) → (∀ e ∈ es, ReadsBack e.2) →
      (characters.pairs es).length < fuel →
      entries? fuel acc (characters.pairs es ++ '\x7d' :: rest) = some (acc.reverse ++ es, rest)
  | [], _, _, h, _, _, _ => absurd rfl h
  | [(k, v)], acc, fuel + 1, _, hkeys, hread, hfuel => by
    obtain ⟨s⟩ := hkeys _ List.mem_cons_self
    rw [characters.pairs, List.length_append, List.length_cons] at hfuel
    have hv : ReadsBack v := hread _ List.mem_cons_self
    have hlast := entries?_last fuel s acc rest hv (by omega)
    rw [characters.pairs, List.append_assoc, List.cons_append]
    exact hlast.trans (by rw [List.reverse_cons])
  | (k, v) :: e :: es, acc, fuel + 1, _, hkeys, hread, hfuel => by
    obtain ⟨s⟩ := hkeys _ List.mem_cons_self
    have hwritten := pairs_cons (k := .text s) (v := v) (List.cons_ne_nil e es)
    rw [hwritten, List.length_append, List.length_append, List.length_cons, List.length_cons]
      at hfuel
    have hv : ReadsBack v := hread _ List.mem_cons_self
    have hmore := entries?_more fuel s acc (characters.pairs (e :: es) ++ '\x7d' :: rest) hv
      (by omega)
    have hes := entries?_pairs rest (e :: es) ((.text s, v) :: acc) fuel (List.cons_ne_nil e es)
      (fun e' he' => hkeys e' (List.mem_cons_of_mem _ he'))
      (fun e' he' => hread e' (List.mem_cons_of_mem _ he')) (by omega)
    rw [hwritten, List.append_assoc, List.append_assoc, List.cons_append, List.cons_append]
    rw [hes, List.reverse_cons, List.append_assoc] at hmore
    exact hmore

theorem exists_pairs {e : Value × Value} (es : List (Value × Value)) :
    ∃ cs, characters.pairs (e :: es) = '"' :: cs := by
  cases es with
  | nil => exact ⟨_, rfl⟩
  | cons e' es => exact ⟨_, rfl⟩

theorem readsBack_dict {es : List (Value × Value)} (hkeys : ∀ e ∈ es, IsKey e.1)
    (hread : ∀ e ∈ es, ReadsBack e.2) : ReadsBack (.dict es) := by
  intro fuel rest hfuel _
  cases fuel with
  | zero => cases hfuel
  | succ fuel =>
  cases es with
  | nil => rfl
  | cons e es =>
    obtain ⟨cs, hwritten⟩ := exists_pairs es
    have hlength : (characters.pairs (e :: es)).length < fuel := by
      rw [characters, List.cons_append, List.length_cons, List.length_append] at hfuel
      exact Nat.lt_of_succ_le (Nat.le_of_succ_le_succ hfuel)
    have hentries := entries?_pairs rest (e :: es) [] fuel (List.cons_ne_nil e es) hkeys hread
      hlength
    have hbegin := skip_of_not_blank (c := '\x7b') (by decide)
      (characters.pairs (e :: es) ++ '\x7d' :: rest)
    have hskip : skip (characters.pairs (e :: es) ++ '\x7d' :: rest) =
        characters.pairs (e :: es) ++ '\x7d' :: rest := by
      rw [hwritten]
      exact skip_of_not_blank (by decide) _
    have hopen : ∀ cs', characters.pairs (e :: es) ++ '\x7d' :: rest ≠ '\x7d' :: cs' := by
      intro cs' heq
      rw [hwritten] at heq
      exact absurd (List.cons.inj heq).1 (by decide)
    rw [characters, List.cons_append, List.cons_append, List.append_assoc, List.singleton_append]
    simp only [value?, hbegin, hskip, hentries, Option.map_some]
    rfl

/-! ## Texts -/

/-- A value that has a JSON text is read in front of whatever may follow it. -/
theorem Writable.readsBack {v : Value} (h : Writable v) : ReadsBack v := by
  induction h with
  | scalar h => exact h.readsBack
  | list h ih => exact readsBack_list h ih
  | dict hkeys _ ih => exact readsBack_dict hkeys ih

/-- The text of a value is read as the value. -/
theorem parse?_rendered {v : Value} (h : Writable v) : parse? (render v) = some v := by
  have hread := Writable.readsBack h (2 * (characters v).length + 2) [] (by omega) ends_nil
  rw [List.append_nil] at hread
  rw [parse?, render, String.toList_ofList, hread]
  rfl

end Highlight.Json
