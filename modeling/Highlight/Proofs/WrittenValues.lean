import Mathlib.Algebra.Group.Nat.Defs
import Mathlib.Data.List.Forall2
import Highlight.Proofs.DistinctLists
import Highlight.Proofs.ReadGrammars
import Highlight.Theme.Raw

/-!
# Values that are written and read back

What a record, a list, a map or a number is read as when it is written in the plain way: a record as
the dictionary of the fields that are there (`Value.entries`), each under its name
(`record?_entries`, `lookup_present`), a map as the dictionary of its entries (`map?_of_forall₂`), a
list as the list of its items (`list?_of_forall₂`). `Value.Built` says of a value which scalars and
keys it is made of.
-/

namespace Highlight

namespace Value

/-- A value of lists and dictionaries, given which scalars and keys there may be. -/
inductive Built (scalar key : Value → Prop) : Value → Prop
  | scalar {v : Value} (h : scalar v) : Built scalar key v
  | list {vs : List Value} (h : ∀ v ∈ vs, Built scalar key v) : Built scalar key (.list vs)
  | dict {es : List (Value × Value)} (hkeys : ∀ e ∈ es, key e.1)
      (h : ∀ e ∈ es, Built scalar key e.2) : Built scalar key (.dict es)

theorem Built.imp {scalar scalar' key key' : Value → Prop} {v : Value}
    (h : Built scalar key v) (hscalar : ∀ v, scalar v → scalar' v) (hkey : ∀ k, key k → key' k) :
    Built scalar' key' v := by
  induction h with
  | scalar h => exact .scalar (hscalar _ h)
  | list _ ih => exact .list ih
  | dict hkeys _ ih => exact .dict (fun e he => hkey e.1 (hkeys e he)) ih

/-! ## Records -/

/-- The entry that a field is written as. -/
def entryOf (f : String × Value) : Value × Value := (.text f.1, f.2)

/-- Fields that are written are read, where all of them are known and none is there twice. -/
theorem recordWith?_map {aliases : List (String × String)} (recordsAsLists : Bool)
    {fields : Fields} {names : List String} (hfields : (fields.map (·.1)).Sublist names)
    (h : names.Nodup) (haliases : ∀ name ∈ names, aliases.lookup name = none) :
    recordWith? aliases recordsAsLists names (.dict (fields.map entryOf)) = some fields := by
  have hknown : ∀ f ∈ fields, f.1 ∈ names := fun f hf =>
    hfields.subset (List.mem_map_of_mem hf)
  have honce := eraseDups_eq_self (hfields.nodup h)
  unfold recordWith?
  dsimp only
  rw [mapM_of_forall₂ (l := fields)]
  · rw [Option.bind_eq_bind, Option.bind_some,
      List.filter_eq_self.2 fun f hf => List.contains_iff_mem.2 (hknown f hf), honce,
      List.length_map, beq_self_eq_true, if_pos rfl]
  · apply forall₂_map_right
    intro f hf
    simp [entryOf, string?, haliases f.1 (hknown f hf)]

/-- The entries of a record: the fields that are there. -/
def entries (fs : List (String × Option Value)) : List (Value × Value) :=
  fs.flatMap fun f => optionalEntry f.1 f.2

/-- The fields that are there, by name. -/
def present (fs : List (String × Option Value)) : Fields :=
  fs.filterMap fun f => f.2.map (f.1, ·)

theorem map_fst_present_sublist : ∀ fs : List (String × Option Value),
    ((present fs).map (·.1)).Sublist (fs.map (·.1))
  | [] => .slnil
  | (name, none) :: fs => (map_fst_present_sublist fs).cons name
  | (name, some _) :: fs => (map_fst_present_sublist fs).cons_cons name

/-- A field is found where it is there. -/
theorem lookup_present (name : String) : ∀ {fs : List (String × Option Value)},
    (fs.map (·.1)).Nodup → (present fs).lookup name = (fs.lookup name).join
  | [], _ => rfl
  | (other, v) :: fs, h => by
    obtain ⟨hother, hfs⟩ := List.nodup_cons.1 h
    have ih := lookup_present name hfs
    by_cases heq : name = other
    · subst heq
      rw [List.lookup_cons, beq_self_eq_true]
      cases v with
      | some v => exact List.lookup_cons_self
      | none => exact lookup_eq_none_of_notMem fun hmem =>
          hother ((map_fst_present_sublist fs).subset hmem)
    · have hne := beq_eq_false_iff_ne.2 heq
      rw [List.lookup_cons, hne]
      cases v with
      | some v =>
        show List.lookup name ((other, v) :: present fs) = _
        rw [List.lookup_cons, hne]
        exact ih
      | none => exact ih

theorem entries_eq_map : ∀ fs : List (String × Option Value),
    entries fs = (present fs).map entryOf
  | [] => rfl
  | (_, none) :: fs => entries_eq_map fs
  | (name, some v) :: fs => by
    show (.text name, v) :: entries fs = (.text name, v) :: (present fs).map entryOf
    rw [entries_eq_map fs]

/-- A record that is written is read as the fields that are there. -/
theorem recordWith?_entries {aliases : List (String × String)} (recordsAsLists : Bool)
    {fs : List (String × Option Value)} {names : List String} (hnames : fs.map (·.1) = names)
    (h : names.Nodup) (haliases : ∀ name ∈ names, aliases.lookup name = none) :
    recordWith? aliases recordsAsLists names (.dict (entries fs)) = some (present fs) := by
  rw [entries_eq_map]
  exact recordWith?_map recordsAsLists (hnames ▸ map_fst_present_sublist fs) h haliases

theorem record?_entries (recordsAsLists : Bool) {fs : List (String × Option Value)}
    {names : List String} (hnames : fs.map (·.1) = names) (h : names.Nodup) :
    record? recordsAsLists names (.dict (entries fs)) = some (present fs) :=
  recordWith?_entries recordsAsLists hnames h fun _ _ => rfl

/-- A record of parts that may be written may be written. -/
theorem built_entries {scalar key : Value → Prop} {fs : List (String × Option Value)}
    (hkeys : ∀ f ∈ fs, key (.text f.1)) (h : ∀ f ∈ fs, ∀ v ∈ f.2, Built scalar key v) :
    Built scalar key (.dict (entries fs)) := by
  have hfields : ∀ e ∈ entries fs, ∃ f ∈ fs, e.1 = .text f.1 ∧ e.2 ∈ f.2 := by
    intro e he
    rw [entries_eq_map] at he
    obtain ⟨p, hp, rfl⟩ := List.mem_map.1 he
    obtain ⟨f, hf, hvalue⟩ := List.mem_filterMap.1 hp
    obtain ⟨v, hv, rfl⟩ := Option.map_eq_some_iff.1 hvalue
    exact ⟨f, hf, rfl, hv⟩
  refine .dict (fun e he => ?_) (fun e he => ?_)
  · obtain ⟨f, hf, hkey, -⟩ := hfields e he
    rw [hkey]
    exact hkeys f hf
  · obtain ⟨f, hf, -, hv⟩ := hfields e he
    exact h f hf e.2 hv

/-! ## Fields -/

section

variable {α : Type} {fields : Fields} {name : String} {read : Reading α}

/-- A field that may be missing is read as what it is written for. -/
theorem optional?_of_rel {a : Option α}
    (h : Option.Rel (fun b w => w.isNull = false ∧ read w = some b) a (fields.lookup name)) :
    optional? fields name read = some a := by
  unfold optional?
  cases a with
  | none =>
    generalize fields.lookup name = o at h
    cases h
    rfl
  | some b =>
    generalize fields.lookup name = o at h
    cases h with
    | some hw =>
      obtain ⟨hnull, hread⟩ := hw
      simp [hnull, hread]

/-- A field that has a default value where it is missing. -/
theorem default?_of_eq {o : Option Value} {a value : α} (hfield : fields.lookup name = o)
    (hread : ∀ w ∈ o, read w = some a) (hmissing : o = none → a = value) :
    default? fields name read value = some a := by
  rw [default?, hfield]
  cases o with
  | none => rw [hmissing rfl]
  | some w => exact hread w rfl

theorem required?_of_eq {a : α} {w : Value} (hfield : fields.lookup name = some w)
    (hread : read w = some a) : required? fields name read = some a := by
  rw [required?, hfield]
  exact hread

variable {fs : List (String × Option Value)}

theorem optional?_present {write : α → Value} {a : Option α} (h : (fs.map (·.1)).Nodup)
    (hfield : fs.lookup name = some (a.map write))
    (hread : ∀ b ∈ a, (write b).isNull = false ∧ read (write b) = some b) :
    optional? (present fs) name read = some a := by
  apply optional?_of_rel
  rw [lookup_present name h, hfield]
  cases a with
  | none => exact .none
  | some b => exact .some (hread b rfl)

theorem optional?_text {a : Option String} (h : (fs.map (·.1)).Nodup)
    (hfield : fs.lookup name = some (a.map .text)) :
    optional? (present fs) name string? = some a :=
  optional?_present h hfield fun _ _ => ⟨rfl, rfl⟩

theorem default?_present {v : Option Value} {a value : α} (h : (fs.map (·.1)).Nodup)
    (hfield : fs.lookup name = some v) (hread : ∀ w ∈ v, read w = some a)
    (hmissing : v = none → a = value) : default? (present fs) name read value = some a :=
  default?_of_eq ((lookup_present name h).trans (by rw [hfield]; rfl)) hread hmissing

/-- What is left out where it is empty is read as it was written. -/
theorem default?_nonempty {read : Reading (List α)} {l : List α} {v : Value}
    (h : (fs.map (·.1)).Nodup)
    (hfield : fs.lookup name = some (if l.isEmpty then none else some v))
    (hread : read v = some l) : default? (present fs) name read [] = some l := by
  refine default?_present h hfield (fun w hw => ?_) (fun hnone => ?_)
  · split at hw
    · cases hw
    · cases hw
      exact hread
  · split at hnone
    · rename_i hempty
      exact List.isEmpty_iff.1 hempty
    · cases hnone

end

/-! ## Lists and maps -/

section

variable {α : Type} {read : Reading α}

/-- A list is read as what its items are written for. -/
theorem list?_of_forall₂ {l : List α} {vs : List Value}
    (h : List.Forall₂ (fun a v => read v = some a) l vs) : list? read (.list vs) = some l :=
  mapM_of_forall₂ h

theorem list?_map {write : α → Value} {l : List α} (h : ∀ a ∈ l, read (write a) = some a) :
    list? read (.list (l.map write)) = some l :=
  list?_of_forall₂ (forall₂_map_right h)

variable {κ : Type} [BEq κ] [LawfulBEq κ]

theorem put_append (key : κ) (value : α) : ∀ {es : List (κ × α)}, key ∉ es.map (·.1) →
    put key value es = es ++ [(key, value)]
  | [], _ => rfl
  | (k, v) :: es, h => by
    rw [List.map_cons, List.mem_cons, not_or] at h
    have hne : ¬(k == key) = true := fun heq => h.1 (beq_iff_eq.1 heq).symm
    rw [put, if_neg hne, put_append key value h.2]
    rfl

/-- Entries with keys of their own are put one after another. -/
theorem foldl_put_append : ∀ (es m : List (κ × α)), ((m ++ es).map (·.1)).Nodup →
    es.foldl (fun m e => put e.1 e.2 m) m = m ++ es
  | [], m, _ => (List.append_nil m).symm
  | (k, v) :: es, m, h => by
    have hnew : k ∉ m.map (·.1) := by
      rw [List.map_append, List.map_cons] at h
      exact fun hmem => (List.disjoint_of_nodup_append h) hmem List.mem_cons_self
    rw [List.foldl_cons, put_append k v hnew, foldl_put_append es _ (by rwa [List.append_assoc]),
      List.append_assoc]
    rfl

/-- A map with distinct keys is read as what its entries are written for. -/
theorem map?_of_forall₂ {readKey : Reading κ} {m : List (κ × α)} {es : List (Value × Value)}
    (h : (m.map (·.1)).Nodup)
    (hread : List.Forall₂ (fun e e' => readKey e'.1 = some e.1 ∧ read e'.2 = some e.2) m es) :
    map? readKey read (.dict es) = some m := by
  unfold map?
  dsimp only
  rw [mapM_of_forall₂ (l := m)]
  · rw [Option.bind_eq_bind, Option.bind_some]
    exact congrArg some (foldl_put_append m [] h)
  · apply hread.imp
    intro e e' he
    simp [he.1, he.2]

theorem map?_dict {readKey : Reading κ} {writeKey : κ → Value} {write : α → Value}
    {m : List (κ × α)} (h : (m.map (·.1)).Nodup)
    (hread : ∀ e ∈ m, readKey (writeKey e.1) = some e.1 ∧ read (write e.2) = some e.2) :
    map? readKey read (.dict (m.map fun e => (writeKey e.1, write e.2))) = some m :=
  map?_of_forall₂ h (forall₂_map_right hread)

end

/-! ## Decimal numbers -/

theorem isDigit_of_mem_toDigits {n : Nat} {c : Char} (h : c ∈ Nat.toDigits 10 n) :
    c.isDigit = true :=
  Nat.isDigit_of_mem_toDigits (by decide) (by decide) h

/-- The digits of a number start with a zero only if it is zero. -/
theorem toDigits_cases (n : Nat) : n = 0 ∧ Nat.toDigits 10 n = ['0'] ∨
    ∃ c cs, Nat.toDigits 10 n = c :: cs ∧ c ≠ '0' := by
  induction n using Nat.strongRecOn with
  | ind n ih =>
    by_cases hsmall : n < 10
    · have hdigit : ∀ m < 10, m = 0 ∨ Nat.digitChar m ≠ '0' := by decide
      rw [Nat.toDigits_of_lt_base hsmall]
      rcases hdigit n hsmall with rfl | hne
      · exact .inl ⟨rfl, rfl⟩
      · exact .inr ⟨_, [], rfl, hne⟩
    · obtain ⟨hzero, -⟩ | ⟨c, cs, hdigits, hc⟩ := ih (n / 10) (by omega)
      · omega
      · refine .inr ⟨c, cs ++ [Nat.digitChar (n % 10)], ?_, hc⟩
        have happend := Nat.toDigits_append_toDigits (b := 10) (n := n / 10) (d := n % 10)
          (by decide) (by omega) (by omega)
        rw [Nat.div_add_mod] at happend
        rw [← happend, hdigits, Nat.toDigits_of_lt_base (by omega)]
        rfl

/-- The characters of an integer: its digits, with a sign where it is negative. -/
theorem toList_toString_int (n : Int) : (toString n).toList =
    if n < 0 then '-' :: Nat.toDigits 10 n.natAbs else Nat.toDigits 10 n.natAbs := by
  cases n with
  | ofNat m =>
    show (Nat.repr m).toList = _
    rw [Nat.toList_repr]
    rfl
  | negSucc m =>
    show ("-" ++ Nat.repr (m + 1)).toList = _
    rw [String.toList_append, Nat.toList_repr, if_pos (Int.negSucc_lt_zero m)]
    rfl

/-- Whether a number may start with the character. -/
def StartsNumber (c : Char) : Prop := c = '-' ∨ c.isDigit = true

instance (c : Char) : Decidable (StartsNumber c) := inferInstanceAs (Decidable (_ ∨ _))

theorem StartsNumber.ne {c d : Char} (h : StartsNumber c)
    (hd : ¬StartsNumber d := by decide) : c ≠ d :=
  fun heq => hd (heq ▸ h)

theorem exists_toString_int (n : Int) : ∃ c cs, (toString n).toList = c :: cs ∧ StartsNumber c := by
  rw [toList_toString_int]
  split
  · exact ⟨_, _, rfl, .inl rfl⟩
  · obtain ⟨c, cs, hdigits⟩ := List.exists_cons_of_ne_nil (Nat.toDigits_ne_nil (n := n.natAbs))
    have hc := isDigit_of_mem_toDigits (n := n.natAbs) (hdigits ▸ List.mem_cons_self)
    exact ⟨c, cs, hdigits, .inr hc⟩

/-- The digits of a number are read as the number. -/
theorem value?_toDigits (n : Nat) : Numeral.value? 10 (Nat.toDigits 10 n) = some n := by
  rw [Numeral.value?_of_isDigit Nat.toDigits_ne_nil fun c => isDigit_of_mem_toDigits,
    Nat.ofDigitChars_ten_toDigits]

end Value

namespace Numeral

theorem foldl_push?_hexDigits (count n : Nat) :
    (hexDigits count n).foldl (push? 16) (some 0) = some (n % 16 ^ count) := by
  induction count generalizing n with
  | zero => rw [Nat.pow_zero, Nat.mod_one]; rfl
  | succ count ih =>
    have hsplit : n % 16 ^ (count + 1) = n / 16 % 16 ^ count * 16 + n % 16 := by
      rw [Nat.pow_succ, Nat.mul_comm _ 16, Nat.mod_mul]
      omega
    rw [hexDigits, List.foldl_append, ih, List.foldl_cons, List.foldl_nil, push?, Option.bind_some,
      digit?_digitChar _ (Nat.mod_lt n (by decide)), Option.map_some, hsplit]

/-- As many digits as a number has at most are read as the number. -/
theorem value?_hexDigits {count n : Nat} (hpos : 0 < count) (h : n < 16 ^ count) :
    value? 16 (hexDigits count n) = some n := by
  have hne : hexDigits count n ≠ [] := by
    rw [← List.length_pos_iff, length_hexDigits]
    exact hpos
  have hempty : ¬(hexDigits count n).isEmpty = true := by simpa using hne
  rw [value?, if_neg hempty, foldl_push?_hexDigits, Nat.mod_eq_of_lt h]

end Numeral

end Highlight
