import Highlight.Proofs.SpelledGrammars

/-!
# Grammars that are written and read back

A value that spells a grammar is read as the grammar (`RawGrammar.read?_spelled`), if maps have
distinct keys, captures stand in the order of their groups, and the value nests no deeper than the
format allows. A flag and the number of a group are read as what they are spelled for
(`GrammarFormat.FlagSpelling.read`, `GrammarFormat.IndexSpelling.read`), and from these a record, a
list and a map are (`GrammarFormat.Spelling.record?`, `GrammarFormat.Spelled.optional`).
-/

namespace Highlight

open Value

/-! ## Words without quotes -/

namespace Value

/-- An integer is none of the words that do not start like a number. -/
theorem contains_toString_int {words : List String} (n : Int)
    (h : (words.any fun s => s.toList.head?.any fun c => StartsNumber c) = false) :
    words.contains (toString n) = false := by
  obtain ⟨c, cs, hwritten, hc⟩ := exists_toString_int n
  rw [Bool.eq_false_iff, ne_eq, List.contains_iff_mem]
  intro hmem
  have hstarts := List.any_eq_false.1 h _ hmem
  rw [hwritten] at hstarts
  exact hstarts (decide_eq_true hc)

theorem magnitude?_toDigits (n : Nat) : magnitude? (Nat.toDigits 10 n) = some n := by
  have hread := value?_toDigits n
  obtain ⟨rfl, hzero⟩ | ⟨c, cs, hdigits, hc⟩ := toDigits_cases n
  · rw [hzero]
    rfl
  · rw [hdigits] at hread ⊢
    unfold magnitude?
    split
    · rename_i heq
      exact absurd (List.cons.inj heq).1 hc
    · rename_i heq
      exact absurd (List.cons.inj heq).1 hc
    · rename_i heq
      exact absurd (List.cons.inj heq).1 hc
    · rename_i heq
      exact absurd (List.cons.inj heq).1 hc
    · rename_i heq
      exact absurd (List.cons.inj heq).1 hc
    · exact hread

theorem integerWord?_toString (n : Int) : integerWord? (toString n) = some n := by
  unfold integerWord?
  rw [toList_toString_int]
  by_cases hneg : n < 0
  · rw [if_pos hneg]
    have habs : -(n.natAbs : Int) = n := by omega
    simp only [magnitude?_toDigits]
    exact congrArg some habs
  · rw [if_neg hneg]
    have hfirst : ∀ c cs, Nat.toDigits 10 n.natAbs = c :: cs → c.isDigit = true :=
      fun c cs h => isDigit_of_mem_toDigits (n := n.natAbs) (h ▸ List.mem_cons_self)
    split
    · rename_i heq
      cases hfirst _ _ heq
    · rename_i heq
      cases hfirst _ _ heq
    · have habs : (n.natAbs : Int) = n := by omega
      rw [magnitude?_toDigits]
      exact congrArg some habs

theorem isNullWord_toString (n : Int) : isNullWord (toString n) = false :=
  contains_toString_int n (by decide)

theorem boolWord?_toString (n : Int) : boolWord? (toString n) = none := by
  rw [boolWord?, contains_toString_int n (by decide), contains_toString_int n (by decide)]
  rfl

/-- An integer of 64 bits without quotes stands for itself. -/
theorem resolve_plain_toString {n : Int} (h : isWord n = true) :
    resolve (.plain (toString n)) = .int n := by
  rw [resolve, isNullWord_toString, if_neg (by decide), boolWord?_toString]
  simp only [integerWord?_toString, h, if_true]

end Value

namespace GrammarFormat

variable {format : GrammarFormat}

theorem isNull_boolean (b : Bool) : (format.boolean b).isNull = false := by
  cases format <;> cases b <;> decide

theorem isNull_integer (n : Int) : (format.integer n).isNull = false := by
  cases format with
  | yaml => exact isNullWord_toString n
  | json => rfl
  | propertyList => rfl

theorem resolve_integer {n : Int} (h : isWord n = true) :
    (format.integer n).resolve = .int n := by
  cases format with
  | yaml => exact resolve_plain_toString h
  | json => rfl
  | propertyList => rfl

/-- A flag is read as what it is spelled for. -/
theorem FlagSpelling.read {b : Bool} {w : Value} (h : FlagSpelling format b w) :
    w.isNull = false ∧ RawRule.flag? w = some b := by
  cases h with
  | boolean b => exact ⟨isNull_boolean b, by cases format <;> cases b <;> decide⟩
  | @integer n h =>
    refine ⟨isNull_integer n, ?_⟩
    rw [RawRule.flag?, resolve_integer h]
  | one => decide
  | word => decide

/-! ## Numbers of groups -/

/-- The digits of a number with zeros in front. -/
def paddedDigits (zeros n : Nat) : List Char := List.replicate zeros '0' ++ Nat.toDigits 10 n

theorem isDigit_of_mem_paddedDigits {zeros n : Nat} {c : Char} (h : c ∈ paddedDigits zeros n) :
    c.isDigit = true := by
  rcases List.mem_append.1 h with h | h
  · rw [List.eq_of_mem_replicate h]
    rfl
  · exact isDigit_of_mem_toDigits h

theorem paddedDigits_ne_nil (zeros n : Nat) : paddedDigits zeros n ≠ [] :=
  List.append_ne_nil_of_right_ne_nil _ Nat.toDigits_ne_nil

theorem value?_paddedDigits (zeros n : Nat) : Numeral.value? 10 (paddedDigits zeros n) = some n := by
  have hzeros : Nat.ofDigitChars 10 (List.replicate zeros '0') 0 = 0 := by
    induction zeros with
    | zero => rfl
    | succ zeros ih => exact ih
  rw [Numeral.value?_of_isDigit (paddedDigits_ne_nil zeros n) fun _ => isDigit_of_mem_paddedDigits,
    paddedDigits, Nat.ofDigitChars_append, hzeros, Nat.ofDigitChars_ten_toDigits]

theorem isWhiteSpace_of_isDigit {c : Char} (h : c.isDigit = true) :
    Property.isWhiteSpace c = false := by
  have hbounds := Char.isDigit_iff_toNat.1 h
  have hlow : 48 ≤ c.toNat := hbounds.1
  have hhigh : c.toNat ≤ 57 := hbounds.2
  exact Property.isWhiteSpace_of_between (by omega)

/-- The text of a number is read past its white space and sign. -/
theorem indexText?_indexText {before after : List Char}
    (hbefore : before.all Property.isWhiteSpace = true)
    (hafter : after.all Property.isWhiteSpace = true) (plus : Bool) (zeros : Nat) {n : Nat}
    (hn : n < UInt64.size) :
    RawRule.indexText? (indexText before after plus zeros n) = some n := by
  have hne := paddedDigits_ne_nil zeros n
  have hall : (paddedDigits zeros n).all Char.isDigit = true :=
    List.all_eq_true.2 fun _ => isDigit_of_mem_paddedDigits
  have hsign : ∀ c ∈ (if plus then ['+'] else []) ++ paddedDigits zeros n,
      Property.isWhiteSpace c = false := by
    intro c hc
    rcases List.mem_append.1 hc with hc | hc
    · cases plus with
      | true =>
        rw [List.mem_singleton.1 hc]
        decide
      | false => cases hc
    · exact isWhiteSpace_of_isDigit (isDigit_of_mem_paddedDigits hc)
  have htrim := Blank.trim_append hbefore hafter (List.append_ne_nil_of_right_ne_nil _ hne) hsign
  have htext : (indexText before after plus zeros n).toList =
      before ++ ((if plus then ['+'] else []) ++ paddedDigits zeros n) ++ after :=
    String.toList_ofList
  rw [RawRule.indexText?, htext, htrim]
  cases plus with
  | true =>
    show (if (paddedDigits zeros n).all Char.isDigit then
      (Numeral.value? 10 (paddedDigits zeros n)).bind _ else none) = _
    rw [if_pos hall, value?_paddedDigits, Option.bind_some, if_pos hn]
  | false =>
    -- without a sign the digits come first, and none of them is one
    have hdigits : ∀ c ∈ paddedDigits zeros n, c.isDigit = true :=
      fun _ => isDigit_of_mem_paddedDigits
    have hplus : ∀ cs, paddedDigits zeros n ≠ '+' :: cs := fun cs heq => by
      cases hdigits '+' (heq ▸ List.mem_cons_self)
    simp only [Bool.false_eq_true, if_false, List.nil_append]
    rw [if_pos hall, value?_paddedDigits, Option.bind_some, if_pos hn]

/-- The number of a group is read as what it is spelled for, if it fits 64 bits. -/
theorem IndexSpelling.read {n : Nat} {w : Value} (h : IndexSpelling format n w)
    (hn : n < UInt64.size) : RawRule.index? w = some n := by
  cases h with
  | text hbefore hafter plus zeros => exact indexText?_indexText hbefore hafter plus zeros hn
  | integer h =>
    have hword : isWord (n : Int) = true := by
      have hlt : n < 18446744073709551616 := hn
      simp only [isWord, Bool.and_eq_true, decide_eq_true_eq]
      omega
    rw [RawRule.index?, resolve_integer hword]
    simp

end GrammarFormat

/-! ## Depth -/

namespace Value

theorem depth_le_depthOfList {v : Value} : ∀ {vs : List Value}, v ∈ vs →
    v.depth ≤ depth.depthOfList vs
  | w :: vs, h => by
    rw [depth.depthOfList]
    rcases List.mem_cons.1 h with rfl | h
    · exact Nat.le_max_left _ _
    · exact Nat.le_trans (depth_le_depthOfList h) (Nat.le_max_right _ _)

theorem depth_lt_list {v : Value} {vs : List Value} (h : v ∈ vs) :
    v.depth < (Value.list vs).depth := by
  rw [depth]
  exact Nat.lt_succ_of_le (depth_le_depthOfList h)

theorem depth_le_depthOfEntries {e : Value × Value} : ∀ {es : List (Value × Value)}, e ∈ es →
    e.2.depth ≤ depth.depthOfEntries es
  | (k, v) :: es, h => by
    rw [depth.depthOfEntries]
    rcases List.mem_cons.1 h with rfl | h
    · exact Nat.le_trans (Nat.le_max_right _ _) (Nat.le_max_left _ _)
    · exact Nat.le_trans (depth_le_depthOfEntries h) (Nat.le_max_right _ _)

theorem depth_lt_dict {e : Value × Value} {es : List (Value × Value)} (h : e ∈ es) :
    e.2.depth < (Value.dict es).depth := by
  rw [depth]
  exact Nat.lt_succ_of_le (depth_le_depthOfEntries h)

end Value

namespace GrammarFormat

variable {format : GrammarFormat}

/-- What a part of a value is spelled as: a value that nests less deep. -/
def SpellingIn (format : GrammarFormat) (w v v' : Value) : Prop :=
  Spelling format v v' ∧ v'.depth < w.depth

theorem exists_fields : ∀ {fields : Fields} {es : List (Value × Value)},
    List.Forall₂ (fun e e' => Spelling format e.1 e'.1 ∧ Spelling format e.2 e'.2)
        (fields.map entryOf) es →
      ∃ fields' : Fields, es = fields'.map entryOf ∧ fields'.map (·.1) = fields.map (·.1) ∧
        List.Forall₂ (fun f f' => f'.1 = f.1 ∧ Spelling format f.2 f'.2) fields fields'
  | [], _, h => by
    cases h
    exact ⟨[], rfl, rfl, .nil⟩
  | f :: fields, _, h => by
    cases h with
    | @cons _ e' _ es he hes =>
      obtain ⟨fields', rfl, hnames, hfields⟩ := exists_fields hes
      refine ⟨(f.1, e'.2) :: fields', ?_, ?_, .cons ⟨rfl, he.2⟩ hfields⟩
      · have hkey : e'.1 = .text f.1 := he.1.eq_text
        rw [List.map_cons, entryOf, ← hkey]
      · rw [List.map_cons, List.map_cons, hnames]

theorem lookup_rel {fields fields' : Fields} (name : String)
    (h : List.Forall₂ (fun f f' => f'.1 = f.1 ∧ Spelling format f.2 f'.2) fields fields') :
    Option.Rel (Spelling format) (fields.lookup name) (fields'.lookup name) := by
  induction h with
  | nil => exact .none
  | @cons f f' _ _ hf _ ih =>
    rw [List.lookup_cons, List.lookup_cons, hf.1]
    cases name == f.1 with
    | true => exact .some hf.2
    | false => exact ih

/-- The fields that were read from a value spell the fields of a record. -/
def Spelled (format : GrammarFormat) (w : Value) (fs : List (String × Option Value))
    (fields : Fields) : Prop :=
  ∀ name o, fs.lookup name = some o → Option.Rel (SpellingIn format w) o (fields.lookup name)

/-- A record that is spelled is read as fields that are spelled. -/
theorem Spelling.record? {fs : List (String × Option Value)} {w : Value}
    (h : Spelling format (.dict (entries fs)) w) (recordsAsLists : Bool) {names : List String}
    (hnames : fs.map (·.1) = names) (hnodup : names.Nodup) :
    ∃ fields : Fields, record? recordsAsLists names w = some fields ∧
      Spelled format w fs fields := by
  obtain ⟨es, rfl, hes⟩ := h.dict
  rw [entries_eq_map] at hes
  obtain ⟨fields, rfl, hkeys, hfields⟩ := exists_fields hes
  have hsublist : (fields.map (·.1)).Sublist names := by
    rw [hkeys, ← hnames]
    exact map_fst_present_sublist fs
  refine ⟨fields, recordWith?_map recordsAsLists hsublist hnodup fun _ _ => rfl, ?_⟩
  intro name o ho
  have hlookup := lookup_rel name hfields
  have hpresent : (present fs).lookup name = o := by
    rw [lookup_present name (hnames ▸ hnodup), ho]
    rfl
  rw [hpresent] at hlookup
  have hdepth : ∀ v' ∈ fields.lookup name,
      v'.depth < (Value.dict (fields.map entryOf)).depth := fun v' hv' =>
    depth_lt_dict (List.mem_map_of_mem (f := entryOf) (mem_of_lookup_eq_some hv'))
  generalize fields.lookup name = found at hlookup hdepth
  cases hlookup with
  | none => exact .none
  | some h => exact .some ⟨h, hdepth _ rfl⟩

end GrammarFormat

/-! ## Rules -/

namespace RawRule

open GrammarFormat

variable {format : GrammarFormat} {w : Value} {read : Reading RawRule}

theorem patterns_spelled {rs : List RawRule} (h : Spelling format (patternsValue rs) w)
    (hread : ∀ r ∈ rs, ∀ w', SpellingIn format w r.value w' → read w' = some r) :
    w.isNull = false ∧ list? read w = some rs := by
  obtain ⟨ws, rfl, hws⟩ := h.list
  refine ⟨rfl, list?_of_forall₂ ((forall₂_mem (List.forall₂_map_left_iff.1 hws)).imp ?_)⟩
  intro r w' hr
  obtain ⟨hspells, hr, hw'⟩ := hr
  exact hread r hr w' ⟨hspells, depth_lt_list hw'⟩

/-- The entries of a map are read as what they are spelled for. -/
theorem entries_spelled {κ : Type} {key : Reading κ} (writeKey : κ → Value)
    {es : List (κ × RawRule)} {es' : List (Value × Value)}
    (h : List.Forall₂ (fun e e' => Spelling format e.1 e'.1 ∧ Spelling format e.2 e'.2)
      (es.map fun e => (writeKey e.1, e.2.value)) es')
    (hkey : ∀ e ∈ es, ∀ k, Spelling format (writeKey e.1) k → key k = some e.1)
    (hread : ∀ e ∈ es, ∀ w', SpellingIn format (.dict es') e.2.value w' → read w' = some e.2) :
    List.Forall₂ (fun e e' => key e'.1 = some e.1 ∧ read e'.2 = some e.2) es es' := by
  apply (forall₂_mem (List.forall₂_map_left_iff.1 h)).imp
  intro e e' he
  obtain ⟨⟨hspellsKey, hspells⟩, he, he'⟩ := he
  exact ⟨hkey e he e'.1 hspellsKey, hread e he e'.2 ⟨hspells, depth_lt_dict he'⟩⟩

theorem repository_spelled {es : List (String × RawRule)} (hkeys : (es.map (·.1)).Nodup)
    (h : Spelling format (repositoryValue es) w)
    (hread : ∀ e ∈ es, ∀ w', SpellingIn format w e.2.value w' → read w' = some e.2) :
    w.isNull = false ∧ map? string? read w = some es := by
  obtain ⟨es', rfl, hes⟩ := h.dict
  refine ⟨rfl, map?_of_forall₂ hkeys (entries_spelled .text hes ?_ hread)⟩
  intro e _ k hk
  rw [hk.eq_text]
  rfl

theorem captures_spelled {cs : List (Nat × RawRule)} (hkeyed : CapturesKeyed cs)
    (h : Spelling format (capturesValue cs) w)
    (hread : ∀ c ∈ cs, ∀ w', SpellingIn format w c.2.value w' → read w' = some c.2) :
    w.isNull = false ∧ captures? read w = some cs := by
  obtain ⟨es', rfl, hes⟩ := h.dict
  have hkeys : (cs.map (·.1)).Nodup :=
    List.pairwise_map.2 (hkeyed.ascending.imp fun h => Nat.ne_of_lt h)
  have hentries : List.Forall₂ (fun c e => index? e.1 = some c.1 ∧ read e.2 = some c.2) cs es' :=
    entries_spelled (fun n : Nat => .int n) hes (fun c hc k hk => ?_) hread
  · have hmap := map?_of_forall₂ hkeys hentries
    have hsorted : cs.Pairwise fun c d => (decide (c.1 ≤ d.1)) = true :=
      hkeyed.ascending.imp fun h => decide_eq_true (Nat.le_of_lt h)
    refine ⟨rfl, ?_⟩
    rw [captures?, hmap, Option.map_some, List.mergeSort_of_pairwise hsorted]
  · cases hk with
    | index h => exact h.read (hkeyed.fits c hc)

theorem text_spelled {s : String} (h : Spelling format (.text s) w) :
    w.isNull = false ∧ string? w = some s := by
  rw [h.eq_text]
  exact ⟨rfl, rfl⟩

theorem flag_spelled {b : Bool} (h : Spelling format (.bool b) w) :
    w.isNull = false ∧ flag? w = some b := by
  cases h with
  | flag h => exact h.read

theorem one_le_depth {v : Value} {es : List (Value × Value)} (h : Spelling format (.dict es) v) :
    1 ≤ v.depth := by
  obtain ⟨es', rfl, -⟩ := h.dict
  exact Nat.succ_le_succ (Nat.zero_le _)

theorem one_le_depth_list {v : Value} {vs : List Value} (h : Spelling format (.list vs) v) :
    1 ≤ v.depth := by
  obtain ⟨ws, rfl, -⟩ := h.list
  exact Nat.succ_le_succ (Nat.zero_le _)

end RawRule

/-! ## Fields -/

namespace GrammarFormat.Spelled

open RawRule

variable {format : GrammarFormat} {w : Value} {fs : List (String × Option Value)}
  {fields : Fields} {name : String}

/-- A field is read as what it is spelled for. -/
theorem optional {α : Type} {read : Reading α} {write : α → Value} {a : Option α}
    (h : Spelled format w fs fields) (hfield : fs.lookup name = some (a.map write))
    (hread : ∀ b ∈ a, ∀ v, SpellingIn format w (write b) v → v.isNull = false ∧ read v = some b) :
    optional? fields name read = some a := by
  have hspelled := h _ _ hfield
  apply optional?_of_rel
  generalize fields.lookup name = o at hspelled
  cases a with
  | none =>
    cases hspelled
    exact .none
  | some b =>
    cases hspelled with
    | some hv => exact .some (hread b rfl _ hv)

theorem text {a : Option String} (h : Spelled format w fs fields)
    (hfield : fs.lookup name = some (a.map .text)) : optional? fields name string? = some a :=
  h.optional hfield fun _ _ _ hv => text_spelled hv.1

theorem flag {a : Option Bool} (h : Spelled format w fs fields)
    (hfield : fs.lookup name = some (a.map .bool)) : optional? fields name flag? = some a :=
  h.optional hfield fun _ _ _ hv => flag_spelled hv.1

/-! Rules nest in a rule by two levels: they are in a list or a map of it. -/

/-- What is spelled for the rule so deep inside a value is read as the rule. -/
def Inner (format : GrammarFormat) (nested : Option (Reading RawRule)) (w : Value)
    (r : RawRule) : Prop :=
  ∀ v, Spelling format r.value v → v.depth + 2 ≤ w.depth → nested.bind (· v) = some r

variable {nested : Option (Reading RawRule)}

theorem captures {a : Option (List (Nat × RawRule))} (h : Spelled format w fs fields)
    (hfield : fs.lookup name = some (a.map capturesValue))
    (hkeys : ∀ cs ∈ a, CapturesKeyed cs) (hnested : 2 ≤ w.depth → nested.isSome = true)
    (hinner : ∀ c ∈ a.getD [], Inner format nested w c.2) :
    optional? fields name (fun v => if nested.isSome then
      captures? (fun v => nested.bind (· v)) v else none) = some a := by
  refine h.optional hfield fun cs hcs v hv => ?_
  rw [if_pos (hnested (Nat.lt_of_le_of_lt (one_le_depth hv.1) hv.2))]
  refine captures_spelled (hkeys cs hcs) hv.1 fun c hc v' hv' => ?_
  have hmem : c ∈ a.getD [] := by
    rw [Option.mem_def.1 hcs]
    exact hc
  exact hinner c hmem v' hv'.1 (Nat.lt_of_le_of_lt hv'.2 hv.2)

theorem patterns {a : Option (List RawRule)} (h : Spelled format w fs fields)
    (hfield : fs.lookup name = some (a.map patternsValue))
    (hnested : 2 ≤ w.depth → nested.isSome = true)
    (hinner : ∀ r ∈ a.getD [], Inner format nested w r) :
    optional? fields name (fun v => if nested.isSome then
      list? (fun v => nested.bind (· v)) v else none) = some a := by
  refine h.optional hfield fun rs hrs v hv => ?_
  rw [if_pos (hnested (Nat.lt_of_le_of_lt (one_le_depth_list hv.1) hv.2))]
  refine patterns_spelled hv.1 fun r hr v' hv' => ?_
  have hmem : r ∈ a.getD [] := by
    rw [Option.mem_def.1 hrs]
    exact hr
  exact hinner r hmem v' hv'.1 (Nat.lt_of_le_of_lt hv'.2 hv.2)

theorem repository {a : Option (List (String × RawRule))} (h : Spelled format w fs fields)
    (hfield : fs.lookup name = some (a.map repositoryValue))
    (hkeys : ∀ es ∈ a, (es.map (·.1)).Nodup) (hnested : 2 ≤ w.depth → nested.isSome = true)
    (hinner : ∀ e ∈ a.getD [], Inner format nested w e.2) :
    optional? fields name (fun v => if nested.isSome then
      map? string? (fun v => nested.bind (· v)) v else none) = some a := by
  refine h.optional hfield fun es hes v hv => ?_
  rw [if_pos (hnested (Nat.lt_of_le_of_lt (one_le_depth hv.1) hv.2))]
  refine repository_spelled (hkeys es hes) hv.1 fun e he v' hv' => ?_
  have hmem : e ∈ a.getD [] := by
    rw [Option.mem_def.1 hes]
    exact he
  exact hinner e hmem v' hv'.1 (Nat.lt_of_le_of_lt hv'.2 hv.2)

end GrammarFormat.Spelled

/-! ## Reading rules -/

namespace RawRule

open GrammarFormat

variable {format : GrammarFormat} {w : Value}

theorem nodup_keys : keys.Nodup := by
  decide

/-- A rule is read as what it is spelled for, given that the rules inside it are. -/
theorem readWith_spelled {nested : Option (Reading RawRule)} {rules : FormatRules} {r : RawRule}
    (hkeyed : r.WellKeyed) (h : Spelling format r.value w)
    (hnested : 2 ≤ w.depth → nested.isSome = true)
    (hinner : ∀ child ∈ r.children, Spelled.Inner format nested w child) :
    readWith rules nested w = some r := by
  obtain ⟨hcaptures, hbegin, hend, hwhile, hrepository, -⟩ := hkeyed
  rw [value_eq] at h
  have hnames : r.fields.map (·.1) = keys := rfl
  obtain ⟨fields, hrecord, hfields⟩ := h.record? rules.recordsAsLists hnames nodup_keys
  have hinclusion : optional? fields "include" string? = some r.inclusion := hfields.text rfl
  have hmatch : optional? fields "match" string? = some r.matchSource := hfields.text rfl
  have hname : optional? fields "name" string? = some r.name := hfields.text rfl
  have hcontentName : optional? fields "contentName" string? = some r.contentName :=
    hfields.text rfl
  have hbeginSource : optional? fields "begin" string? = some r.beginSource := hfields.text rfl
  have hendSource : optional? fields "end" string? = some r.endSource := hfields.text rfl
  have hwhileSource : optional? fields "while" string? = some r.whileSource := hfields.text rfl
  have hcaptures := hfields.captures (show r.fields.lookup "captures" = _ from rfl) hcaptures
    hnested fun c hc => hinner c.2 (mem_children.2 (.inl ⟨c, hc, rfl⟩))
  have hbegin := hfields.captures (show r.fields.lookup "beginCaptures" = _ from rfl) hbegin
    hnested fun c hc => hinner c.2 (mem_children.2 (.inr (.inl ⟨c, hc, rfl⟩)))
  have hend := hfields.captures (show r.fields.lookup "endCaptures" = _ from rfl) hend
    hnested fun c hc => hinner c.2 (mem_children.2 (.inr (.inr (.inl ⟨c, hc, rfl⟩))))
  have hwhile := hfields.captures (show r.fields.lookup "whileCaptures" = _ from rfl) hwhile
    hnested fun c hc => hinner c.2 (mem_children.2 (.inr (.inr (.inr (.inl ⟨c, hc, rfl⟩)))))
  have hpatterns := hfields.patterns (show r.fields.lookup "patterns" = _ from rfl)
    hnested fun c hc => hinner c (mem_children.2 (.inr (.inr (.inr (.inr (.inl hc))))))
  have hrepository := hfields.repository (show r.fields.lookup "repository" = _ from rfl)
    hrepository hnested fun e he =>
      hinner e.2 (mem_children.2 (.inr (.inr (.inr (.inr (.inr ⟨e, he, rfl⟩))))))
  have hlast : optional? fields "applyEndPatternLast" flag? = some r.applyEndPatternLast :=
    hfields.flag rfl
  have hdisabled : optional? fields "disabled" flag? = some r.disabled := hfields.flag rfl
  rw [readWith, hrecord]
  dsimp only [Option.bind_eq_bind, Option.bind_some]
  rw [hinclusion, Option.bind_some, hmatch, Option.bind_some, hname, Option.bind_some,
    hcontentName, Option.bind_some, hbeginSource, Option.bind_some, hendSource, Option.bind_some,
    hwhileSource, Option.bind_some, hcaptures, Option.bind_some, hbegin, Option.bind_some, hend,
    Option.bind_some, hwhile, Option.bind_some, hpatterns, Option.bind_some, hrepository,
    Option.bind_some, hlast, Option.bind_some, hdisabled]
  cases r
  rfl

/-- A value that spells a rule is read as the rule, if it nests no deeper than may be read. -/
theorem read?_spelled {rules : FormatRules} : ∀ {levels : Nat} {r : RawRule} {w : Value},
    r.WellKeyed → Spelling format r.value w → w.depth ≤ levels → read? rules levels w = some r
  | 0, r, w, _, h, hdepth => by
    rw [value_eq] at h
    exact absurd (one_le_depth h) (Nat.not_lt.2 hdepth)
  | 1, r, w, hkeyed, h, hdepth => by
    refine readWith_spelled hkeyed h (fun hdeep => ?_) (fun child _ v _ hdeep => ?_)
    · exact absurd hdepth (Nat.not_le.2 hdeep)
    · omega
  | levels + 2, r, w, hkeyed, h, hdepth => by
    -- a rule inside is in a list or a map, so it takes two levels
    refine readWith_spelled hkeyed h (fun _ => rfl) (fun child hchild v hv hdeep => ?_)
    cases hkeyed with
    | mk _ _ _ _ _ hchildren =>
      exact read?_spelled (hchildren child hchild) hv (by omega)

end RawRule

/-! ## Grammars -/

namespace RawGrammar

open GrammarFormat

variable {format : GrammarFormat} {kept : String → Bool} {g : RawGrammar} {w : Value}
  {rules : FormatRules}

theorem nodup_keys : keys.Nodup := by
  decide

theorem isEmpty_of_nonempty {α : Type} {name : String} {l : List α} {v : Value}
    (h : fields.nonempty kept name l v = none) : l = [] := by
  unfold fields.nonempty at h
  split at h
  · rename_i hempty
    exact List.isEmpty_iff.1 (Bool.and_eq_true _ _ ▸ hempty).1
  · cases h

theorem eq_of_nonempty {α : Type} {name : String} {l : List α} {v w : Value}
    (h : fields.nonempty kept name l v = some w) : w = v := by
  unfold fields.nonempty at h
  split at h
  · cases h
  · exact (Option.some.inj h).symm

/-- A list or map that is left out where it is empty is read as what it is spelled for. -/
theorem nonempty_spelled {α : Type} {fields : Fields} {name : String} {read : Reading (List α)}
    {l : List α} {v : Value}
    (h : Option.Rel (SpellingIn format w) (RawGrammar.fields.nonempty kept name l v)
      (fields.lookup name))
    (hread : ∀ v', SpellingIn format w v v' → read v' = some l) :
    default? fields name read [] = some l := by
  generalize hv : RawGrammar.fields.nonempty kept name l v = o at h
  refine default?_of_eq rfl (fun w' hw' => ?_) (fun hnone => ?_)
  · generalize fields.lookup name = found at h hw'
    cases hw'
    cases h with
    | some h =>
      rw [eq_of_nonempty hv] at h
      exact hread w' h
  · generalize fields.lookup name = found at h hnone
    cases hnone
    cases h
    exact isEmpty_of_nonempty hv

theorem texts_spelled {l : List String} {v : Value} (h : Spelling format (.list (l.map .text)) v) :
    list? string? v = some l := by
  obtain ⟨ws, rfl, hws⟩ := h.list
  apply list?_of_forall₂
  apply (List.forall₂_map_left_iff.1 hws).imp
  intro s w' hs
  rw [hs.eq_text]
  rfl

/-- A rule in a list or map of a grammar nests by two levels less deep. -/
theorem rule_spelled (hdepth : w.depth ≤ rules.levels) {r : RawRule} (hr : r.WellKeyed)
    {container v v' : Value} (hv : SpellingIn format w container v)
    (hv' : SpellingIn format v r.value v') :
    RawRule.read? rules (rules.levels - 2) v' = some r := by
  have houter : v.depth < w.depth := hv.2
  have hinner : v'.depth < v.depth := hv'.2
  exact RawRule.read?_spelled hr hv'.1 (by omega)

theorem repository_field {fields : Fields} (hdepth : w.depth ≤ rules.levels)
    (h : Spelled format w (g.fields kept) fields) {name : String} {es : List (String × RawRule)}
    (hfield : (g.fields kept).lookup name =
      some (RawGrammar.fields.nonempty kept name es (RawRule.repositoryValue es)))
    (hkeys : (es.map (·.1)).Nodup) (hes : ∀ e ∈ es, e.2.WellKeyed) :
    default? fields name (map? string? (RawRule.read? rules (rules.levels - 2))) [] = some es := by
  refine nonempty_spelled (h _ _ hfield) fun v hv => ?_
  exact (RawRule.repository_spelled hkeys hv.1 fun e he v' hv' =>
    rule_spelled hdepth (hes e he) hv hv').2

/-- A value that spells a grammar is read as the grammar, if it nests no deeper than may be read. -/
theorem read?_spelled (hkeyed : g.WellKeyed) (h : Spelling format (g.value kept) w)
    (hdepth : w.depth ≤ rules.levels) : read? rules w = some g := by
  have hnames : (g.fields kept).map (·.1) = keys := rfl
  obtain ⟨fields, hrecord, hfields⟩ := h.record? rules.recordsAsLists hnames nodup_keys
  have hscopeName : required? fields "scopeName" string? = some g.scopeName := by
    have hfield := hfields "scopeName" _ rfl
    generalize hfound : fields.lookup "scopeName" = found at hfield
    cases hfield with
    | some hv => exact required?_of_eq hfound (RawRule.text_spelled hv.1).2
  have hname : optional? fields "name" string? = some g.name := hfields.text rfl
  have hfileTypes : default? fields "fileTypes" (list? string?) [] = some g.fileTypes :=
    nonempty_spelled (hfields "fileTypes" _ rfl) fun _ hv => texts_spelled hv.1
  have hfirstLineMatch : optional? fields "firstLineMatch" string? = some g.firstLineMatch :=
    hfields.text rfl
  have hpatterns : default? fields "patterns" (list? (RawRule.read? rules (rules.levels - 2))) [] =
      some g.patterns :=
    nonempty_spelled (hfields "patterns" _ rfl) fun v hv =>
      (RawRule.patterns_spelled hv.1 fun r hr v' hv' =>
        rule_spelled hdepth (hkeyed.patterns r hr) hv hv').2
  have hrepository := repository_field hdepth hfields
    (show (g.fields kept).lookup "repository" = _ from rfl) hkeyed.repository hkeyed.entries
  have hinjections := repository_field hdepth hfields
    (show (g.fields kept).lookup "injections" = _ from rfl) hkeyed.injections hkeyed.injected
  have hselector : optional? fields "injectionSelector" string? = some g.injectionSelector :=
    hfields.text rfl
  have hinjectTo : default? fields "injectTo" (list? string?) [] = some g.injectTo :=
    nonempty_spelled (hfields "injectTo" _ rfl) fun _ hv => texts_spelled hv.1
  simp only [read?, hrecord, Option.bind_eq_bind, Option.bind_some, hscopeName, hname, hfileTypes,
    hfirstLineMatch, hpatterns, hrepository, hinjections, hselector, hinjectTo]
  rfl

end RawGrammar

end Highlight
