import Highlight.Grammar.Source
import Highlight.Proofs.RelatedLists
import Highlight.Proofs.RuleTable
import Highlight.Proofs.TableLayout

/-!
# Maps of grammars that are read

A map that is read has each key once, for a later value replaces an earlier one. So it is with the
maps of all rules of a grammar that is read (`RawGrammar.keyed_of_read?`), however deep they are
written: `RawRule.Deep` says it of a rule with all rules inside it, and reading a rule keeps it from
the nested reading.
-/

namespace Highlight

namespace Value

variable {κ α : Type} [BEq κ]

theorem map_fst_put_subset (key : κ) (value : α) : ∀ es : List (κ × α),
    (put key value es).map (·.1) ⊆ key :: es.map (·.1)
  | [] => by simp [put]
  | (k, v) :: es => by
    rw [put]
    split
    · rw [List.map_cons, List.map_cons]
      exact List.subset_cons_self _ _
    · rw [List.map_cons, List.map_cons]
      intro k' hk'
      rcases List.mem_cons.1 hk' with rfl | hk'
      · simp
      · rcases List.mem_cons.1 (map_fst_put_subset key value es hk') with rfl | hk'
        · simp
        · simp [hk']

variable [LawfulBEq κ]

theorem nodup_put (key : κ) (value : α) : ∀ {es : List (κ × α)},
    (es.map (·.1)).Nodup → ((put key value es).map (·.1)).Nodup
  | [], _ => by simp [put]
  | (k, v) :: es, h => by
    rw [put]
    split
    · exact h
    · rename_i hne
      obtain ⟨hk, hes⟩ := List.nodup_cons.1 h
      refine List.nodup_cons.2 ⟨fun hmem => ?_, nodup_put key value hes⟩
      rcases List.mem_cons.1 (map_fst_put_subset key value es hmem) with heq | hmem
      · exact hne (beq_iff_eq.2 heq)
      · exact hk hmem

/-- Entries put into a map leave each key once, and no value that is of none of them. -/
theorem foldl_put {P : α → Prop} : ∀ (es m : List (κ × α)), (m.map (·.1)).Nodup →
    (∀ e ∈ es, P e.2) → (∀ e ∈ m, P e.2) →
      ((es.foldl (fun m (k, v) => put k v m) m).map (·.1)).Nodup ∧
        ∀ e ∈ es.foldl (fun m (k, v) => put k v m) m, P e.2 := by
  intro es
  induction es with
  | nil => exact fun m hm _ hvalues => ⟨hm, hvalues⟩
  | cons e es ih =>
    intro m hm hes hvalues
    refine ih _ (nodup_put e.1 e.2 hm) (fun e' he' => hes e' (List.mem_cons_of_mem _ he')) ?_
    intro e' he'
    rcases mem_put he' with heq | he'
    · rw [heq]
      exact hes e List.mem_cons_self
    · exact hvalues e' he'

/-- A map that is read has each key once, and its values are values that are read. -/
theorem map?_eq_some {key : Reading κ} {value : Reading α} {v : Value} {m : List (κ × α)}
    (h : map? key value v = some m) :
    (m.map (·.1)).Nodup ∧ ∀ e ∈ m, ∃ v', value v' = some e.2 := by
  unfold map? at h
  split at h
  · obtain ⟨es, hes, hm⟩ := Option.bind_eq_some_iff.1 h
    cases hm
    refine foldl_put (P := fun a => ∃ v', value v' = some a) es [] List.nodup_nil
      (fun e he => ?_) (by simp)
    obtain ⟨⟨k, v'⟩, _, hread⟩ := exists_of_mem_mapM hes e he
    obtain ⟨k', _, hread⟩ := Option.bind_eq_some_iff.1 hread
    obtain ⟨a, ha, hread⟩ := Option.bind_eq_some_iff.1 hread
    cases hread
    exact ⟨v', ha⟩
  · split at h
    · cases h
      simp
    · cases h
  · cases h

/-- The items of a list that is read are values that are read. -/
theorem list?_eq_some {item : Reading α} {v : Value} {l : List α} (h : list? item v = some l) :
    ∀ a ∈ l, ∃ v', item v' = some a := by
  unfold list? at h
  split at h
  · intro a ha
    obtain ⟨v', _, hv'⟩ := exists_of_mem_mapM h a ha
    exact ⟨v', hv'⟩
  · split at h
    · cases h
      simp
    · cases h
  · cases h

/-- What an optional field has was read. -/
theorem optional?_eq_some {fields : Fields} {name : String} {read : Reading α} {a : Option α}
    (h : optional? fields name read = some a) : ∀ b ∈ a, ∃ v, read v = some b := by
  unfold optional? at h
  split at h
  · split at h
    · cases h
      simp
    · obtain ⟨b, hb, rfl⟩ := Option.map_eq_some_iff.1 h
      intro b' hb'
      cases hb'
      exact ⟨_, hb⟩
  · cases h
    simp

/-- What a field with a default value has was read, or it is the default value. -/
theorem default?_eq_some {fields : Fields} {name : String} {read : Reading α} {value a : α}
    (h : default? fields name read value = some a) : a = value ∨ ∃ v, read v = some a := by
  unfold default? at h
  split at h
  · exact .inr ⟨_, h⟩
  · cases h
    exact .inl rfl

end Value

namespace RawRule

/-- The maps of the rule and of all rules inside it have each key once. -/
inductive Deep : RawRule → Prop
  | mk {r : RawRule} (keyed : r.Keyed) (parts : ∀ part r', r.part? part = some r' → Deep r') :
    Deep r

/-- The map has each key once, and so have the maps of the rules in it. -/
structure DeepMap {κ : Type} (m : List (κ × RawRule)) : Prop where
  nodup : (m.map (·.1)).Nodup
  rules : ∀ e ∈ m, e.2.Deep

theorem DeepMap.nil {κ : Type} : DeepMap ([] : List (κ × RawRule)) where
  nodup := List.nodup_nil
  rules := by simp

/-- The maps and lists of the rule itself decide. -/
theorem Deep.of_fields {r : RawRule}
    (hcaptures : ∀ cs, r.captures = some cs ∨ r.beginCaptures = some cs ∨ r.endCaptures = some cs ∨
      r.whileCaptures = some cs → DeepMap cs)
    (hpatterns : ∀ rs, r.patterns = some rs → ∀ r' ∈ rs, r'.Deep)
    (hrepository : ∀ es, r.repository = some es → DeepMap es) : r.Deep := by
  have hopening : DeepMap (r.openingCaptures.getD []) := by
    cases hcs : r.openingCaptures with
    | none => exact .nil
    | some cs =>
      rcases openingCaptures_cases r with heq | heq | heq
      · cases heq.symm.trans hcs
      · exact hcaptures cs (.inl (heq.symm.trans hcs))
      · exact hcaptures cs (.inr (.inl (heq.symm.trans hcs)))
  have hclosing : DeepMap (r.closingCaptures.getD []) := by
    cases hcs : r.closingCaptures with
    | none => exact .nil
    | some cs =>
      rcases closingCaptures_cases r with heq | heq | heq | heq
      · cases heq.symm.trans hcs
      · exact hcaptures cs (.inl (heq.symm.trans hcs))
      · exact hcaptures cs (.inr (.inr (.inr (heq.symm.trans hcs))))
      · exact hcaptures cs (.inr (.inr (.inl (heq.symm.trans hcs))))
  have hentries : DeepMap (r.repository.getD []) := by
    cases hes : r.repository with
    | none => exact .nil
    | some es => exact hrepository es hes
  have hinner : ∀ r' ∈ r.innerPatterns, r'.Deep := by
    intro r' hr'
    unfold innerPatterns at hr'
    split at hr'
    · cases hrs : r.patterns with
      | none => simp [hrs, live] at hr'
      | some rs =>
        rw [hrs] at hr'
        exact hpatterns rs hrs r' (List.mem_filter.1 hr').1
    · cases hr'
  refine ⟨⟨hentries.nodup, hopening.nodup, hclosing.nodup⟩, fun part r' hr' => ?_⟩
  cases part with
  | entry name => exact hentries.rules _ (mem_of_lookup_eq_some hr')
  | pattern n => exact hinner r' (List.mem_of_getElem? hr')
  | opening n => exact hopening.rules _ (mem_of_lookup_eq_some hr')
  | closing n => exact hclosing.rules _ (mem_of_lookup_eq_some hr')
  | injection n => cases hr'

theorem deepMap_of_map? {κ : Type} [BEq κ] [LawfulBEq κ] {key : Reading κ} {rule : Reading RawRule}
    (hrule : ∀ v r, rule v = some r → r.Deep) {v : Value} {m : List (κ × RawRule)}
    (h : Value.map? key rule v = some m) : DeepMap m := by
  obtain ⟨hnodup, hvalues⟩ := Value.map?_eq_some h
  refine ⟨hnodup, fun e he => ?_⟩
  obtain ⟨v', hv'⟩ := hvalues e he
  exact hrule v' e.2 hv'

theorem deepMap_of_captures? {rule : Reading RawRule} (hrule : ∀ v r, rule v = some r → r.Deep)
    {v : Value} {cs : List (Nat × RawRule)} (h : captures? rule v = some cs) : DeepMap cs := by
  obtain ⟨m, hm, rfl⟩ := Option.map_eq_some_iff.1 h
  obtain ⟨hnodup, hrules⟩ := deepMap_of_map? hrule hm
  have hperm := List.mergeSort_perm m fun a b => decide (a.1 ≤ b.1)
  exact ⟨(hperm.map (·.1)).nodup_iff.2 hnodup, fun e he => hrules e (hperm.mem_iff.1 he)⟩

theorem deep_of_readWith {rules : FormatRules} {nested : Option (Reading RawRule)}
    (hnested : ∀ read ∈ nested, ∀ v r, read v = some r → r.Deep) {v : Value} {r : RawRule}
    (h : readWith rules nested v = some r) : r.Deep := by
  have hinner : ∀ v r, (nested.bind fun read => read v) = some r → r.Deep := by
    intro v r hr
    obtain ⟨read, hread, hr⟩ := Option.bind_eq_some_iff.1 hr
    exact hnested read hread v r hr
  unfold readWith at h
  obtain ⟨f, _, h⟩ := Option.bind_eq_some_iff.1 h
  obtain ⟨i, _, h⟩ := Option.bind_eq_some_iff.1 h
  obtain ⟨m, _, h⟩ := Option.bind_eq_some_iff.1 h
  obtain ⟨n, _, h⟩ := Option.bind_eq_some_iff.1 h
  obtain ⟨c, _, h⟩ := Option.bind_eq_some_iff.1 h
  obtain ⟨b, _, h⟩ := Option.bind_eq_some_iff.1 h
  obtain ⟨e, _, h⟩ := Option.bind_eq_some_iff.1 h
  obtain ⟨w, _, h⟩ := Option.bind_eq_some_iff.1 h
  obtain ⟨captures, hcaptures, h⟩ := Option.bind_eq_some_iff.1 h
  obtain ⟨beginCaptures, hbeginCaptures, h⟩ := Option.bind_eq_some_iff.1 h
  obtain ⟨endCaptures, hendCaptures, h⟩ := Option.bind_eq_some_iff.1 h
  obtain ⟨whileCaptures, hwhileCaptures, h⟩ := Option.bind_eq_some_iff.1 h
  obtain ⟨patterns, hpatterns, h⟩ := Option.bind_eq_some_iff.1 h
  obtain ⟨repository, hrepository, h⟩ := Option.bind_eq_some_iff.1 h
  obtain ⟨l, _, h⟩ := Option.bind_eq_some_iff.1 h
  obtain ⟨x, _, h⟩ := Option.bind_eq_some_iff.1 h
  cases h
  have hfield : ∀ {name cs? cs}, Value.optional? f name
      (fun v => if nested.isSome then captures? (fun v => nested.bind fun read => read v) v
        else none) = some cs? → cs? = some cs → DeepMap cs := by
    intro name cs? cs hread heq
    obtain ⟨v, hv⟩ := Value.optional?_eq_some hread cs heq
    split at hv
    · exact deepMap_of_captures? hinner hv
    · cases hv
  refine .of_fields ?_ ?_ ?_
  · rintro cs (heq | heq | heq | heq)
    · exact hfield hcaptures heq
    · exact hfield hbeginCaptures heq
    · exact hfield hendCaptures heq
    · exact hfield hwhileCaptures heq
  · intro rs heq r' hr'
    obtain ⟨v, hv⟩ := Value.optional?_eq_some hpatterns rs heq
    split at hv
    · obtain ⟨v', hv'⟩ := Value.list?_eq_some hv r' hr'
      exact hinner v' r' hv'
    · cases hv
  · intro es heq
    obtain ⟨v, hv⟩ := Value.optional?_eq_some hrepository es heq
    split at hv
    · exact deepMap_of_map? hinner hv
    · cases hv

theorem deep_of_read? {rules : FormatRules} : ∀ {levels : Nat} {v : Value} {r : RawRule},
    read? rules levels v = some r → r.Deep
  | 0, _, _, h => by cases h
  | 1, _, _, h => deep_of_readWith (by simp) h
  | levels + 2, _, _, h => by
    refine deep_of_readWith ?_ h
    intro read hread v r hr
    cases hread
    exact deep_of_read? hr

end RawRule

namespace RawGrammar

theorem keyed_of_deep {g : RawGrammar} (hroot : g.rootRule.Deep)
    (hinjections : ∀ e ∈ g.injections, e.2.Deep) : g.Keyed := by
  have hdeep : ∀ p r, g.rule? p = some r → r.Deep := by
    intro p
    induction p with
    | nil =>
      intro r hr
      cases hr
      exact hroot
    | cons part p ih =>
      intro r hr
      cases p with
      | cons part' p =>
        rw [rule?_cons] at hr
        obtain ⟨r', hr', hpart⟩ := Option.bind_eq_some_iff.1 hr
        obtain ⟨_, hparts⟩ := ih r' hr'
        exact hparts part r hpart
      | nil =>
        obtain ⟨_, hparts⟩ := hroot
        cases part with
        | injection n =>
          obtain ⟨e, he, rfl⟩ := Option.map_eq_some_iff.1 hr
          exact hinjections e (List.mem_of_getElem? he)
        | entry name => exact hparts (.entry name) r hr
        | pattern n => exact hparts (.pattern n) r hr
        | opening n => exact hparts (.opening n) r hr
        | closing n => exact hparts (.closing n) r hr
  intro p r hr
  obtain ⟨hkeyed, _⟩ := hdeep p r hr
  exact hkeyed

/-- The maps of a grammar that is read have each key once. -/
theorem keyed_of_read? {rules : FormatRules} {v : Value} {g : RawGrammar}
    (h : read? rules v = some g) : g.Keyed := by
  have hrule : ∀ v r, RawRule.read? rules (rules.levels - 2) v = some r → r.Deep :=
    fun _ _ => RawRule.deep_of_read?
  simp only [read?, Option.bind_eq_bind, Option.bind_eq_some_iff, Option.pure_def,
    Option.some.injEq] at h
  obtain ⟨f, _, scopeName, _, name, _, fileTypes, _, firstLineMatch, _, patterns, hpatterns,
    repository, hrepository, injections, hinjections, injectionSelector, _, injectTo, _, rfl⟩ := h
  have hmap : ∀ {name es}, Value.default? f name (Value.map? Value.string?
      (RawRule.read? rules (rules.levels - 2))) [] = some es → RawRule.DeepMap es := by
    intro name es hread
    rcases Value.default?_eq_some hread with rfl | ⟨v, hv⟩
    · exact .nil
    · exact RawRule.deepMap_of_map? hrule hv
  refine keyed_of_deep (.of_fields ?_ ?_ ?_) (hmap hinjections).rules
  · rintro cs (heq | heq | heq | heq) <;> cases heq
  · rintro rs heq r hr
    cases heq
    rcases Value.default?_eq_some hpatterns with rfl | ⟨v, hv⟩
    · cases hr
    · obtain ⟨v', hv'⟩ := Value.list?_eq_some hv r hr
      exact hrule v' r hv'
  · rintro es heq
    cases heq
    exact hmap hrepository

end RawGrammar

/-- The maps of a grammar that a source gives have each key once. -/
theorem GrammarSource.keyed_of_parse {s : GrammarSource} {origin : String} {g : RawGrammar}
    (h : s.parse origin = .ok g) : g.Keyed := by
  unfold parse at h
  split at h
  · rename_i g' hread
    cases h
    obtain ⟨v, _, hv⟩ := Option.bind_eq_some_iff.1 hread
    exact RawGrammar.keyed_of_read? hv
  · cases h

end Highlight
