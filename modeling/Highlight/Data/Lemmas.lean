/-!
# Lemmas on results and lookups

What is used of `Except` and of lists of pairs in many places.
-/

namespace Highlight

/-! ## Results that may be errors -/

namespace Except

/-- A step that succeeds has succeeded in its first part. -/
theorem bind_eq_ok {ε α β : Type} {x : Except ε α} {f : α → Except ε β} {b : β} :
    (x >>= f) = .ok b ↔ ∃ a, x = .ok a ∧ f a = .ok b := by
  cases x with
  | error e => simp [bind, Except.bind]
  | ok a => simp [bind, Except.bind]

/-- A step that fails has failed in its first part or in its second. -/
theorem bind_eq_error {ε α β : Type} {x : Except ε α} {f : α → Except ε β} {e : ε} :
    (x >>= f) = .error e ↔ x = .error e ∨ ∃ a, x = .ok a ∧ f a = .error e := by
  cases x with
  | error e' => simp [bind, Except.bind]
  | ok a => simp [bind, Except.bind]

/-- What follows a first part counts only for what that part comes to. -/
theorem bind_congr_ok {ε α β : Type} {x : Except ε α} {f f' : α → Except ε β}
    (h : ∀ a, x = .ok a → f a = f' a) : x >>= f = x >>= f' := by
  cases x with
  | error e => rfl
  | ok a => exact h a rfl

theorem eq_ok_of_toOption {ε α : Type} {x : Except ε α} {a : α} (h : x.toOption = some a) :
    x = .ok a := by
  cases x with
  | error e => cases h
  | ok b =>
    cases h
    rfl

theorem eq_error_of_map {ε α β : Type} {f : α → β} {x : Except ε α} {e : ε}
    (h : x.map f = .error e) : x = .error e := by
  cases x with
  | error e' =>
    cases h
    rfl
  | ok a => cases h

theorem forM_eq_ok_iff {ε α : Type} {f : α → Except ε Unit} : ∀ {l : List α},
    l.forM f = .ok () ↔ ∀ a ∈ l, f a = .ok ()
  | [] => by simp [List.forM, pure, Except.pure]
  | a :: l => by
    change (f a >>= fun _ => l.forM f) = .ok () ↔ _
    rw [List.forall_mem_cons, ← forM_eq_ok_iff (l := l), bind_eq_ok]
    constructor
    · rintro ⟨_, hf, hl⟩
      exact ⟨hf, hl⟩
    · rintro ⟨hf, hl⟩
      exact ⟨(), hf, hl⟩

theorem exists_of_forM_eq_error {ε α : Type} {f : α → Except ε Unit} {e : ε} :
    ∀ {l : List α}, l.forM f = .error e → ∃ a ∈ l, f a = .error e
  | a :: l, h => by
    change (f a >>= fun _ => l.forM f) = .error e at h
    cases hf : f a with
    | error e' =>
      rw [hf] at h
      cases h
      exact ⟨a, List.mem_cons_self, hf⟩
    | ok _ =>
      rw [hf] at h
      obtain ⟨a', ha', hf'⟩ := exists_of_forM_eq_error (l := l) h
      exact ⟨a', List.mem_cons_of_mem _ ha', hf'⟩

end Except

/-! ## Lookups in lists of pairs -/

section

variable {κ α β : Type} [BEq κ]

theorem lookup_filterMap_value (f : α → Option β) (k : κ) :
    ∀ l : List (κ × α), (∀ e ∈ l, (f e.2).isSome) →
      (l.filterMap fun e => (f e.2).map (e.1, ·)).lookup k = (l.lookup k).bind f
  | [], _ => rfl
  | e :: l, h => by
    obtain ⟨b, hb⟩ := Option.isSome_iff_exists.1 (h e List.mem_cons_self)
    have ih := lookup_filterMap_value f k l fun e' he' => h e' (List.mem_cons_of_mem e he')
    rw [List.filterMap_cons, hb, Option.map_some, List.lookup_cons, List.lookup_cons]
    cases k == e.1 with
    | true => exact hb.symm
    | false => exact ih

variable [LawfulBEq κ]

theorem mem_of_lookup_eq_some {l : List (κ × α)} {k : κ} {a : α} (h : l.lookup k = some a) :
    (k, a) ∈ l := by
  obtain ⟨before, after, rfl, -⟩ := List.lookup_eq_some_iff.1 h
  exact List.mem_append_right before List.mem_cons_self

theorem lookup_eq_some_iff_mem {l : List (κ × α)} (h : (l.map (·.1)).Nodup) {k : κ} {a : α} :
    l.lookup k = some a ↔ (k, a) ∈ l := by
  refine ⟨mem_of_lookup_eq_some, fun hmem => ?_⟩
  obtain ⟨before, after, rfl⟩ := List.append_of_mem hmem
  refine List.lookup_eq_some_iff.2 ⟨before, after, rfl, fun e he => ?_⟩
  rw [List.map_append, List.nodup_append] at h
  have hne := h.2.2 e.1 (List.mem_map_of_mem he) k (by simp)
  rw [bne_iff_ne]
  exact hne.symm

theorem isSome_lookup_iff_mem {l : List (κ × α)} {k : κ} :
    (l.lookup k).isSome ↔ k ∈ l.map (·.1) := by
  rw [List.lookup_isSome_iff, List.mem_map]
  refine exists_congr fun e => and_congr_right fun _ => ?_
  rw [beq_iff_eq]
  exact eq_comm

theorem lookup_eq_none_of_notMem {l : List (κ × α)} {k : κ} (h : k ∉ l.map (·.1)) :
    l.lookup k = none := by
  rwa [← isSome_lookup_iff_mem, Option.not_isSome_iff_eq_none] at h

/-- The order of entries is no matter where each key occurs once. -/
theorem lookup_perm {l l' : List (κ × α)} (h : l.Perm l') (hnodup : (l.map (·.1)).Nodup) (k : κ) :
    l'.lookup k = l.lookup k := by
  have hnodup' : (l'.map (·.1)).Nodup := (h.map (·.1)).nodup hnodup
  refine Option.ext fun a => ?_
  rw [lookup_eq_some_iff_mem hnodup, lookup_eq_some_iff_mem hnodup', h.mem_iff]

theorem lookup_map_key (f : κ → β) (k : κ) :
    ∀ l : List (κ × α), (l.map fun e => (e.1, f e.1)).lookup k = (l.lookup k).map fun _ => f k
  | [] => rfl
  | e :: l => by
    rw [List.map_cons, List.lookup_cons, List.lookup_cons, lookup_map_key f k l]
    cases h : k == e.1 with
    | false => rfl
    | true => rw [beq_iff_eq.1 h]; rfl

/-- Taking away entries by their keys leaves what is found under the other keys. -/
theorem lookup_filter_key (p : κ → Bool) (k : κ) :
    ∀ l : List (κ × α), (l.filter fun e => p e.1).lookup k = if p k then l.lookup k else none
  | [] => by simp
  | e :: l => by
    rw [List.filter_cons, List.lookup_cons]
    cases h : k == e.1 with
    | true =>
      rw [beq_iff_eq.1 h]
      split
      · rw [List.lookup_cons, beq_self_eq_true]
      · next hp => rw [lookup_filter_key p e.1 l, if_neg hp]
    | false =>
      split
      · rw [List.lookup_cons, h, lookup_filter_key p k l]
      · rw [lookup_filter_key p k l]

/-- What is found without the entries of a key is found with them. -/
theorem lookup_filter_ne {l : List (κ × α)} {key k : κ} {a : α}
    (h : (l.filter (·.1 != key)).lookup k = some a) : l.lookup k = some a := by
  rw [lookup_filter_key (· != key)] at h
  split at h
  · exact h
  · cases h

theorem lookup_filterMap_key [DecidableEq κ] (f : κ → Option α) (k : κ) :
    ∀ ks : List κ, (ks.filterMap fun k' => (f k').map (k', ·)).lookup k =
      if k ∈ ks then f k else none
  | [] => rfl
  | k' :: ks => by
    have ih := lookup_filterMap_key f k ks
    rw [List.filterMap_cons]
    by_cases h : k = k'
    · subst h
      rw [if_pos List.mem_cons_self]
      cases hf : f k with
      | none =>
        rw [hf, ite_self] at ih
        exact ih
      | some a => exact List.lookup_cons_self
    · simp only [List.mem_cons, h, false_or]
      cases f k' with
      | none => exact ih
      | some a =>
        rw [Option.map_some, List.lookup_cons, beq_false_of_ne h]
        exact ih

end

end Highlight
