import Mathlib.Data.List.Forall2

/-!
# Lists that are related element by element

What `List.Forall₂` and `Option.Rel` say about elements, and what becomes of lists whose elements
are read or written one by one.
-/

namespace Highlight

variable {α β : Type} {R : α → β → Prop}

/-! ## Options -/

theorem rel_cases {x : Option α} {y : Option β} (h : Option.Rel R x y) :
    (x = none ∧ y = none) ∨ ∃ a b, x = some a ∧ y = some b ∧ R a b := by
  cases h with
  | none => exact .inl ⟨rfl, rfl⟩
  | some hab => exact .inr ⟨_, _, rfl, rfl, hab⟩

theorem isSome_eq_of_rel {x : Option α} {y : Option β} (h : Option.Rel R x y) :
    y.isSome = x.isSome := by
  cases h with
  | none => rfl
  | some _ => rfl

theorem rel_or {x x' : Option α} {y y' : Option β} (h : Option.Rel R x y)
    (h' : Option.Rel R x' y') : Option.Rel R (x.or x') (y.or y') := by
  cases h with
  | none => exact h'
  | some hab => exact .some hab

theorem forall₂_getD {l : Option (List α)} {m : Option (List β)}
    (h : Option.Rel (List.Forall₂ R) l m) : List.Forall₂ R (l.getD []) (m.getD []) := by
  cases h with
  | none => exact .nil
  | some h => exact h

/-! ## Lists -/

theorem rel_getElem? {l : List α} {m : List β} (h : List.Forall₂ R l m) :
    ∀ n : Nat, Option.Rel R l[n]? m[n]? := by
  induction h with
  | nil => exact fun _ => .none
  | cons hab _ ih =>
    intro n
    cases n with
    | zero => exact .some hab
    | succ n => exact ih n

theorem forall₂_map_right {f : α → β} {l : List α} (h : ∀ a ∈ l, R a (f a)) :
    List.Forall₂ R l (l.map f) :=
  List.forall₂_map_right_iff.2 (List.forall₂_same.2 h)

theorem forall₂_mem {l : List α} {m : List β} (h : List.Forall₂ R l m) :
    List.Forall₂ (fun a b => R a b ∧ a ∈ l ∧ b ∈ m) l m := by
  obtain ⟨hlength, hzip⟩ := List.forall₂_iff_zip.1 h
  exact List.forall₂_iff_zip.2 ⟨hlength, fun hmem => ⟨hzip hmem, List.of_mem_zip hmem⟩⟩

theorem exists_of_forall₂ {l : List α} {m : List β} (h : List.Forall₂ R l m) {b : β}
    (hb : b ∈ m) : ∃ a ∈ l, R a b := by
  induction h with
  | nil => cases hb
  | @cons a b' l m hab _ ih =>
    rcases List.mem_cons.1 hb with rfl | hb
    · exact ⟨a, List.mem_cons_self, hab⟩
    · obtain ⟨a', ha', hR⟩ := ih hb
      exact ⟨a', List.mem_cons_of_mem _ ha', hR⟩

theorem exists_forall₂ : ∀ {l : List α}, (∀ a ∈ l, ∃ b, R a b) → ∃ m, List.Forall₂ R l m
  | [], _ => ⟨[], .nil⟩
  | a :: l, h => by
    obtain ⟨b, hb⟩ := h a List.mem_cons_self
    obtain ⟨m, hm⟩ := exists_forall₂ fun a' ha' => h a' (List.mem_cons_of_mem _ ha')
    exact ⟨b :: m, .cons hb hm⟩

theorem mapM_of_forall₂ {f : β → Option α} {l : List α} {m : List β}
    (h : List.Forall₂ (fun a b => f b = some a) l m) : m.mapM f = some l := by
  induction h with
  | nil => rfl
  | cons hb _ ih =>
    rw [List.mapM_cons, hb, ih]
    rfl

theorem exists_of_mem_mapM {f : α → Option β} : ∀ {l : List α} {m : List β},
    l.mapM f = some m → ∀ b ∈ m, ∃ a ∈ l, f a = some b
  | [], m, h, b, hb => by
    cases h
    cases hb
  | a :: l, m, h, b, hb => by
    rw [List.mapM_cons] at h
    obtain ⟨b', hb', h⟩ := Option.bind_eq_some_iff.1 h
    obtain ⟨m', hm', h⟩ := Option.bind_eq_some_iff.1 h
    cases h
    rcases List.mem_cons.1 hb with rfl | hb
    · exact ⟨a, List.mem_cons_self, hb'⟩
    · obtain ⟨a', ha', hread⟩ := exists_of_mem_mapM hm' b hb
      exact ⟨a', List.mem_cons_of_mem _ ha', hread⟩

theorem length_le_flatMap {f : α → List β} (h : ∀ a, f a ≠ []) :
    ∀ l : List α, l.length ≤ (l.flatMap f).length
  | [] => Nat.le_refl 0
  | a :: l => by
    have ih := length_le_flatMap h l
    have ha := List.length_pos_of_ne_nil (h a)
    rw [List.flatMap_cons, List.length_append, List.length_cons]
    omega

end Highlight
