import Mathlib.Data.List.Induction
import Mathlib.Data.List.Nodup

/-!
# Lists without repeats

`List.eraseDups` keeps the first of several equal members. One more member at the end is added if it
is new (`eraseDups_concat_of_not_mem`), which is how tables and registrations grow.
-/

namespace Highlight

variable {α : Type} [BEq α] [LawfulBEq α] {a : α} {as : List α}

theorem eraseDups_concat_of_mem (h : a ∈ as) : (as ++ [a]).eraseDups = as.eraseDups := by
  simp [List.eraseDups_append, List.removeAll, h]

theorem eraseDups_concat_of_not_mem (h : a ∉ as) :
    (as ++ [a]).eraseDups = as.eraseDups ++ [a] := by
  simp [List.eraseDups_append, List.removeAll, List.eraseDups_cons, h]

/-- Behind the first of several equal members the others are left out. -/
theorem eraseDups_append_cons {before after : List α} (h : a ∉ before) :
    (before ++ a :: after).eraseDups = before.eraseDups ++
      a :: ((after.removeAll before).filter fun b => !b == a).eraseDups := by
  have hrest : (a :: after).removeAll before = a :: after.removeAll before := by
    rw [List.removeAll, List.filter_cons, if_pos (by simpa using h)]
    rfl
  rw [List.eraseDups_append, hrest, List.eraseDups_cons]

theorem eraseDups_eq_self : ∀ {l : List α}, l.Nodup → l.eraseDups = l
  | [], _ => rfl
  | a :: l, h => by
    obtain ⟨ha, hl⟩ := List.nodup_cons.1 h
    have hfilter : (l.filter fun b => !b == a) = l := by
      apply List.filter_eq_self.2
      intro b hb
      have hne : b ≠ a := fun heq => ha (heq ▸ hb)
      simp [hne]
    rw [List.eraseDups_cons, hfilter, eraseDups_eq_self hl]

theorem nodup_eraseDups (as : List α) : as.eraseDups.Nodup := by
  induction as using List.reverseRecOn with
  | nil => exact .nil
  | append_singleton as a ih =>
    by_cases h : a ∈ as
    · rwa [eraseDups_concat_of_mem h]
    · rw [eraseDups_concat_of_not_mem h, ← List.concat_eq_append]
      exact .concat (mt List.mem_eraseDups.1 h) ih

theorem length_eraseDups_le (as : List α) : as.eraseDups.length ≤ as.length := by
  induction as using List.reverseRecOn with
  | nil => exact Nat.le_refl 0
  | append_singleton as a ih =>
    rw [List.length_append]
    by_cases h : a ∈ as
    · rw [eraseDups_concat_of_mem h]
      exact Nat.le_add_right_of_le ih
    · rw [eraseDups_concat_of_not_mem h, List.length_append]
      exact Nat.add_le_add_right ih 1

end Highlight
