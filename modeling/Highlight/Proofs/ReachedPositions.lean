import Highlight.Regex.Reach

/-!
# Reached positions

A pattern without back references and the like has one meaning, whichever way it is matched: from a
position it leads to others (`Node.Leads`). Both matchers are held against that relation.

1. `Node.ends` takes positions to exactly the positions that the node leads to from them
   (`mem_ends`). It follows few rounds of a repetition, which suffices since rounds that consume
   nothing can be left out.
2. `Node.run` succeeds only at a position that the node leads to, and fails only if what follows
   fails at all of them (`run_follows`).
3. So a pattern occurs in a text exactly if a search of the text finds it (`Regex.occursIn_eq`).
-/

namespace Highlight

variable {R : Nat → Nat → Prop} {p q : Nat}

/-! ## Rounds -/

/-- `n` rounds of the relation lead from `p` to `q`. -/
def Rounds (R : Nat → Nat → Prop) : Nat → Nat → Nat → Prop
  | 0, p, q => q = p
  | n + 1, p, q => ∃ r, R p r ∧ Rounds R n r q

/-- At least `low` and at most `high` rounds lead from `p` to `q`. -/
def Repeated (R : Nat → Nat → Prop) (low : Nat) (high : Option Nat) (p q : Nat) : Prop :=
  ∃ n, low ≤ n ∧ (∀ h ∈ high, n ≤ h) ∧ Rounds R n p q

/-- The relation leads on, and not behind the end of the text. -/
def Advances (stop : Nat) (R : Nat → Nat → Prop) : Prop :=
  ∀ ⦃p q⦄, R p q → p ≤ q ∧ q ≤ max p stop

theorem rounds_add {m n : Nat} :
    Rounds R (m + n) p q ↔ ∃ r, Rounds R m p r ∧ Rounds R n r q := by
  induction m generalizing p with
  | zero => simp [Rounds]
  | succ m ih =>
    rw [Nat.add_right_comm]
    simp only [Rounds, ih]
    grind

theorem Advances.rounds {stop n : Nat} (hadv : Advances stop R) : Advances stop (Rounds R n) := by
  induction n with
  | zero =>
    rintro p q rfl
    omega
  | succ n ih =>
    rintro p q ⟨r, hpr, hrq⟩
    have hfirst := hadv hpr
    have hrest := ih hrq
    omega

/-- Rounds that consume nothing can be left out. -/
theorem Rounds.strict (hadv : ∀ ⦃p q⦄, R p q → p ≤ q) {n : Nat} (h : Rounds R n p q) :
    ∃ j ≤ n, Rounds (fun p q => R p q ∧ p < q) j p q := by
  induction n generalizing p with
  | zero => exact ⟨0, Nat.le_refl 0, h⟩
  | succ n ih =>
    obtain ⟨r, hpr, hrq⟩ := h
    obtain ⟨j, hj, hstrict⟩ := ih hrq
    rcases Nat.eq_or_lt_of_le (hadv hpr) with rfl | hlt
    · exact ⟨j, by omega, hstrict⟩
    · exact ⟨j + 1, by omega, r, ⟨hpr, hlt⟩, hstrict⟩

theorem Rounds.mono {S : Nat → Nat → Prop} (hle : ∀ ⦃p q⦄, S p q → R p q) {n : Nat}
    (h : Rounds S n p q) : Rounds R n p q := by
  induction n generalizing p with
  | zero => exact h
  | succ n ih =>
    obtain ⟨r, hpr, hrq⟩ := h
    exact ⟨r, hle hpr, ih hrq⟩

theorem Rounds.add_le {n : Nat} (h : Rounds (fun p q => R p q ∧ p < q) n p q) : p + n ≤ q := by
  induction n generalizing p with
  | zero => exact Nat.le_of_eq (Eq.symm h)
  | succ n ih =>
    obtain ⟨r, hpr, hrq⟩ := h
    have hrest := ih hrq
    omega

/-- As many rounds as there are characters left suffice. -/
theorem Rounds.short {stop n : Nat} (hadv : Advances stop R) (h : Rounds R n p q) :
    ∃ j ≤ n, j ≤ stop - p ∧ Rounds R j p q := by
  obtain ⟨j, hj, hstrict⟩ := h.strict fun _ _ hr => (hadv hr).1
  have hend := (hadv.rounds h).2
  have hlength := hstrict.add_le
  exact ⟨j, hj, by omega, hstrict.mono fun _ _ hr => hr.1⟩

/-- A repetition is its least number of rounds and then at most so many more that the bound is kept,
or that the text is used up where there is none. -/
theorem repeated_iff {stop low : Nat} {high : Option Nat} (hadv : Advances stop R)
    (hhigh : ∀ h ∈ high, low ≤ h) {left : Nat → Nat} (hleft : ∀ r, stop - r ≤ left r) :
    Repeated R low high p q ↔
      ∃ r, Rounds R low p r ∧ ∃ j ≤ Node.beyond low high (left r), Rounds R j r q := by
  constructor
  · rintro ⟨n, hlow, hn, hrounds⟩
    obtain ⟨k, rfl⟩ := Nat.exists_eq_add_of_le hlow
    obtain ⟨r, hfirst, hrest⟩ := rounds_add.1 hrounds
    obtain ⟨j, hj, hshort, hrest⟩ := hrest.short hadv
    refine ⟨r, hfirst, j, ?_, hrest⟩
    cases high with
    | none => exact Nat.le_trans hshort (hleft r)
    | some h => exact Nat.le_trans hj (Nat.le_sub_of_add_le' (hn h rfl))
  · rintro ⟨r, hfirst, j, hj, hrest⟩
    refine ⟨low + j, Nat.le_add_right low j, fun h hh => ?_, rounds_add.2 ⟨r, hfirst, hrest⟩⟩
    have horder := hhigh h hh
    cases hh
    simp only [Node.beyond] at hj
    omega

/-! ## Where a node leads -/

/-! ## Where a node leads -/

namespace Window

/-- One character that passes the test leads from `p` to `q`. -/
def Passes (w : Window) (test : Char → Bool) (p q : Nat) : Prop :=
  (w.at? p).any test = true ∧ q = p + 1

variable {w : Window}

theorem passes_advances {test : Char → Bool} : Advances w.stop (w.Passes test) := by
  rintro p q ⟨htest, rfl⟩
  obtain ⟨c, hc, -⟩ := (Option.any_eq_true _ _).1 htest
  unfold at? at hc
  split at hc
  · omega
  · cases hc

end Window

namespace Node

variable {w : Window}

/-- The node has a match from `p` to `q`. Of nodes that are not order-free nothing is said here. -/
def Leads (w : Window) : Node → Nat → Nat → Prop
  | empty, p, q => q = p
  | char c, p, q => w.Passes (· == c) p q
  | set s, p, q => w.Passes s.mem p q
  | seq a b, p, q => ∃ r, a.Leads w p r ∧ b.Leads w r q
  | alt a b, p, q => a.Leads w p q ∨ b.Leads w p q
  | repetition body low high _, p, q => Repeated (body.Leads w) low high p q
  | group _ body, p, q => body.Leads w p q
  | lookAhead negated body, p, q => q = p ∧ ((∃ r, body.Leads w p r) ↔ negated = false)
  | lookBehind negated low high body, p, q =>
    q = p ∧ ((∃ r, r + low ≤ p ∧ (∀ h ∈ high, p ≤ r + h) ∧ body.Leads w r p) ↔ negated = false)
  | assertion a, p, q => w.satisfies p a = true ∧ q = p
  | _, _, _ => False

theorem leads_advances (r : Node) : Advances w.stop (r.Leads w) := by
  induction r with
  | char c | set s => exact Window.passes_advances
  | seq a b iha ihb =>
    rintro p q ⟨r, har, hbr⟩
    have := iha har
    have := ihb hbr
    omega
  | alt a b iha ihb =>
    rintro p q (ha | hb)
    · exact iha ha
    · exact ihb hb
  | repetition body low high greedy ih =>
    rintro p q ⟨n, -, -, hrounds⟩
    exact ih.rounds hrounds
  | group i body ih => exact fun p q h => ih h
  | empty =>
    rintro p q rfl
    omega
  | lookAhead | lookBehind =>
    rintro p q ⟨rfl, -⟩
    omega
  | assertion a =>
    rintro p q ⟨-, rfl⟩
    omega
  | fail | atomic | backReference | call | keep | ifGroup => exact fun p q h => h.elim

/-! ## All ways at once -/

theorem mem_union {ps qs : List Nat} : q ∈ union ps qs ↔ q ∈ ps ∨ q ∈ qs := by
  fun_induction union ps qs <;> grind

section Rounds

variable {round : List Nat → List Nat} (hround : ∀ ps q, q ∈ round ps ↔ ∃ p ∈ ps, R p q)
include hround

theorem mem_afterRounds {n : Nat} {ps : List Nat} :
    q ∈ afterRounds round n ps ↔ ∃ p ∈ ps, Rounds R n p q := by
  induction n generalizing ps with
  | zero => simp [afterRounds, Rounds]
  | succ n ih =>
    unfold afterRounds
    split
    · rename_i hnone
      simp [List.isEmpty_iff.1 hnone]
    · rw [ih]
      simp only [hround, Rounds]
      grind

/-- Once a round reaches nothing new, no number of rounds does. -/
theorem mem_of_rounds {ps : List Nat} (hclosed : ∀ q ∈ round ps, q ∈ ps) {n : Nat} (hp : p ∈ ps)
    (h : Rounds R n p q) : q ∈ ps := by
  induction n generalizing p with
  | zero => exact h ▸ hp
  | succ n ih =>
    obtain ⟨r, hpr, hrq⟩ := h
    exact ih (hclosed r ((hround ps r).2 ⟨p, hp, hpr⟩)) hrq

theorem mem_withinRounds {n : Nat} {ps : List Nat} :
    q ∈ withinRounds round n ps ↔ ∃ p ∈ ps, ∃ j ≤ n, Rounds R j p q := by
  induction n generalizing ps with
  | zero => simp [withinRounds, Rounds]
  | succ n ih =>
    simp only [withinRounds]
    split
    · -- Nothing new was reached, so the rounds that are not made would reach nothing new either.
      rename_i hsame
      have hclosed : ∀ q ∈ round ps, q ∈ ps := fun q hq => by
        rw [← eq_of_beq hsame]
        exact mem_union.2 (.inr hq)
      constructor
      · exact fun hq => ⟨q, hq, 0, Nat.zero_le _, rfl⟩
      · rintro ⟨p, hp, j, -, hrounds⟩
        exact mem_of_rounds hround hclosed hp hrounds
    · rw [ih]
      constructor
      · rintro ⟨p, hp, j, hj, hrounds⟩
        rcases mem_union.1 hp with hp | hp
        · exact ⟨p, hp, j, by omega, hrounds⟩
        · obtain ⟨p', hp', hstep⟩ := (hround ps p).1 hp
          exact ⟨p', hp', j + 1, by omega, p, hstep, hrounds⟩
      · rintro ⟨p, hp, j, hj, hrounds⟩
        cases j with
        | zero => exact ⟨p, mem_union.2 (.inl hp), 0, Nat.zero_le n, hrounds⟩
        | succ j =>
          obtain ⟨r, hpr, hrq⟩ := hrounds
          exact ⟨r, mem_union.2 (.inr ((hround ps r).2 ⟨p, hp, hpr⟩)), j, by omega, hrq⟩

end Rounds

/-- `ends` takes positions to the positions that the node leads to from one of them. -/
theorem mem_ends {r : Node} (hfree : r.isOrderFree = true) {ps : List Nat} :
    q ∈ r.ends w ps ↔ ∃ p ∈ ps, r.Leads w p q := by
  induction r generalizing ps q with
  | empty | fail => simp [ends, Leads]
  | char c =>
    have htest : ∀ p, (w.at? p == some c) = (w.at? p).any (· == c) := fun p => by
      cases w.at? p <;> rfl
    simp only [ends, Leads, Window.Passes, htest, List.mem_map, List.mem_filter]
    grind
  | set s =>
    simp only [ends, Leads, Window.Passes, List.mem_map, List.mem_filter]
    grind
  | seq a b iha ihb =>
    simp only [isOrderFree, Bool.and_eq_true] at hfree
    simp only [ends, Leads, ihb hfree.2, iha hfree.1]
    grind
  | alt a b iha ihb =>
    simp only [isOrderFree, Bool.and_eq_true] at hfree
    simp only [ends, Leads, mem_union, ihb hfree.2, iha hfree.1]
    grind
  | repetition body low high greedy ih =>
    simp only [isOrderFree, Bool.and_eq_true, Option.all_eq_true, decide_eq_true_eq] at hfree
    have hbody : ∀ ps q, q ∈ body.ends w ps ↔ ∃ p ∈ ps, body.Leads w p q := fun _ _ => ih hfree.1
    have hrepeated : ∀ p, Repeated (body.Leads w) low high p q ↔ _ := fun p =>
      repeated_iff (leads_advances body) hfree.2 fun r =>
        Nat.le_trans (Nat.sub_le w.stop r) (Nat.le_succ w.stop)
    simp only [ends, Leads, mem_withinRounds hbody, mem_afterRounds hbody, hrepeated]
    grind
  | group i body ih =>
    simp only [isOrderFree, Bool.and_eq_true] at hfree
    simp only [ends, Leads, ih hfree.2]
  | lookAhead negated body ih =>
    have hbody : ∀ p, (body.ends w [p]).isEmpty = false ↔ ∃ r, body.Leads w p r := fun p => by
      simp only [List.isEmpty_eq_false_iff_exists_mem, ih hfree, List.mem_singleton,
        exists_eq_left]
    simp only [ends, Leads, List.mem_filter, ← hbody]
    cases negated <;> grind
  | lookBehind negated low high body ih =>
    simp only [isOrderFree, Bool.and_eq_true] at hfree
    have hbody : ∀ p, ((List.range (p + 1)).any fun q =>
        q + low ≤ p && high.all (p ≤ q + ·) && (body.ends w [q]).contains p) = true ↔
        ∃ r, r + low ≤ p ∧ (∀ h ∈ high, p ≤ r + h) ∧ body.Leads w r p := fun p => by
      simp only [List.any_eq_true, List.mem_range, Bool.and_eq_true, decide_eq_true_eq,
        Option.all_eq_true, List.contains_iff_mem, ih hfree.1, List.mem_singleton, exists_eq_left,
        Option.mem_def, and_assoc]
      -- A position in the list comes no later than `p`, which the least width says again.
      exact exists_congr fun r => and_iff_right_of_imp fun h => by omega
    simp only [ends, Leads, List.mem_filter, ← hbody]
    cases negated <;> grind
  | assertion a =>
    simp only [ends, Leads, List.mem_filter]
    grind
  | atomic | backReference | call | keep | ifGroup => simp [isOrderFree] at hfree

end Node

/-! ## One way after another -/

/-- The start of the match, where the slots hold one. -/
def Slots.start? (m : Slots) : Option Nat := m.getD 0 none

/-- The step tries what follows at positions that the relation leads to, and at all of them before
it fails. It leaves the start of the match alone. -/
structure Step.Follows (step : Step) (R : Nat → Nat → Prop) : Prop where
  sound : ∀ {p m k x}, step p m k = some x →
    ∃ q m', R p q ∧ m'.start? = m.start? ∧ k q m' = some x
  complete : ∀ {p m k}, step p m k = none → ∀ {q}, R p q → ∃ m', k q m' = none

namespace Step

variable {S : Nat → Nat → Prop} {step next : Step}

theorem Follows.of_iff (hstep : step.Follows R) (hiff : ∀ {p q}, R p q ↔ S p q) :
    step.Follows S := by
  constructor
  · intro p m k x h
    obtain ⟨q, m', hpq, hm', hk⟩ := hstep.sound h
    exact ⟨q, m', hiff.1 hpq, hm', hk⟩
  · intro p m k h q hpq
    exact hstep.complete h (hiff.2 hpq)

theorem follows_here : Follows (fun p m k => k p m) fun p q => q = p := by
  constructor
  · exact fun {p m _ _} h => ⟨p, m, rfl, rfl, h⟩
  · rintro p m k h q rfl
    exact ⟨m, h⟩

/-- What follows is tried at one place, if a test allows it. -/
theorem follows_guard {test : Nat → Bool} {place : Nat → Nat} :
    Follows (fun p m k => if test p then k (place p) m else none)
      fun p q => test p = true ∧ q = place p := by
  constructor
  · intro p m k x h
    split at h
    · rename_i htest
      exact ⟨place p, m, ⟨htest, rfl⟩, rfl, h⟩
    · cases h
  · rintro p m k h q ⟨htest, rfl⟩
    rw [if_pos htest] at h
    exact ⟨m, h⟩

theorem follows_passes {w : Window} {test : Char → Bool} :
    Follows (fun p m k => if (w.at? p).any test then k (p + 1) m else none) (w.Passes test) :=
  follows_guard

theorem Follows.andThen (hstep : step.Follows R) (hnext : next.Follows S) :
    Follows (fun p m k => step p m fun p' m' => next p' m' k) fun p q => ∃ r, R p r ∧ S r q := by
  constructor
  · intro p m k x h
    obtain ⟨r, m', hpr, hm', h⟩ := hstep.sound h
    obtain ⟨q, m'', hrq, hm'', h⟩ := hnext.sound h
    exact ⟨q, m'', ⟨r, hpr, hrq⟩, hm''.trans hm', h⟩
  · rintro p m k h q ⟨r, hpr, hrq⟩
    obtain ⟨m', h⟩ := hstep.complete h hpr
    exact hnext.complete h hrq

theorem Follows.or (hstep : step.Follows R) (hnext : next.Follows S) :
    Follows (fun p m k => (step p m k).or (next p m k)) fun p q => R p q ∨ S p q := by
  constructor
  · intro p m k x h
    rcases Option.or_eq_some_iff.1 h with h | ⟨-, h⟩
    · obtain ⟨q, m', hq, hm', hk⟩ := hstep.sound h
      exact ⟨q, m', .inl hq, hm', hk⟩
    · obtain ⟨q, m', hq, hm', hk⟩ := hnext.sound h
      exact ⟨q, m', .inr hq, hm', hk⟩
  · rintro p m k h q (hq | hq)
    · exact hstep.complete (Option.or_eq_none_iff.1 h).1 hq
    · exact hnext.complete (Option.or_eq_none_iff.1 h).2 hq

theorem Follows.times (hstep : step.Follows R) (n : Nat) : (step.times n).Follows (Rounds R n) := by
  induction n with
  | zero => exact follows_here
  | succ n ih => exact hstep.andThen ih

/-! ### Repetitions -/

section Choice

variable {greedy : Bool} {n : Nat} {m : Slots} {k : Continuation}

/-- What follows is tried here and after one more round, in either order. -/
theorem upTo_succ :
    let round := step p m fun p' m' => if p' ≤ p then k p' m' else step.upTo greedy n p' m' k
    step.upTo greedy (n + 1) p m k = if greedy then round.or (k p m) else (k p m).or round := by
  cases greedy
  · cases h : k p m <;> simp [upTo, h]
  · simp only [upTo, if_true]
    split <;> simp [*]

theorem upTo_eq_some {x : Nat × Slots} (h : step.upTo greedy (n + 1) p m k = some x) :
    k p m = some x ∨
      (step p m fun p' m' => if p' ≤ p then k p' m' else step.upTo greedy n p' m' k) = some x := by
  rw [upTo_succ] at h
  split at h
  · rcases Option.or_eq_some_iff.1 h with h | ⟨-, h⟩
    · exact .inr h
    · exact .inl h
  · rcases Option.or_eq_some_iff.1 h with h | ⟨-, h⟩
    · exact .inl h
    · exact .inr h

theorem upTo_eq_none (h : step.upTo greedy (n + 1) p m k = none) :
    k p m = none ∧
      (step p m fun p' m' => if p' ≤ p then k p' m' else step.upTo greedy n p' m' k) = none := by
  rw [upTo_succ] at h
  split at h
  · exact (Option.or_eq_none_iff.1 h).symm
  · exact Option.or_eq_none_iff.1 h

end Choice

theorem Follows.upTo (hstep : step.Follows R) (hadv : ∀ ⦃p q⦄, R p q → p ≤ q) (greedy : Bool)
    (n : Nat) : (step.upTo greedy n).Follows fun p q => ∃ j ≤ n, Rounds R j p q := by
  induction n with
  | zero => exact follows_here.of_iff (by simp [Rounds])
  | succ n ih =>
    constructor
    · intro p m k x h
      rcases upTo_eq_some h with h | h
      · exact ⟨p, m, ⟨0, Nat.zero_le _, rfl⟩, rfl, h⟩
      · obtain ⟨r, m', hpr, hm', h⟩ := hstep.sound h
        split at h
        · exact ⟨r, m', ⟨1, by omega, r, hpr, rfl⟩, hm', h⟩
        · obtain ⟨q, m'', ⟨j, hj, hrq⟩, hm'', h⟩ := ih.sound h
          exact ⟨q, m'', ⟨j + 1, by omega, r, hpr, hrq⟩, hm''.trans hm', h⟩
    · rintro p m k h q ⟨j, hj, hrounds⟩
      obtain ⟨hhere, hround⟩ := upTo_eq_none h
      -- Only rounds that consume something are followed by more.
      obtain ⟨i, hi, hstrict⟩ := hrounds.strict hadv
      cases i with
      | zero => exact ⟨m, hstrict ▸ hhere⟩
      | succ i =>
        obtain ⟨r, ⟨hpr, hlt⟩, hrq⟩ := hstrict
        obtain ⟨m', h⟩ := hstep.complete hround hpr
        rw [if_neg (Nat.not_le.2 hlt)] at h
        exact ih.complete h ⟨i, by omega, hrq.mono fun _ _ hr => hr.1⟩

/-! ### Repetitions of one character -/

section Characters

variable {w : Window} {test : Char → Bool} {m : Slots} {k : Continuation} {low n : Nat}

theorem eq_add_of_rounds (h : Rounds (w.Passes test) n p q) : q = p + n := by
  induction n generalizing p with
  | zero => exact h
  | succ n ih =>
    obtain ⟨r, ⟨-, rfl⟩, hrq⟩ := h
    have hrest := ih hrq
    omega

/-- `Window.run` counts the rounds of one character that there are, up to its limit. -/
theorem le_run_iff {limit : Nat} :
    n ≤ w.run test p limit ↔ n ≤ limit ∧ Rounds (w.Passes test) n p (p + n) := by
  induction limit generalizing p n with
  | zero =>
    simp only [Window.run, Nat.le_zero, iff_self_and]
    rintro rfl
    rfl
  | succ limit ih =>
    cases n with
    | zero => simp [Rounds]
    | succ n =>
      have hsplit : Rounds (w.Passes test) (n + 1) p (p + (n + 1)) ↔
          (w.at? p).any test = true ∧ Rounds (w.Passes test) n (p + 1) (p + 1 + n) := by
        simp only [Rounds, Window.Passes, and_assoc, exists_and_left, exists_eq_left,
          Nat.add_assoc, Nat.add_comm 1 n]
      rw [hsplit]
      unfold Window.run
      split
      · rename_i c hc
        split
        · rename_i htest
          simp [ih, hc, htest]
        · rename_i htest
          simp [hc, htest]
      · rename_i hc
        simp [hc]

theorem longestFirst_eq_some {x : Nat × Slots} (hlow : low ≤ n)
    (h : longestFirst p m k low n = some x) : ∃ i, low ≤ i ∧ i ≤ n ∧ k (p + i) m = some x := by
  induction n with
  | zero => exact ⟨0, hlow, Nat.le_refl 0, h⟩
  | succ n ih =>
    unfold longestFirst at h
    split at h
    · rename_i hk
      exact ⟨n + 1, hlow, Nat.le_refl _, hk.trans h⟩
    · split at h
      · cases h
      · obtain ⟨i, hi, hn, hk⟩ := ih (by omega) h
        exact ⟨i, hi, by omega, hk⟩

theorem longestFirst_eq_none (h : longestFirst p m k low n = none) {i : Nat} (hlow : low ≤ i)
    (hn : i ≤ n) : k (p + i) m = none := by
  induction n with
  | zero =>
    cases Nat.le_zero.1 hn
    exact h
  | succ n ih =>
    unfold longestFirst at h
    split at h
    · cases h
    · rename_i hk
      rcases Nat.eq_or_lt_of_le hn with rfl | hlt
      · exact hk
      · rw [if_neg (by omega)] at h
        exact ih h (by omega)

theorem shortestFirst_eq_some {x : Nat × Slots}
    (h : shortestFirst p m k (fun q => (w.at? q).any test) n = some x) :
    ∃ i ≤ n, Rounds (w.Passes test) i p (p + i) ∧ k (p + i) m = some x := by
  induction n generalizing p with
  | zero => exact ⟨0, Nat.le_refl 0, rfl, h⟩
  | succ n ih =>
    unfold shortestFirst at h
    split at h
    · rename_i hk
      exact ⟨0, Nat.zero_le _, rfl, hk.trans h⟩
    · split at h
      · rename_i hmore
        obtain ⟨i, hi, hrounds, hk⟩ := ih h
        rw [Nat.add_assoc, Nat.add_comm 1 i] at hrounds hk
        exact ⟨i + 1, by omega, ⟨p + 1, ⟨hmore, rfl⟩, hrounds⟩, hk⟩
      · cases h

theorem shortestFirst_eq_none
    (h : shortestFirst p m k (fun q => (w.at? q).any test) n = none) {i : Nat} (hn : i ≤ n)
    (hrounds : Rounds (w.Passes test) i p q) : k q m = none := by
  induction n generalizing p i with
  | zero =>
    cases Nat.le_zero.1 hn
    cases hrounds
    exact h
  | succ n ih =>
    unfold shortestFirst at h
    split at h
    · cases h
    · rename_i hk
      cases i with
      | zero =>
        cases hrounds
        exact hk
      | succ i =>
        obtain ⟨r, ⟨hmore, rfl⟩, hrest⟩ := hrounds
        rw [if_pos hmore] at h
        exact ih h (by omega) hrest

end Characters

/-! ### Looking around -/

/-- The attempt succeeds exactly if the proposition holds, and leaves the start of the match
alone. -/
def Decides (found : Attempt) (m : Slots) (holds : Prop) : Prop :=
  (∀ q m', found = some (q, m') → holds ∧ m'.start? = m.start?) ∧ (found = none → ¬ holds)

theorem follows_look {found : Nat → Slots → Attempt} {holds : Nat → Prop} {negated : Bool}
    (hfound : ∀ p m, Decides (found p m) m (holds p))
    (hsome : ∀ {p m k x}, found p m = some x → step p m k = if negated then none else k p x.2)
    (hnone : ∀ {p m k}, found p m = none → step p m k = if negated then k p m else none) :
    step.Follows fun p q => q = p ∧ (holds p ↔ negated = false) := by
  constructor
  · intro p m k x h
    cases hq : found p m with
    | none =>
      rw [hnone hq] at h
      split at h
      · rename_i hneg
        exact ⟨p, m, ⟨rfl, by simp [(hfound p m).2 hq, hneg]⟩, rfl, h⟩
      · cases h
    | some y =>
      rw [hsome hq] at h
      obtain ⟨hholds, hstart⟩ := (hfound p m).1 y.1 y.2 hq
      split at h
      · cases h
      · rename_i hneg
        exact ⟨p, y.2, ⟨rfl, by simp [hholds, hneg]⟩, hstart, h⟩
  · rintro p m k h q ⟨rfl, hholds⟩
    cases hq : found q m with
    | none =>
      have hneg : negated = true := by
        simpa using mt hholds.2 ((hfound q m).2 hq)
      rw [hnone hq, if_pos hneg] at h
      exact ⟨m, h⟩
    | some y =>
      have hneg : negated = false := hholds.1 ((hfound q m).1 y.1 y.2 hq).1
      rw [hsome hq, if_neg (by simp [hneg])] at h
      exact ⟨y.2, h⟩

theorem backwards_eq_some {attempt : Nat → Attempt} {n : Nat} {x : Nat × Slots}
    (h : backwards attempt q n = some x) : ∃ r ≤ q, q ≤ r + n ∧ attempt r = some x := by
  induction n generalizing q with
  | zero => exact ⟨q, Nat.le_refl q, Nat.le_refl q, h⟩
  | succ n ih =>
    unfold backwards at h
    split at h
    · rename_i hq
      exact ⟨q, Nat.le_refl q, by omega, hq.trans h⟩
    · split at h
      · cases h
      · obtain ⟨r, hr, hn, hattempt⟩ := ih h
        exact ⟨r, by omega, by omega, hattempt⟩

theorem backwards_eq_none {attempt : Nat → Attempt} {n : Nat} (h : backwards attempt q n = none)
    {r : Nat} (hr : r ≤ q) (hn : q ≤ r + n) : attempt r = none := by
  induction n generalizing q with
  | zero =>
    cases Nat.le_antisymm hr hn
    exact h
  | succ n ih =>
    unfold backwards at h
    split at h
    · cases h
    · rename_i hq
      rcases Nat.eq_or_lt_of_le hr with rfl | hlt
      · exact hq
      · rw [if_neg (by omega)] at h
        exact ih h (by omega) (by omega)

end Step

namespace Node

variable {w : Window} {called : Nat → Step}

theorem leads_of_single {body : Node} {test : Char → Bool} (h : body.single? = some test) :
    body.Leads w = w.Passes test := by
  cases body <;> cases h <;> rfl

theorem start?_setIfInBounds {m : Slots} {i : Nat} {x : Option Nat} (hi : i ≠ 0) :
    Slots.start? (m.setIfInBounds i x) = m.start? := by
  simp [Slots.start?, hi]

/-- The rounds of a repetition of one character are bounded by the characters left as well. -/
theorem repeated_passes_iff {test : Char → Bool} {low : Nat} {high : Option Nat} :
    Repeated (w.Passes test) low high p q ↔
      ∃ i, low ≤ i ∧ i ≤ atMost high (w.stop - p) ∧ Rounds (w.Passes test) i p q := by
  refine exists_congr fun i => and_congr_right fun _ => ?_
  have hstop : Rounds (w.Passes test) i p q → i ≤ w.stop - p := fun h => by
    have hend := Step.eq_add_of_rounds h
    have hbound := (Window.passes_advances.rounds h).2
    omega
  cases high with
  | none =>
    simp only [reduceCtorEq, false_implies, implies_true, true_and, Option.mem_def]
    exact (and_iff_right_of_imp hstop).symm
  | some h =>
    simp only [atMost, Option.mem_def, Option.some.injEq, forall_eq', Nat.le_min, and_assoc]
    exact and_congr_right fun _ => (and_iff_right_of_imp hstop).symm

/-- A repetition of one character counts the characters first and then tries what follows. -/
theorem follows_characters {body : Node} {test : Char → Bool} {low : Nat} {high : Option Nat}
    {greedy : Bool} (hbody : body.single? = some test) :
    Step.Follows ((repetition body low high greedy).run w called)
      (Repeated (w.Passes test) low high) := by
  have hcount : ∀ {p m k}, (repetition body low high greedy).run w called p m k =
      if greedy then
        if w.run test p (atMost high (w.stop - p)) < low then none
        else Step.longestFirst p m k low (w.run test p (atMost high (w.stop - p)))
      else if w.run test p (min low (atMost high (w.stop - p))) < low then none
      else Step.shortestFirst (p + low) m k (fun q => (w.at? q).any test)
        (atMost high (w.stop - p) - low) := by
    intro p m k
    simp only [run, hbody]
  constructor
  · intro p m k x h
    rw [hcount] at h
    simp only [repeated_passes_iff]
    split at h
    · split at h
      · cases h
      · obtain ⟨i, hlow, hi, hk⟩ := Step.longestFirst_eq_some (by omega) h
        obtain ⟨hmost, hrounds⟩ := Step.le_run_iff.1 hi
        exact ⟨p + i, m, ⟨i, hlow, hmost, hrounds⟩, rfl, hk⟩
    · split at h
      · cases h
      · rename_i hrun
        obtain ⟨hmost, hfirst⟩ := Step.le_run_iff.1 (Nat.le_of_not_lt hrun)
        obtain ⟨i, hi, hrest, hk⟩ := Step.shortestFirst_eq_some h
        exact ⟨p + low + i, m, ⟨low + i, by omega, by omega,
          rounds_add.2 ⟨p + low, hfirst, hrest⟩⟩, rfl, hk⟩
  · intro p m k h q hrep
    rw [hcount] at h
    obtain ⟨i, hlow, hmost, hrounds⟩ := repeated_passes_iff.1 hrep
    refine ⟨m, ?_⟩
    cases Step.eq_add_of_rounds hrounds
    split at h
    · have hi : i ≤ w.run test p (atMost high (w.stop - p)) :=
        Step.le_run_iff.2 ⟨hmost, hrounds⟩
      rw [if_neg (by omega)] at h
      exact Step.longestFirst_eq_none h hlow hi
    · obtain ⟨j, rfl⟩ := Nat.exists_eq_add_of_le hlow
      obtain ⟨r, hfirst, hrest⟩ := rounds_add.1 hrounds
      cases Step.eq_add_of_rounds hfirst
      have hrun : low ≤ w.run test p (min low (atMost high (w.stop - p))) :=
        Step.le_run_iff.2 ⟨by omega, hfirst⟩
      rw [if_neg (by omega)] at h
      exact Step.shortestFirst_eq_none h (by omega) hrest

/-- A run of a body on its own decides whether the body leads anywhere. -/
theorem decides_of_follows {step : Step} {m : Slots} (hstep : step.Follows R) :
    Step.Decides (step p m fun q m' => some (q, m')) m (∃ q, R p q) := by
  constructor
  · intro q m' h
    obtain ⟨r, m'', hpr, hstart, hsame⟩ := hstep.sound h
    cases hsame
    exact ⟨⟨q, hpr⟩, hstart⟩
  · rintro hnone ⟨q, hpq⟩
    obtain ⟨m', h⟩ := hstep.complete hnone hpq
    cases h

/-- A look behind tries the starts that its bounds allow. -/
theorem decides_behind {step : Step} {m : Slots} {low : Nat} {high : Option Nat}
    (hstep : step.Follows R) (hhigh : ∀ h ∈ high, low ≤ h) :
    Step.Decides
      (if p < low then none
      else Step.backwards
        (fun q => step q m fun p' m' => if p' = p then some (p', m') else none) (p - low)
        (beyond low high (p - low)))
      m (∃ r, r + low ≤ p ∧ (∀ h ∈ high, p ≤ r + h) ∧ R r p) := by
  constructor
  · intro q m' h
    split at h
    · cases h
    · obtain ⟨r, hr, hn, h⟩ := Step.backwards_eq_some h
      obtain ⟨q', m'', hrq, hstart, hsame⟩ := hstep.sound h
      split at hsame
      · rename_i hq
        cases hsame
        refine ⟨⟨r, by omega, fun h hh => ?_, hq ▸ hrq⟩, hstart⟩
        have horder := hhigh h hh
        cases hh
        simp only [beyond] at hn
        omega
      · cases hsame
  · rintro hnone ⟨r, hlow, hbound, hrp⟩
    have hreach : p - low ≤ r + beyond low high (p - low) := by
      cases high with
      | none => exact Nat.le_add_left _ r
      | some h =>
        have hspan := hbound h rfl
        simp only [beyond]
        omega
    rw [if_neg (by omega)] at hnone
    obtain ⟨m', h⟩ := hstep.complete (Step.backwards_eq_none hnone (by omega) hreach) hrp
    simp at h

theorem follows_group {body : Step} {i : Nat} (hi : i ≠ 0) (hbody : body.Follows R) :
    Step.Follows (fun p m k => body p (m.setIfInBounds (2 * i) (some p)) fun p' m' =>
      k p' (m'.setIfInBounds (2 * i + 1) (some p'))) R := by
  constructor
  · intro p m k x h
    obtain ⟨q, m', hq, hm', hk⟩ := hbody.sound h
    rw [start?_setIfInBounds (by omega)] at hm'
    exact ⟨q, _, hq, (start?_setIfInBounds (by omega)).trans hm', hk⟩
  · intro p m k h q hq
    obtain ⟨m', hk⟩ := hbody.complete h hq
    exact ⟨_, hk⟩

theorem follows_rounds {body : Node} {low : Nat} {high : Option Nat} {greedy : Bool}
    (hsingle : body.single? = none) (hbody : Step.Follows (body.run w called) (body.Leads w))
    (hhigh : ∀ h ∈ high, low ≤ h) :
    Step.Follows ((repetition body low high greedy).run w called)
      (Repeated (body.Leads w) low high) := by
  have hadv : Advances w.stop (body.Leads w) := leads_advances body
  -- The number of rounds depends on where they begin, which `Follows` looks at one by one.
  have hmore : Step.Follows
      (fun p m k => Step.upTo (body.run w called) greedy (beyond low high (w.stop + 1 - p)) p m k)
      fun p q => ∃ j ≤ beyond low high (w.stop + 1 - p), Rounds (body.Leads w) j p q :=
    ⟨(hbody.upTo (fun _ _ h => (hadv h).1) greedy _).sound,
      (hbody.upTo (fun _ _ h => (hadv h).1) greedy _).complete⟩
  have hrun : (repetition body low high greedy).run w called = fun p m k =>
      (body.run w called).times low p m fun p' m' =>
        Step.upTo (body.run w called) greedy (beyond low high (w.stop + 1 - p')) p' m' k := by
    funext p m k
    simp only [run, hsingle]
  rw [hrun]
  refine ((hbody.times low).andThen hmore).of_iff (repeated_iff hadv hhigh fun r => ?_).symm
  exact Nat.sub_le_sub_right (Nat.le_succ w.stop) r

/-- `run` tries what follows exactly at the positions that the node leads to. How calls of groups
are matched does not matter: an order-free node has none. -/
theorem run_follows {r : Node} (hfree : r.isOrderFree = true) :
    Step.Follows (r.run w called) (r.Leads w) := by
  induction r with
  | empty => exact Step.follows_here
  | fail => exact ⟨nofun, fun _ _ h => h.elim⟩
  | char c =>
    have hrun : (char c).run w called =
        fun p m k => if (w.at? p).any (· == c) then k (p + 1) m else none := by
      funext p m k
      cases h : w.at? p <;> simp [run, h]
    exact hrun ▸ Step.follows_passes
  | set s =>
    have hrun : (set s).run w called =
        fun p m k => if (w.at? p).any s.mem then k (p + 1) m else none := by
      funext p m k
      cases h : w.at? p <;> simp [run, h]
    exact hrun ▸ Step.follows_passes
  | seq a b iha ihb =>
    simp only [isOrderFree, Bool.and_eq_true] at hfree
    exact (iha hfree.1).andThen (ihb hfree.2)
  | alt a b iha ihb =>
    simp only [isOrderFree, Bool.and_eq_true] at hfree
    have hrun : (alt a b).run w called =
        fun p m k => (a.run w called p m k).or (b.run w called p m k) := by
      funext p m k
      cases h : a.run w called p m k <;> simp [run, h]
    exact hrun ▸ (iha hfree.1).or (ihb hfree.2)
  | repetition body low high greedy ih =>
    simp only [isOrderFree, Bool.and_eq_true, Option.all_eq_true, decide_eq_true_eq] at hfree
    -- Single characters are counted, other bodies are run round by round.
    cases hsingle : body.single? with
    | some test =>
      show Step.Follows _ (Repeated (body.Leads w) low high)
      rw [leads_of_single hsingle]
      exact follows_characters hsingle
    | none => exact follows_rounds hsingle (ih hfree.1) hfree.2
  | group i body ih =>
    simp only [isOrderFree, Bool.and_eq_true, bne_iff_ne] at hfree
    exact follows_group hfree.1 (ih hfree.2)
  | lookAhead negated body ih =>
    refine Step.follows_look (fun p m => decides_of_follows (ih hfree)) ?_ ?_
    · intro p m k x h
      cases negated <;> simp [run, h]
    · intro p m k h
      cases negated <;> simp [run, h]
  | lookBehind negated low high body ih =>
    simp only [isOrderFree, Bool.and_eq_true, Option.all_eq_true, decide_eq_true_eq] at hfree
    refine Step.follows_look (fun p m => decides_behind (ih hfree.1) hfree.2) ?_ ?_
    · intro p m k x h
      cases negated <;> simp [run, h]
    · intro p m k h
      cases negated <;> simp [run, h]
  | assertion a => exact Step.follows_guard
  | atomic | backReference | call | keep | ifGroup => simp [isOrderFree] at hfree

end Node

/-! ## Occurrences -/

namespace Regex

variable {r : Regex} {w : Window}

theorem start?_blank : r.blank.start? = none := by
  simp only [Slots.start?, blank, Array.getD_eq_getD_getElem?, Array.getElem?_replicate]
  split <;> rfl

/-- An attempt gives a match exactly if the pattern leads anywhere. -/
theorem isSome_match?_attempt (hfree : r.body.isOrderFree = true) (hp : p ≤ w.stop) :
    (r.match? w.stop p (r.attempt w r.blank p)).isSome = true ↔ ∃ q, r.body.Leads w p q := by
  have hfollows : Step.Follows (r.body.run w (r.called w callDepth)) (r.body.Leads w) :=
    Node.run_follows hfree
  cases ha : r.attempt w r.blank p with
  | none =>
    simp only [match?, Option.isSome_none, Bool.false_eq_true, false_iff, not_exists]
    intro q hq
    obtain ⟨m, h⟩ := hfollows.complete ha hq
    cases h
  | some x =>
    obtain ⟨q, m, hq, hstart, hx⟩ := hfollows.sound ha
    cases hx
    -- No group has moved the start of the match, so it is where the attempt began.
    have hblank : m.getD 0 none = none := hstart.trans start?_blank
    have hbounds := Node.leads_advances r.body hq
    have hin : p ≤ q ∧ q ≤ w.stop := by omega
    simp only [match?, hblank, Option.getD_none, Nat.le_refl, hin.1, hin.2, decide_true,
      Bool.and_self, if_true, Option.isSome_some, true_iff]
    exact ⟨q, hq⟩

theorem isSome_searchFrom {m : Slots} {n : Nat} :
    (r.searchFrom w m p n).isSome = true ↔
      ∃ i ≤ n, (r.match? w.stop (p + i) (r.attempt w m (p + i))).isSome = true := by
  induction n generalizing p with
  | zero => simp [searchFrom]
  | succ n ih =>
    unfold searchFrom
    split
    · rename_i found hfound
      simp only [Option.isSome_some, true_iff]
      exact ⟨0, Nat.zero_le _, by simp [hfound]⟩
    · rename_i hnone
      rw [ih]
      constructor
      · rintro ⟨i, hi, h⟩
        rw [Nat.add_assoc, Nat.add_comm 1 i] at h
        exact ⟨i + 1, by omega, h⟩
      · rintro ⟨i, hi, h⟩
        cases i with
        | zero => simp [hnone] at h
        | succ i =>
          rw [Nat.add_comm i 1, ← Nat.add_assoc] at h
          exact ⟨i, by omega, h⟩

/-- A pattern occurs in a text exactly if a search of the whole text finds it. -/
theorem occursIn_eq (r : Regex) (text : String) :
    r.occursIn text =
      (r.search text.toList.toArray 0 text.toList.toArray.size).isSome := by
  unfold occursIn
  dsimp only
  split
  · rename_i hfree
    generalize text.toList.toArray = chars
    rw [Bool.eq_iff_iff, Bool.not_eq_true', List.isEmpty_eq_false_iff_exists_mem]
    simp only [Node.mem_ends hfree, search, Nat.zero_le, if_true, isSome_searchFrom, Nat.sub_zero,
      Nat.zero_add, List.mem_range, Nat.lt_succ_iff]
    constructor
    · rintro ⟨q, p, hp, hq⟩
      exact ⟨p, hp, (isSome_match?_attempt hfree hp).2 ⟨q, hq⟩⟩
    · rintro ⟨p, hp, h⟩
      obtain ⟨q, hq⟩ := (isSome_match?_attempt hfree hp).1 h
      exact ⟨q, p, hp, hq⟩
  · rfl

end Regex

end Highlight
