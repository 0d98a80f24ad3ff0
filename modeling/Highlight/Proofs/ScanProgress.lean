import Mathlib.Data.Finset.Card
import Mathlib.Data.Finset.Dedup
import Highlight.Proofs.MatchBounds

/-!
# The scan loop makes progress

Ends and begins of regions can match without consuming anything, so an iteration of the loop need
not change the position. Where it does not, it leaves a region that was entered elsewhere, or enters
a rule that no region at the top of the stack was entered with here (`Iteration`). Once a region is
entered here none can be left any more, so at one position the loop first leaves regions and then
enters rules, each at most once: `slack` counts the regions that can be left and the rules that can
be entered, and every iteration in place lowers it. `potential` adds the rest of the text to that
and is lowered by every iteration. So the loop ends, in fewer iterations than `bound` allows.
-/

namespace Highlight

namespace Grammar

/-- The rules of the linked documents that open regions. -/
def beginRules (g : Grammar) : Finset RuleRef :=
  (g.rules.filter fun r => (g.region? r).isSome).toFinset

theorem mem_beginRules {g : Grammar} {r : RuleRef} {region : Rule.Region}
    (h : g.region? r = some region) : r ∈ g.beginRules := by
  obtain ⟨rule, hrule, _⟩ := Option.bind_eq_some_iff.1 h
  rw [beginRules, List.mem_toFinset, List.mem_filter]
  refine ⟨mem_rules hrule, ?_⟩
  rw [h]
  rfl

theorem length_rules (g : Grammar) :
    g.documents.foldl (fun n (_, d) => n + d.rules.size) 0 = g.rules.length := by
  have hsum : ∀ (ds : List (ScopeName × CompiledGrammar)) (n : Nat),
      ds.foldl (fun n (_, d) => n + d.rules.size) n = n + (ds.flatMap fun (scope, d) =>
        (List.range d.rules.size).map fun id => RuleRef.mk scope id).length := by
    intro ds
    induction ds with
    | nil => simp
    | cons d ds ih =>
      intro n
      rw [List.foldl_cons, ih, List.flatMap_cons, List.length_append, List.length_map,
        List.length_range, Nat.add_assoc]
  rw [hsum, Nat.zero_add, rules]

theorem card_beginRules_le (g : Grammar) : g.beginRules.card ≤ g.rules.length :=
  Nat.le_trans (List.toFinset_card_le _) (List.length_filter_le _ _)

end Grammar

namespace RuleStack

variable {s below : RuleStack} {f : Frame} {position : Nat}

/-- The rules of the regions at the top that were entered at a position. -/
def enteredRules (s : RuleStack) (position : Nat) : Finset RuleRef :=
  ((s.takeWhile (·.enterPos == some position)).map (·.rule)).toFinset

/-- How many regions lie on top of the first that was entered at a position. -/
def enteredElsewhere (s : RuleStack) (position : Nat) : Nat :=
  (s.takeWhile (·.enterPos != some position)).length

theorem entered_eq_false_iff {r : RuleRef} :
    s.entered r position = false ↔ r ∉ s.enteredRules position := by
  simp only [entered, enteredRules, List.mem_toFinset, List.mem_map, List.any_eq_false, beq_iff_eq]
  constructor
  · rintro h ⟨f, hf, hr⟩
    exact h f hf hr
  · intro h f hf hr
    exact h ⟨f, hf, hr⟩

theorem enteredRules_cons_of_eq (h : f.enterPos = some position) :
    enteredRules (f :: s) position = insert f.rule (s.enteredRules position) := by
  rw [enteredRules, List.takeWhile_cons_of_pos (by simpa using h), List.map_cons,
    List.toFinset_cons, enteredRules]

theorem enteredRules_cons_of_ne (h : f.enterPos ≠ some position) :
    enteredRules (f :: s) position = ∅ := by
  rw [enteredRules, List.takeWhile_cons_of_neg (by simpa using h), List.map_nil, List.toFinset_nil]

theorem enteredElsewhere_cons_of_eq (h : f.enterPos = some position) :
    enteredElsewhere (f :: s) position = 0 := by
  rw [enteredElsewhere, List.takeWhile_cons_of_neg (by simpa using h), List.length_nil]

theorem enteredElsewhere_cons_of_ne (h : f.enterPos ≠ some position) :
    enteredElsewhere (f :: s) position = s.enteredElsewhere position + 1 := by
  rw [enteredElsewhere, List.takeWhile_cons_of_pos (by simpa using h), List.length_cons,
    enteredElsewhere]

theorem enteredElsewhere_le_length (s : RuleStack) (position : Nat) :
    s.enteredElsewhere position ≤ s.length :=
  (List.takeWhile_prefix _).length_le

end RuleStack

namespace Scan

variable {w : Scan} {s t : ScanState}

/-! ## Iterations -/

/-- What an iteration changes, where the loop goes on after it. -/
inductive Iteration (w : Scan) (s t : ScanState) : Prop
  /-- The position increases; at most one region is opened. -/
  | advance (hpos : s.position < t.position) (hstop : t.position ≤ w.stop)
      (hlength : t.stack.length ≤ s.stack.length + 1)
  /-- A region that was not entered here is left. -/
  | leave {f : Frame} (hpos : t.position = s.position) (hstack : s.stack = f :: t.stack)
      (henter : f.enterPos ≠ some s.position)
  /-- A rule is entered that was not entered here. -/
  | enter {f : Frame} (hpos : t.position = s.position) (hstack : t.stack = f :: s.stack)
      (henter : f.enterPos = some s.position) (hbegin : f.rule ∈ w.grammar.beginRules)
      (hfresh : f.rule ∉ s.stack.enteredRules s.position)

theorem Applied.length_le {m : Match} {c : Candidate} {p : Progress} (h : w.Applied s m c p) :
    p.state.stack.length ≤ s.stack.length + 1 := by
  cases h with
  | ended hstack =>
    simp only [Progress.state, hstack, List.length_cons]
    omega
  | kept hstack =>
    simp only [Progress.state, hstack, List.length_cons]
    omega
  | matched => exact Nat.le_succ _
  | idle =>
    simp only [Progress.state, RuleStack.safePop]
    split
    · rw [List.length_tail]
      omega
    · exact Nat.le_succ _
  | opened => exact Nat.le_refl _
  | reentered => exact Nat.le_succ _

/-- A match that consumes nothing and does not stop the loop. -/
theorem Applied.iteration {m : Match} {c : Candidate} (h : w.Applied s m c (.more t))
    (hstay : ¬Advances s m) : w.Iteration s t := by
  cases h with
  | ended hstack _ _ hgo => exact .leave rfl hstack (hgo hstay)
  | matched _ _ hgo => exact absurd hgo hstay
  | opened hregion _ _ hgo =>
    have hfresh := RuleStack.entered_eq_false_iff.1 (hgo hstay)
    exact .enter rfl rfl rfl (Grammar.mem_beginRules hregion) hfresh

theorem iteration_of_step (h : w.step s = .ok (.more t)) : w.Iteration s t := by
  rcases step_cases h with ⟨_, hdone⟩ | ⟨c, m, p, hnext, happ, hmore⟩
  · cases hdone
  · cases p with
    | done _ => cases hmore
    | more t' =>
      have hwithin := Place.nextMatch_within hnext
      have hlength := happ.length_le
      simp only [afterMatch] at hmore
      split at hmore
      · rename_i hgo
        cases hmore
        exact .advance hgo hwithin.le_stop hlength
      · rename_i hstay
        cases hmore
        exact happ.iteration hstay

/-! ## Iterations in place -/

/-- How many rules that open regions are not entered here. -/
def unentered (w : Scan) (s : ScanState) : Nat :=
  (w.grammar.beginRules \ s.stack.enteredRules s.position).card

/-- How many iterations in place are possible: regions that can be left and rules that can be
entered. -/
def slack (w : Scan) (s : ScanState) : Nat :=
  s.stack.enteredElsewhere s.position + w.unentered s

theorem unentered_le (w : Scan) (s : ScanState) : w.unentered s ≤ w.grammar.beginRules.card :=
  Finset.card_le_card Finset.sdiff_subset

theorem slack_le (w : Scan) (s : ScanState) :
    w.slack s ≤ s.stack.length + w.grammar.beginRules.card :=
  Nat.add_le_add (s.stack.enteredElsewhere_le_length s.position) (w.unentered_le s)

/-- Where a region that was not entered here is on top, no rule counts as entered here. -/
theorem unentered_of_ne {f : Frame} {below : RuleStack} (hstack : s.stack = f :: below)
    (henter : f.enterPos ≠ some s.position) : w.unentered s = w.grammar.beginRules.card := by
  rw [unentered, hstack, RuleStack.enteredRules_cons_of_ne henter, Finset.sdiff_empty]

/-- Entering a rule uses it up. -/
theorem unentered_lt {f : Frame} (hpos : t.position = s.position) (hstack : t.stack = f :: s.stack)
    (henter : f.enterPos = some s.position) (hbegin : f.rule ∈ w.grammar.beginRules)
    (hfresh : f.rule ∉ s.stack.enteredRules s.position) : w.unentered t < w.unentered s := by
  rw [unentered, hpos, hstack, RuleStack.enteredRules_cons_of_eq henter]
  refine Finset.card_lt_card (Finset.ssubset_iff_subset_ne.2 ⟨?_, ?_⟩)
  · exact Finset.sdiff_subset_sdiff (Finset.Subset.refl _) (Finset.subset_insert _ _)
  · intro heq
    have hmem : f.rule ∈ w.grammar.beginRules \ s.stack.enteredRules s.position :=
      Finset.mem_sdiff.2 ⟨hbegin, hfresh⟩
    rw [← heq] at hmem
    exact (Finset.mem_sdiff.1 hmem).2 (Finset.mem_insert_self _ _)

theorem slack_lt (h : w.Iteration s t) (hpos : t.position = s.position) :
    w.slack t < w.slack s := by
  cases h with
  | advance hlt => omega
  | leave _ hstack henter =>
    -- rules may count as entered now, because regions below were entered here; before, none did
    have hle := w.unentered_le t
    rw [slack, slack, unentered_of_ne hstack henter, hstack,
      RuleStack.enteredElsewhere_cons_of_ne henter, hpos]
    omega
  | enter _ hstack henter hbegin hfresh =>
    have hlt := unentered_lt (w := w) hpos hstack henter hbegin hfresh
    rw [slack, slack, hpos, hstack, RuleStack.enteredElsewhere_cons_of_eq henter]
    omega

/-- How many iterations the loop runs from a state on, up to the one that changes the position or is
the last. The count stops at `limit`. -/
def iterationsHere (w : Scan) : Nat → ScanState → Nat
  | 0, _ => 0
  | limit + 1, s =>
    match w.step s with
    | .ok (.more t) => if t.position = s.position then w.iterationsHere limit t + 1 else 1
    | _ => 1

theorem iterationsHere_le (w : Scan) : ∀ (limit : Nat) (s : ScanState),
    w.iterationsHere limit s ≤ w.slack s + 1
  | 0, s => Nat.zero_le _
  | limit + 1, s => by
    unfold iterationsHere
    split
    · rename_i t ht
      split
      · rename_i hpos
        have hrest := w.iterationsHere_le limit t
        have hlt := slack_lt (iteration_of_step ht) hpos
        omega
      · omega
    · omega

/-! ## All iterations -/

/-- What every iteration lowers. Entering a rule costs less than a rule that is not entered counts,
and advancing costs less than a position counts. -/
def potential (w : Scan) (s : ScanState) : Nat :=
  s.stack.length + (w.stop - s.position) * (2 * w.grammar.beginRules.card + 2) + 2 * w.unentered s

theorem potential_lt (h : w.Iteration s t) : w.potential t < w.potential s := by
  unfold potential
  have hle := w.unentered_le t
  cases h with
  | advance hpos hstop hlength =>
    -- a position less, for a region more and all rules to be entered again
    have hrest : w.stop - s.position = w.stop - t.position + (t.position - s.position - 1) + 1 := by
      omega
    rw [hrest, Nat.add_mul, Nat.one_mul, Nat.add_mul]
    omega
  | leave hpos hstack henter =>
    rw [unentered_of_ne hstack henter, hstack, hpos, List.length_cons]
    omega
  | enter hpos hstack henter hbegin hfresh =>
    have hlt := unentered_lt (w := w) hpos hstack henter hbegin hfresh
    rw [hstack, hpos, List.length_cons]
    omega

theorem potential_lt_bound (w : Scan) (s : ScanState) : w.potential s < w.bound s := by
  have hcard := w.grammar.card_beginRules_le
  have hle := w.unentered_le s
  have hmul : (w.stop - s.position) * (2 * w.grammar.beginRules.card + 2) ≤
      (w.stop - s.position) * (2 * w.grammar.rules.length + 2) :=
    Nat.mul_le_mul_left _ (by omega)
  simp only [potential, bound, w.grammar.length_rules, Nat.add_mul, Nat.one_mul]
  omega

/-- The loop without a bound: it comes to a result after some number of iterations. -/
inductive Loops (w : Scan) : Nat → ScanState → Except ScanError ScanState → Prop
  | error {s : ScanState} {e : ScanError} (h : w.step s = .error e) : Loops w 1 s (.error e)
  | done {s t : ScanState} (h : w.step s = .ok (.done t)) : Loops w 1 s (.ok t)
  | more {s t : ScanState} {n : Nat} {r : Except ScanError ScanState}
      (h : w.step s = .ok (.more t)) (hrest : Loops w n t r) : Loops w (n + 1) s r

/-- The loop ends. -/
theorem exists_loops (w : Scan) (s : ScanState) :
    ∃ n r, n ≤ w.potential s + 1 ∧ w.Loops n s r := by
  induction hp : w.potential s using Nat.strongRecOn generalizing s with
  | ind p ih =>
    cases hstep : w.step s with
    | error e => exact ⟨1, .error e, by omega, .error hstep⟩
    | ok q =>
      cases q with
      | done t => exact ⟨1, .ok t, by omega, .done hstep⟩
      | more t =>
        have hlt := potential_lt (iteration_of_step hstep)
        obtain ⟨n, r, hn, hloops⟩ := ih _ (by omega) t rfl
        exact ⟨n + 1, r, by omega, .more hstep hloops⟩

/-- With enough steps the bounded loop has the result of the loop without a bound. -/
theorem steps_of_loops {n : Nat} {r : Except ScanError ScanState} (h : w.Loops n s r) :
    ∀ {fuel : Nat}, n ≤ fuel → w.steps fuel s = r := by
  induction h with
  | error h =>
    intro fuel hfuel
    obtain ⟨fuel, rfl⟩ := Nat.exists_eq_add_of_le' hfuel
    rw [steps, h]
    rfl
  | done h =>
    intro fuel hfuel
    obtain ⟨fuel, rfl⟩ := Nat.exists_eq_add_of_le' hfuel
    rw [steps, h]
    rfl
  | more h _ ih =>
    intro fuel hfuel
    obtain ⟨fuel, rfl⟩ := Nat.exists_eq_add_of_le' (Nat.le_of_add_left_le hfuel)
    rw [steps, h]
    exact ih (by omega)

/-- The loop ends, before its bound is reached. From any state on it runs at most as many iterations
before the position changes as there are open regions and rules that open regions, and one more. -/
theorem scan_progress (w : Scan) (s : ScanState) :
    (∃ n r, n ≤ w.bound s ∧ w.Loops n s r ∧ w.steps (w.bound s) s = r) ∧
      ∀ limit, w.iterationsHere limit s ≤ s.stack.length + w.grammar.beginRules.card + 1 := by
  constructor
  · obtain ⟨n, r, hn, hloops⟩ := w.exists_loops s
    have hbound : n ≤ w.bound s := Nat.le_trans hn (w.potential_lt_bound s)
    exact ⟨n, r, hbound, hloops, steps_of_loops hloops hbound⟩
  · intro limit
    exact Nat.le_trans (w.iterationsHere_le limit s) (Nat.succ_le_succ (w.slack_le s))

end Scan

end Highlight
