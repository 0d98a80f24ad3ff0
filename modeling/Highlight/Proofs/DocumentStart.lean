import Highlight.Proofs.LineErrors
import Highlight.Proofs.LineVisits

/-!
# Where a document starts

The anchor of a document's start holds until something has been consumed. In the middle of a line
that is so at position zero only, since every step forward clears it (`Visits.atStart`). Between two
lines nothing is kept of it but the stack: a line that starts with nothing open is taken for the
first. A line that cannot be scanned leaves nothing open (`eq_nil_of_failed`), so the anchor holds
again on the line after it, and it holds for no other reason (`documentStart_iff`).
-/

namespace Highlight

namespace Scan

variable {w : Scan} {s s' : ScanState}

/-- A step that consumes something is no longer at the start. -/
theorem step_atStart (h : w.step s = .ok (.more s')) (hstart : s'.atStart = true) :
    s.atStart = true ∧ s'.position = s.position := by
  obtain ⟨c, m, t, _, happ, heq, _⟩ := step_more h
  obtain ⟨hposition, hbefore⟩ := happ.stays
  rw [heq] at hstart ⊢
  split at hstart
  · cases hstart
  · next hstay =>
    rw [if_neg hstay]
    exact ⟨hbefore.symm.trans hstart, hposition⟩

theorem Goes.atStart {task task' : Task} (h : w.Goes s task s' task')
    (hstart : s'.atStart = true) : s.atStart = true ∧ s'.position = s.position := by
  cases h with
  | left => exact ⟨hstart, rfl⟩
  | @lasts _ _ _ m =>
    dsimp only at hstart ⊢
    split at hstart
    · cases hstart
    · next hstay => exact ⟨hstart, if_neg hstay⟩
  | entered => exact ⟨hstart, rfl⟩
  | steps h => exact step_atStart h hstart

end Scan

namespace Grammar

open Scan (Task)

variable {g : Grammar} {levels n : Nat} {line : String} {stack start : RuleStack} {w : Scan}
  {s : ScanState} {task : Task}

/-- Nothing of the document comes before the start of a line with nothing open, and only there. -/
theorem Visits.atStart (h : g.Visits levels line stack n w s task) (hstart : s.atStart = true) :
    s.position = 0 ∧ stack = [] := by
  induction h with
  | start => exact ⟨rfl, List.isEmpty_iff.1 hstart⟩
  | goes _ hgoes ih =>
    obtain ⟨hbefore, hposition⟩ := hgoes.atStart hstart
    rw [hposition]
    exact ih hbefore
  | captured _ hasks _ ih =>
    cases hasks with
    | @captured _ _ _ _ _ span =>
      obtain ⟨hbefore, hzero⟩ := Bool.and_eq_true_iff.1 hstart
      exact ⟨beq_iff_eq.1 hzero, (ih hbefore).2⟩

/-! ## Lines with nothing open -/

theorem stack_of_failed {e : ScanError} (h : g.tryTokenizeLine levels line stack = .error e) :
    (g.tokenizeLineWithin levels line stack).stack = stack := by
  rw [tokenizeLineWithin, h]
  rfl

/-- Nothing is open after lines if and only if none of them could be scanned. -/
theorem stackAfter_eq_nil_iff (hg : g.Linked) (levels : Nat) (lines : List String) :
    g.stackAfter levels lines = [] ↔
      ∀ l ∈ lines, ∃ e, g.tryTokenizeLine levels l .initial = .error e := by
  induction lines using List.reverseRecOn with
  | nil => simp [stackAfter, RuleStack.initial]
  | append_singleton lines line ih =>
    rw [stackAfter_append_singleton, List.forall_mem_append, List.forall_mem_singleton, ← ih]
    constructor
    · intro hnil
      cases htry : g.tryTokenizeLine levels line (g.stackAfter levels lines) with
      | error e =>
        rw [stack_of_failed htry] at hnil
        rw [hnil] at htry
        exact ⟨hnil, e, htry⟩
      | ok t =>
        -- a line that has been scanned leaves the root open
        rw [tokenizeLineWithin, htry] at hnil
        have hend := (reached_stackAfter g levels lines).atLineEnd hg
        exact absurd hnil (tryTokenizeLine_atLineEnd hg hend htry).opened.ne_nil
    · rintro ⟨hnil, e, htry⟩
      rw [hnil]
      exact stack_of_failed htry

/-! ## The first line -/

/-- On a line with nothing open the patterns of the root are searched with the anchor of the
document's start. -/
theorem exists_visits_documentStart (hg : g.Linked) (levels : Nat) (line : String) :
    ∃ s, g.Visits levels line [] levels (g.lineScan levels line) s .matching ∧
      s.anchors.documentStart = true := by
  obtain ⟨start, hstart⟩ := hg.exists_rootStack
  exact ⟨_, visits_first hg hstart levels line, rfl⟩

/-- The anchor of the document's start holds at the start of a line only. It holds there in some
search if and only if none of the lines before could be scanned, so if every line can be, on the
first line only. -/
theorem documentStart_iff (hg : g.Linked) (levels : Nat) (before : List String) (line : String) :
    (∀ n w s task, g.Visits levels line (g.stackAfter levels before) n w s task →
      s.anchors.documentStart = true → s.position = 0) ∧
    ((∃ n w s task, g.Visits levels line (g.stackAfter levels before) n w s task ∧
        s.anchors.documentStart = true) ↔
      ∀ l ∈ before, ∃ e, g.tryTokenizeLine levels l .initial = .error e) := by
  refine ⟨fun n w s task h hstart => (h.atStart hstart).1, ?_⟩
  rw [← stackAfter_eq_nil_iff hg]
  constructor
  · rintro ⟨n, w, s, task, h, hstart⟩
    exact (h.atStart hstart).2
  · intro hnil
    obtain ⟨s, h, hstart⟩ := exists_visits_documentStart hg levels line
    rw [hnil]
    exact ⟨_, _, s, _, h, hstart⟩

/-! ### A line that cannot be scanned -/

/-- A letter at the start of a document, and regions whose end is no pattern once it is known. -/
def firstLetterSource : RawGrammar :=
  { (default : RawGrammar) with
    scopeName := "source.t"
    patterns := [
      { (default : RawRule) with
        beginSource := some "(z)"
        endSource := some "[a\\1-b]" },
      { (default : RawRule) with
        name := some "first"
        matchSource := some "\\Ax" }] }

theorem firstLetterSource_links : (ofSource firstLetterSource).toOption.isSome := by decide +kernel

/-- The grammar of a first letter. -/
def firstLetter : Grammar := (ofSource firstLetterSource).toOption.get firstLetterSource_links

theorem firstLetter_linked : firstLetter.Linked :=
  linked_of_ofSource (Option.some_get firstLetterSource_links).symm

theorem firstLetter_fails :
    ∀ l ∈ ["z"], ∃ e, firstLetter.tryTokenizeLine 1 l .initial = .error e := by
  have hfails : (firstLetter.tryTokenizeLine 1 "z" .initial).toOption.isNone := by decide +kernel
  refine List.forall_mem_singleton.2 ?_
  cases htry : firstLetter.tryTokenizeLine 1 "z" .initial with
  | error e => exact ⟨e, rfl⟩
  | ok t =>
    rw [htry] at hfails
    cases hfails

/-- After a line that has been scanned, the document's start is behind. -/
theorem documentStart_iff_firstLetter : firstLetter.Linked ∧
    (¬∃ n w s task, firstLetter.Visits 1 "x" (firstLetter.stackAfter 1 ["x"]) n w s task ∧
      s.anchors.documentStart = true) ∧
    ∃ n w s task, firstLetter.Visits 1 "x" (firstLetter.stackAfter 1 ["z"]) n w s task ∧
      s.anchors.documentStart = true := by
  refine ⟨firstLetter_linked, ?_, ?_⟩
  · rw [(documentStart_iff firstLetter_linked 1 ["x"] "x").2]
    intro h
    obtain ⟨e, he⟩ := List.forall_mem_singleton.1 h
    have hscans : (firstLetter.tryTokenizeLine 1 "x" .initial).toOption.isSome := by decide +kernel
    rw [he] at hscans
    cases hscans
  · exact (documentStart_iff firstLetter_linked 1 ["z"] "x").2.2 firstLetter_fails

/-- On the second line a search has the anchor of the document's start, and the letter there matches
as the first one. -/
theorem firstLetter_again : firstLetter.Linked ∧
    (∃ n w s task, firstLetter.Visits 1 "x" (firstLetter.stackAfter 1 ["z"]) n w s task ∧
      s.anchors.documentStart = true) ∧
    (firstLetter.tokenizeLinesWithin 1 .initial ["z", "x", "x"]).map (·.tokens) =
      [[⟨0, 1, ["source.t"]⟩], [⟨0, 1, ["source.t", "first"]⟩], [⟨0, 1, ["source.t"]⟩]] := by
  refine ⟨firstLetter_linked, ?_, by decide +kernel⟩
  obtain ⟨s, h, hstart⟩ := exists_visits_documentStart firstLetter_linked 1 "x"
  rw [(stackAfter_eq_nil_iff firstLetter_linked 1 ["z"]).2 firstLetter_fails]
  exact ⟨_, _, s, _, h, hstart⟩

end Grammar

end Highlight
