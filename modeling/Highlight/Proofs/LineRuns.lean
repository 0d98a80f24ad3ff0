import Mathlib.Logic.Relation
import Highlight.Proofs.Resumption

/-!
# Runs over lines

What tokenizing does to the open regions can be watched from moment to moment: between two lines, at
the start of a line before the patterns of continued regions are tried, at each step of the scan,
and when the scan is over (`Moment`). `Grammar.Next` lists the ways from one moment to the next.
Each of them is one call of the functions that tokenize, so that the lines of a text are a run
through these moments (`tokenizeLinesWithin_run`). `Next.changes` says what may happen to the
stack on the way.
-/

namespace Highlight

open Relation (ReflTransGen)

/-- A moment of tokenizing one line after another. -/
inductive Moment where
  /-- Between two lines. -/
  | between (stack : RuleStack)
  /-- At the start of a line, before the patterns of continued regions are tried. -/
  | entering (w : Scan) (s : ScanState)
  /-- In a scan, before its next step. -/
  | scanning (w : Scan) (s : ScanState)
  /-- After the last step of a scan. -/
  | finished (s : ScanState)

/-- The open regions. -/
def Moment.stack : Moment → RuleStack
  | between stack => stack
  | entering _ s => s.stack
  | scanning _ s => s.stack
  | finished s => s.stack

/-- The text of a line with its terminator. -/
def lineText (line : String) : Subject := .ofList (line.toList ++ ['\n'])

namespace Grammar

/-- The scan of a line, where captured texts may be scanned to a number of levels. -/
def lineScan (g : Grammar) (levels : Nat) (line : String) : Scan :=
  ⟨g, lineText line, (lineText line).size, g.scanCaptured (lineText line) levels⟩

/-- From one moment to the next. -/
inductive Next (g : Grammar) : Moment → Moment → Prop
  /-- A line begins. -/
  | begin {stack start : RuleStack} (levels : Nat) (line : String)
      (hstart : g.startStack stack = .ok start) :
      Next g (.between stack)
        (.entering (g.lineScan levels line) ⟨start, 0, none, stack.isEmpty, .empty⟩)
  /-- The patterns of continued regions are tried. -/
  | enter {w : Scan} {s s' : ScanState} (h : w.enterLine s = .ok s') :
      Next g (.entering w s) (.scanning w s')
  /-- A step after which the scan goes on. -/
  | more {w : Scan} {s s' : ScanState} (h : w.step s = .ok (.more s')) :
      Next g (.scanning w s) (.scanning w s')
  /-- The last step of a scan. -/
  | done {w : Scan} {s s' : ScanState} (h : w.step s = .ok (.done s')) :
      Next g (.scanning w s) (.finished s')
  /-- The line ends. -/
  | finish {s : ScanState} : Next g (.finished s) (.between s.stack.clearPositions)
  /-- A line that cannot be scanned has no effect. -/
  | abandon {stack : RuleStack} {levels : Nat} {line : String} {e : ScanError}
      (h : g.tryTokenizeLine levels line stack = .error e) :
      Next g (.between stack) (.between stack)

variable {g : Grammar}

/-- The steps of a scan lead to its end. -/
theorem steps_run {w : Scan} : ∀ {n : Nat} {s s' : ScanState}, w.steps n s = .ok s' →
    ReflTransGen g.Next (.scanning w s) (.finished s')
  | 0, _, _, h => nomatch h
  | n + 1, s, s', h => by
    obtain ⟨q, hq, h⟩ := Except.bind_eq_ok.1 h
    cases q with
    | done t =>
      cases h
      exact .single (.done hq)
    | more t => exact (steps_run h).head (.more hq)

/-- Tokenizing a line is a run from the stack before it to the stack after it. -/
theorem tokenizeLineWithin_run (g : Grammar) (levels : Nat) (line : String) (stack : RuleStack) :
    ReflTransGen g.Next (.between stack)
      (.between (g.tokenizeLineWithin levels line stack).stack) := by
  unfold tokenizeLineWithin
  split
  · rename_i t ht
    obtain ⟨start, s, hstart, hscan, rfl⟩ := tryTokenizeLine_eq_ok.1 ht
    obtain ⟨s₁, henter, hsteps⟩ := Except.bind_eq_ok.1 hscan
    have hbegin : ReflTransGen g.Next (.between stack) (.scanning (g.lineScan levels line) s₁) :=
      .head (.begin levels line hstart) (.single (.enter henter))
    exact (hbegin.trans (steps_run hsteps)).tail .finish
  · rename_i e he
    exact .single (.abandon he)

/-- Tokenizing lines is a run through the stacks that they end with. -/
theorem tokenizeLinesWithin_run (g : Grammar) (levels : Nat) : ∀ (lines : List String)
    (stack : RuleStack), ∀ t ∈ g.tokenizeLinesWithin levels stack lines,
      ReflTransGen g.Next (.between stack) (.between t.stack)
  | [], _, _, ht => nomatch ht
  | line :: lines, stack, t, ht => by
    have hline := g.tokenizeLineWithin_run levels line stack
    rcases List.mem_cons.1 ht with rfl | ht
    · exact hline
    · exact hline.trans (tokenizeLinesWithin_run g levels lines _ t ht)

end Grammar

/-- What one moment may do to the stack. -/
inductive RuleStack.Changes : RuleStack → RuleStack → Prop
  /-- The root is opened on nothing. -/
  | rooted {stack : RuleStack} : Changes [] stack
  /-- A region is opened. -/
  | opened {stack : RuleStack} (f : Frame) : Changes stack (stack.push f)
  /-- The innermost region is given the scopes of its delimiters and stays. -/
  | closing {f : Frame} {below : RuleStack} : Changes (f :: below) (f.atEnd :: below)
  /-- Regions are left, or none is. -/
  | left {stack below : RuleStack} (h : below <:+ stack) : Changes stack below
  /-- Positions are cleared. -/
  | cleared {stack : RuleStack} : Changes stack stack.clearPositions

theorem Scan.step_changes {w : Scan} {s : ScanState} {q : Progress} (h : w.step s = .ok q) :
    s.stack.Changes q.state.stack := by
  rcases step_cases h with ⟨_, rfl⟩ | ⟨c, m, p, _, happ, rfl⟩
  · exact .left List.suffix_rfl
  · rw [afterMatch_stack]
    cases happ with
    | ended hstack =>
      rw [hstack]
      exact .left (List.suffix_cons _ _)
    | kept hstack =>
      rw [hstack]
      exact .closing
    | matched => exact .left List.suffix_rfl
    | idle => exact .left (RuleStack.safePop_suffix _)
    | opened => exact .opened _
    | reentered => exact .left List.suffix_rfl

theorem Scan.enterLine_changes {w : Scan} {s s' : ScanState} (h : w.enterLine s = .ok s') :
    s.stack.Changes s'.stack := by
  rcases enterLine_stack h with heq | ⟨f, below, region, hsuffix, _, heq⟩
  · rw [heq]
    exact .left List.suffix_rfl
  · rw [heq]
    exact .left ((List.suffix_cons f below).trans hsuffix)

theorem Grammar.startStack_changes {g : Grammar} {stack start : RuleStack}
    (h : g.startStack stack = .ok start) : stack.Changes start := by
  unfold startStack at h
  split at h
  · rename_i hempty
    rw [List.isEmpty_iff.1 hempty]
    exact .rooted
  · cases h
    exact .left List.suffix_rfl

theorem Grammar.Next.changes {g : Grammar} {a b : Moment} (h : g.Next a b) :
    a.stack.Changes b.stack := by
  cases h with
  | begin _ _ hstart => exact startStack_changes hstart
  | enter h => exact Scan.enterLine_changes h
  | more h => exact Scan.step_changes h
  | done h => exact Scan.step_changes h
  | finish => exact .cleared
  | abandon => exact .left List.suffix_rfl

end Highlight
