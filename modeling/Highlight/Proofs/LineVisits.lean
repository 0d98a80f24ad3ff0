import Mathlib.Data.List.Induction
import Highlight.Proofs.LineRuns

/-!
# What a line is searched for

Tokenizing a line searches patterns at one state after another: those of continued regions first, one
by one, then those of the innermost region, in each scan of the loop, and the same again for captured
texts within it. `Grammar.Visits` lists these states. All searches at a state start at its position
and have its anchors.

The captured texts that a state leads to are listed by `Scan.Asks`. None is missing: what applying a
match comes to depends on scans of captured text at these only (`step_congr`,
`continueRegions_congr`). Some may never be scanned, because another capture fails before, and the
tokens collected so far may be any. No search depends on them.
-/

namespace Highlight

namespace Scan

/-- What is searched for at a state. -/
inductive Task where
  /-- The patterns of continued regions, the outermost first. -/
  | lasting (cs : List Continued)
  /-- The patterns of the innermost region. -/
  | matching

/-- The match that a state comes to has the captures of a rule applied to it, on a stack of their
own. -/
inductive Resolves (w : Scan) (s : ScanState) :
    Task → RuleStack → RuleRef → CaptureRules → Match → Prop
  | lasting {c : Continued} {cs : List Continued} {p : Pattern} {m : Match}
      (hp : c.frame.resolvedEnd c.rule.whilePattern = .ok p)
      (hm : p.search w.text.chars s.position w.stop s.anchors = some m) :
      Resolves w s (.lasting (c :: cs)) (c.frame :: c.below) c.frame.rule c.rule.whileCaptures m
  | ending {f : Frame} {below : RuleStack} {rule : BeginEndRule} {m : Match}
      (hm : (w.place s).nextMatch w.grammar s.stack = .ok (some (.ending, m)))
      (hstack : s.stack = f :: below) (hrule : w.grammar.rule? f.rule = some (.beginEnd rule)) :
      Resolves w s .matching (f.atEnd :: below) f.rule rule.endCaptures m
  | matched {r : RuleRef} {rule : MatchRule} {m : Match}
      (hm : (w.place s).nextMatch w.grammar s.stack = .ok (some (.rule r, m)))
      (hrule : w.grammar.rule? r = some (.matching rule)) :
      Resolves w s .matching (s.stack.push (w.openedFrame s r rule.name m)) r rule.captures m
  | opening {r : RuleRef} {region : Rule.Region} {m : Match}
      (hm : (w.place s).nextMatch w.grammar s.stack = .ok (some (.rule r, m)))
      (hregion : w.grammar.region? r = some region) :
      Resolves w s .matching (s.stack.push (w.openedFrame s r region.name m)) r region.captures m

/-- A scan of captured text that a state leads to: the stack, the range of the text and whether
nothing of the document comes before it. -/
inductive Asks (w : Scan) (s : ScanState) (task : Task) : RuleStack → Nat → Nat → Bool → Prop
  | captured {stack : RuleStack} {owner : RuleRef} {rules : CaptureRules} {m : Match} {id : RuleId}
      {span : Span} {rule : Rule} (h : w.Resolves s task stack owner rules m)
      (hmem : (some id, some span) ∈ rules.zip m.groups) (hspan : span.start ≠ span.stop)
      (hrule : w.grammar.rule? ⟨owner.grammar, id⟩ = some rule) (hinside : rule.children ≠ []) :
      Asks w s task (stack.push (w.captureFrame stack m ⟨owner.grammar, id⟩ rule span.start))
        span.start span.stop (s.atStart && span.start == 0)

/-- From one state of a scan to the next. -/
inductive Goes (w : Scan) (s : ScanState) : Task → ScanState → Task → Prop
  /-- The pattern of a continued region is not found: the region is left. -/
  | left {c : Continued} {cs : List Continued} {p : Pattern}
      (hp : c.frame.resolvedEnd c.rule.whilePattern = .ok p)
      (hm : p.search w.text.chars s.position w.stop s.anchors = none) :
      Goes w s (.lasting (c :: cs)) { s with stack := c.below } .matching
  /-- It is found, and so the next one is tried. -/
  | lasts {c : Continued} {cs : List Continued} {p : Pattern} {m : Match} (run : TokenRun)
      (hp : c.frame.resolvedEnd c.rule.whilePattern = .ok p)
      (hm : p.search w.text.chars s.position w.stop s.anchors = some m) :
      Goes w s (.lasting (c :: cs))
        { stack := s.stack
          position := if s.position < m.stop then m.stop else s.position
          anchor := some m.stop
          atStart := if s.position < m.stop then false else s.atStart
          run := run }
        (.lasting cs)
  | entered : Goes w s (.lasting []) s .matching
  | steps {s' : ScanState} (h : w.step s = .ok (.more s')) : Goes w s .matching s' .matching

/-! ## Scans of captured text -/

section

variable {w : Scan} {s : ScanState} {nested : NestedScan}

/-- The two ways of scanning captured text agree where the state leads to such a scan. -/
def Agrees (w : Scan) (nested : NestedScan) (s : ScanState) (task : Task) : Prop :=
  ∀ stack start stop atStart, w.Asks s task stack start stop atStart →
    ∀ run, w.nested stack start stop atStart run = nested stack start stop atStart run

theorem resolvePairs_congr (nested : NestedScan) {stack : RuleStack} {owner : ScopeName} {atStart : Bool} {m : Match} :
    ∀ {pairs : List (Option RuleId × Option Span)},
      (∀ id span rule, (some id, some span) ∈ pairs → span.start ≠ span.stop →
        w.grammar.rule? ⟨owner, id⟩ = some rule → rule.children ≠ [] →
        ∀ run, w.nested (stack.push (w.captureFrame stack m ⟨owner, id⟩ rule span.start)) span.start
            span.stop (atStart && span.start == 0) run =
          nested (stack.push (w.captureFrame stack m ⟨owner, id⟩ rule span.start)) span.start
            span.stop (atStart && span.start == 0) run) →
      ∀ (opened : Open) (run : TokenRun), w.resolvePairs stack owner atStart m opened run pairs =
        { w with nested := nested }.resolvePairs stack owner atStart m opened run pairs := by
  intro pairs
  induction pairs with
  | nil => exact fun _ _ _ => rfl
  | cons pair pairs ih =>
    intro h opened run
    have ih := ih fun id span rule hmem => h id span rule (List.mem_cons_of_mem _ hmem)
    obtain ⟨id?, span?⟩ := pair
    cases id? with
    | none => exact ih opened run
    | some id =>
      cases span? with
      | none => exact ih opened run
      | some span =>
        simp only [resolvePairs]
        split
        · exact ih opened run
        · next hspan =>
          refine Except.bind_congr_ok fun rule hrule => ?_
          rw [Grammar.rule_eq_ok] at hrule
          split
          · exact ih _ _
          · next hinside =>
            have hnested := h id span rule List.mem_cons_self (by simpa using hspan) hrule
              (by simpa using hinside)
            refine (congrArg (· >>= _) (hnested _)).trans (Except.bind_congr_ok fun run _ => ?_)
            exact ih _ run

theorem resolveCaptures_congr {task : Task} {stack : RuleStack} {owner : RuleRef}
    {rules : CaptureRules} {m : Match} (hresolves : w.Resolves s task stack owner rules m)
    (h : w.Agrees nested s task) (t : ScanState) (ht : t.atStart = s.atStart) :
    w.resolveCaptures t stack owner.grammar rules m =
      { w with nested := nested }.resolveCaptures t stack owner.grammar rules m := by
  unfold resolveCaptures
  rw [ht, resolvePairs_congr nested]
  intro id span rule hmem hspan hrule hinside run
  exact h _ _ _ _ (.captured hresolves hmem hspan hrule hinside) run

theorem resolveEnd_congr (m : Match) (e : EndPattern) :
    ({ w with nested := nested } : Scan).resolveEnd m e = w.resolveEnd m e := by
  cases e with
  | fixed _ => rfl
  | dynamic source =>
    unfold resolveEnd
    dsimp only

theorem applyCandidate_congr {c : Candidate} {m : Match}
    (hm : (w.place s).nextMatch w.grammar s.stack = .ok (some (c, m)))
    (h : w.Agrees nested s .matching) :
    w.applyCandidate s m c = { w with nested := nested }.applyCandidate s m c := by
  cases c with
  | ending =>
    unfold applyCandidate applyEnd
    dsimp only
    split
    · rfl
    · next f below hstack =>
      refine Except.bind_congr_ok fun rule hrule => ?_
      rw [Grammar.rule_eq_ok] at hrule
      cases rule with
      | beginEnd rule =>
        dsimp only
        rw [resolveCaptures_congr (.ending hm hstack hrule) h (s.produce m.start) rfl]
      | matching _ => rfl
      | beginWhile _ => rfl
      | group _ => rfl
      | inclusion _ => rfl
  | rule r =>
    unfold applyCandidate applyRule
    dsimp only
    refine Except.bind_congr_ok fun rule hrule => ?_
    rw [Grammar.rule_eq_ok] at hrule
    cases rule with
    | matching rule =>
      dsimp only [applyMatch]
      rw [resolveCaptures_congr (.matched hm hrule) h (s.produce m.start) rfl]
      rfl
    | beginEnd rule =>
      dsimp only [applyBegin]
      rw [resolveCaptures_congr (.opening hm (Grammar.region?_beginEnd hrule)) h
        (s.produce m.start) rfl]
      simp only [resolveEnd_congr]
      rfl
    | beginWhile rule =>
      dsimp only [applyBegin]
      rw [resolveCaptures_congr (.opening hm (Grammar.region?_beginWhile hrule)) h
        (s.produce m.start) rfl]
      simp only [resolveEnd_congr]
      rfl
    | group _ => rfl
    | inclusion _ => rfl

/-- A step depends on scans of captured text only where the state leads to them. -/
theorem step_congr (h : w.Agrees nested s .matching) :
    w.step s = { w with nested := nested }.step s := by
  refine Except.bind_congr_ok fun found hfound => ?_
  match found with
  | none => rfl
  | some (c, m) =>
    dsimp only
    rw [applyCandidate_congr hfound h]
    rfl

/-- So does the pattern of a continued region. -/
theorem continueRegions_congr {c : Continued} {cs : List Continued}
    (h : w.Agrees nested s (.lasting (c :: cs)))
    (hmore : ∀ t, w.Goes s (.lasting (c :: cs)) t (.lasting cs) →
      w.continueRegions t cs = { w with nested := nested }.continueRegions t cs) :
    w.continueRegions s (c :: cs) =
      { w with nested := nested }.continueRegions s (c :: cs) := by
  unfold continueRegions
  refine Except.bind_congr_ok fun p hp => ?_
  dsimp only
  split
  · rfl
  · next m hm =>
    rw [resolveCaptures_congr (.lasting hp hm) h
      { s with run := s.run.produce m.start (RuleStack.scopes (c.frame :: c.below)) } rfl]
    refine Except.bind_congr_ok fun t ht => ?_
    obtain ⟨run, _, rfl⟩ := resolveCaptures_eq_ok.1 ht
    have hgoes : w.Goes s (.lasting (c :: cs)) _ (.lasting cs) := .lasts run hp hm
    split
    · next hgo =>
      rw [if_pos hgo, if_pos hgo] at hgoes
      exact hmore _ hgoes
    · next hstay =>
      rw [if_neg hstay, if_neg hstay] at hgoes
      exact hmore _ hgoes

end

end Scan

namespace Grammar

open Scan (Task)

/-- The states at which tokenizing a line from a stack searches patterns, in the scan of the line and
in those of captured texts, with the number of levels that captured texts may nest from there. -/
inductive Visits (g : Grammar) (levels : Nat) (line : String) (stack : RuleStack) :
    Nat → Scan → ScanState → Task → Prop
  | start {start : RuleStack} {cs : List Scan.Continued} (hstart : g.startStack stack = .ok start)
      (hcs : Scan.continued g start = .ok cs) :
      Visits g levels line stack levels (g.lineScan levels line)
        (ScanState.atLineStart ⟨start, 0, none, stack.isEmpty, .empty⟩) (.lasting cs)
  | goes {n : Nat} {w : Scan} {s s' : ScanState} {task task' : Task}
      (h : Visits g levels line stack n w s task) (hgoes : w.Goes s task s' task') :
      Visits g levels line stack n w s' task'
  | captured {n : Nat} {w : Scan} {s : ScanState} {task : Task} {inner : RuleStack}
      {start stop : Nat} {atStart : Bool} (h : Visits g levels line stack (n + 1) w s task)
      (hasks : w.Asks s task inner start stop atStart) (run : TokenRun) :
      Visits g levels line stack n ⟨g, w.text, stop, g.scanCaptured w.text n⟩
        ⟨inner, start, none, atStart, run⟩ .matching

variable {g : Grammar} {levels n : Nat} {line : String} {stack : RuleStack} {w : Scan}
  {s : ScanState} {task : Task}

/-- All scans are scans with the grammar. -/
theorem Visits.grammar (h : g.Visits levels line stack n w s task) : w.grammar = g := by
  induction h with
  | start => rfl
  | goes _ _ ih => exact ih
  | captured => rfl

/-! ## The first line -/

theorem Linked.exists_rootStack (hg : g.Linked) : ∃ start, g.rootStack = .ok start := by
  obtain ⟨r, _, hr, _⟩ := hg.root
  rw [rootStack, hr]
  exact ⟨_, rfl⟩

/-- The root is no region that lasts while a pattern matches. -/
theorem continued_root (hg : g.Linked) {start : RuleStack} (h : g.rootStack = .ok start) :
    Scan.continued g start = .ok [] := by
  unfold rootStack at h
  split at h
  · cases h
  · next r hr =>
    cases h
    obtain ⟨r', rule, hr', hrule⟩ := hg.root
    cases hr.symm.trans hr'
    simp only [RuleStack.push, RuleStack.initial, Scan.continued, rule_eq_ok.2 hrule]
    rfl

/-- On a line with nothing open the patterns of the root are searched first. -/
theorem visits_first (hg : g.Linked) {start : RuleStack} (h : g.rootStack = .ok start)
    (levels : Nat) (line : String) :
    g.Visits levels line [] levels (g.lineScan levels line)
      (ScanState.atLineStart ⟨start, 0, none, true, .empty⟩) .matching :=
  have hstart : g.Visits levels line [] levels (g.lineScan levels line) _ (.lasting []) :=
    .start h (continued_root hg h)
  hstart.goes .entered

/-! ## Line after line -/

/-- The stack after lines, from the start of a text on. -/
def stackAfter (g : Grammar) (levels : Nat) (lines : List String) : RuleStack :=
  lines.foldl (fun stack line => (g.tokenizeLineWithin levels line stack).stack) .initial

theorem stackAfter_append_singleton (g : Grammar) (levels : Nat) (lines : List String)
    (line : String) : g.stackAfter levels (lines ++ [line]) =
      (g.tokenizeLineWithin levels line (g.stackAfter levels lines)).stack := by
  rw [stackAfter, List.foldl_append]
  rfl

theorem reached_stackAfter (g : Grammar) (levels : Nat) (lines : List String) :
    g.Reached (g.stackAfter levels lines) := by
  induction lines using List.reverseRecOn with
  | nil => exact .initial
  | append_singleton lines line ih =>
    rw [stackAfter_append_singleton]
    exact ih.line levels line

end Grammar

end Highlight
