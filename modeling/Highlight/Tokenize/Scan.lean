import Highlight.Tokenize.Select
import Highlight.Tokenize.Token

/-!
# Scanning a line

A scan goes through a text from match to match. A match either gives scopes to a stretch of text,
opens a region or ends one; captured groups get scopes of their own, and a capture rule with
patterns inside has its text scanned anew as a region. A scan that neither moves nor opens a region
that was not opened at the same place stops, so it cannot stay in place for ever.
-/

namespace Highlight

/-- The state of a scan. -/
structure ScanState where
  stack : RuleStack
  position : Nat
  /-- Where the last begin match ended. -/
  anchor : Option Nat
  /-- Nothing of the document has been consumed. -/
  atStart : Bool
  run : TokenRun

namespace ScanState

/-- Extends the tokens to a position with the scopes at the top of the stack. -/
def produce (s : ScanState) (stop : Nat) : ScanState :=
  { s with run := s.run.produce stop s.stack.scopes }

/-- The state at the start of a line. The begin match of the innermost region ended here if it took
the end of the line before. -/
def atLineStart (s : ScanState) : ScanState :=
  { s with anchor := if s.stack.head?.any (·.beginReachedEnd) then some 0 else s.anchor }

/-- The anchors that hold here. -/
def anchors (s : ScanState) : Anchors := .ofPosition s.atStart s.anchor s.position

end ScanState

/-- How captured text is scanned as a region: the stack, the range of the text, whether nothing of
the document comes before it, and the tokens before it. -/
abbrev NestedScan :=
  RuleStack → (start stop : Nat) → (atStart : Bool) → TokenRun → Except ScanError TokenRun

/-- What a scan works on. -/
structure Scan where
  grammar : Grammar
  text : Subject
  /-- The text ends here. -/
  stop : Nat
  nested : NestedScan

namespace Scan

/-- The scopes that a name gives to a match. -/
def expand (w : Scan) (m : Match) (name : Option String) : ScopePath :=
  match name with
  | some n => Template.expand n w.text m.groups
  | none => []

/-! ## Captures -/

/-- Captured stretches that are still open, the innermost first, with their scopes and ends. -/
abbrev Open := List (ScopePath × Nat)

/-- Closes the stretches that end before or at a position. -/
def closeBefore (start : Nat) : Open → TokenRun → Open × TokenRun
  | [], run => ([], run)
  | (scopes, stop) :: rest, run =>
    if stop ≤ start then closeBefore start rest (run.produce stop scopes)
    else ((scopes, stop) :: rest, run)

/-- Closes all stretches. -/
def closeAll : Open → TokenRun → TokenRun
  | [], run => run
  | (scopes, stop) :: rest, run => closeAll rest (run.produce stop scopes)

/-- The scopes around the next captured stretch. -/
def base (stack : RuleStack) : Open → ScopePath
  | [] => stack.scopes
  | (scopes, _) :: _ => scopes

/-- The region of a capture rule with patterns, entered at `start`, before it is pushed. -/
def captureFrame (w : Scan) (stack : RuleStack) (m : Match) (r : RuleRef) (rule : Rule)
    (start : Nat) : Frame :=
  let names := stack.scopes ++ w.expand m rule.name?
  { rule := r
    depth := 0
    enterPos := some start
    anchorPos := none
    beginReachedEnd := false
    endPattern := none
    nameScopes := names
    contentScopes := names ++ w.expand m rule.contentName? }

/-- Applies the rules of captures to the groups of a match, where `pairs` has them side by side.
Groups that took no part or are empty have no effect. -/
def resolvePairs (w : Scan) (stack : RuleStack) (owner : ScopeName) (atStart : Bool) (m : Match)
    (open_ : Open) (run : TokenRun) :
    List (Option RuleId × Option Span) → Except ScanError TokenRun
  | [] => .ok (closeAll open_ run)
  | (some id, some s) :: pairs =>
    if s.start == s.stop then resolvePairs w stack owner atStart m open_ run pairs
    else do
      let (open_, run) := closeBefore s.start open_ run
      let around := base stack open_
      let run := run.produce s.start around
      let r : RuleRef := ⟨owner, id⟩
      let rule ← w.grammar.rule r
      if rule.children.isEmpty then
        let names := w.expand m rule.name?
        let open_ := if names.isEmpty then open_ else (around ++ names, s.stop) :: open_
        resolvePairs w stack owner atStart m open_ run pairs
      else
        let f := w.captureFrame stack m r rule s.start
        let run ← w.nested (stack.push f) s.start s.stop (atStart && s.start == 0) run
        resolvePairs w stack owner atStart m open_ run pairs
  | _ :: pairs => resolvePairs w stack owner atStart m open_ run pairs

/-- Applies the rules of captures of a match to the state, on a stack of their own. -/
def resolveCaptures (w : Scan) (s : ScanState) (stack : RuleStack) (owner : ScopeName)
    (rules : CaptureRules) (m : Match) : Except ScanError ScanState := do
  let run ← w.resolvePairs stack owner s.atStart m [] s.run (rules.zip m.groups)
  return { s with run := run.produce m.stop stack.scopes }

/-! ## Matches -/

/-- Whether a scan goes on. -/
inductive Progress where
  | more (s : ScanState)
  | done (s : ScanState)

/-- The state that a scan goes on from or stops in. -/
def Progress.state : Progress → ScanState
  | more s => s
  | done s => s

/-- The end of the innermost region matched. A region that opened and ended without consuming
anything stays open and the scan stops. -/
def applyEnd (w : Scan) (s : ScanState) (m : Match) : Except ScanError Progress :=
  match s.stack with
  | [] => .ok (.done s)
  | f :: below => do
    match ← w.grammar.rule f.rule with
    | .beginEnd r => do
      let ending : RuleStack := f.atEnd :: below
      let s' ← w.resolveCaptures (s.produce m.start) ending f.rule.grammar r.endCaptures m
      let s' := { s' with anchor := f.anchorPos }
      if !(s.position < m.stop) && f.enterPos == some s.position then
        return .done { s' with stack := ending }
      else return .more { s' with stack := below }
    | _ => .error (.endOutsideRegion f.rule)

/-- The region that a match of a rule opens, or the place of a match without a region, before it is
pushed. -/
def openedFrame (w : Scan) (s : ScanState) (r : RuleRef) (name : Option String) (m : Match) :
    Frame :=
  let scopes := s.stack.scopes ++ w.expand m name
  { rule := r
    depth := 0
    enterPos := some s.position
    anchorPos := s.anchor
    beginReachedEnd := m.stop == w.stop
    endPattern := none
    nameScopes := scopes
    contentScopes := scopes }

/-- A rule without a region matched. Where nothing is consumed, the innermost region is left and the
scan stops. -/
def applyMatch (w : Scan) (s : ScanState) (r : RuleRef) (rule : MatchRule) (m : Match) :
    Except ScanError Progress := do
  let pushed := s.stack.push (w.openedFrame s r rule.name m)
  let s' ← w.resolveCaptures (s.produce m.start) pushed r.grammar rule.captures m
  if s.position < m.stop then return .more s'
  else return .done { s' with stack := s.stack.safePop }

/-- The end of a region with the text that its begin match captured. -/
def resolveEnd (w : Scan) (m : Match) : EndPattern → Except ScanError (Option Pattern)
  | .fixed _ => .ok none
  | .dynamic source =>
    match Pattern.compile (resolveReferences source w.text m.groups) with
    | .ok p => .ok (some p)
    | .error e => .error (.badEnd e)

/-- A rule that opens a region matched. Where nothing is consumed and the same rule was entered here
already, the region is not opened and the scan stops. -/
def applyBegin (w : Scan) (s : ScanState) (r : RuleRef) (name contentName : Option String)
    (captures : CaptureRules) (e : EndPattern) (m : Match) : Except ScanError Progress := do
  let f := w.openedFrame s r name m
  let s' ← w.resolveCaptures (s.produce m.start) (s.stack.push f) r.grammar captures m
  let s' := { s' with anchor := some m.stop }
  let p ← w.resolveEnd m e
  let f := { f with
    contentScopes := f.contentScopes ++ w.expand m contentName
    endPattern := p }
  if !(s.position < m.stop) && s.stack.entered r s.position then return .done s'
  else return .more { s' with stack := s.stack.push f }

/-- The start of a rule matched. -/
def applyRule (w : Scan) (s : ScanState) (r : RuleRef) (m : Match) : Except ScanError Progress := do
  match ← w.grammar.rule r with
  | .matching rule => w.applyMatch s r rule m
  | .beginEnd rule =>
    w.applyBegin s r rule.name rule.contentName rule.beginCaptures rule.endPattern m
  | .beginWhile rule =>
    w.applyBegin s r rule.name rule.contentName rule.beginCaptures rule.whilePattern m
  | _ => .error (.noPattern r)

/-! ## The scan -/

/-- The place of a state. -/
def place (w : Scan) (s : ScanState) : Place := ⟨w.text, w.stop, s.position, s.anchors⟩

/-- Applies a match, by what its pattern belongs to. -/
def applyCandidate (w : Scan) (s : ScanState) (m : Match) : Candidate → Except ScanError Progress
  | .ending => w.applyEnd s m
  | .rule r => w.applyRule s r m

/-- What is left to do once a match is applied: where the scan stops, the rest of the text has the
scopes of the innermost region, else the scan goes on behind the match. -/
def afterMatch (w : Scan) (s : ScanState) (m : Match) : Progress → Progress
  | .done s' => .done (s'.produce w.stop)
  | .more s' =>
    .more (if s.position < m.stop then { s' with position := m.stop, atStart := false } else s')

/-- One step: the next match is applied. Where there is none, the rest of the text has the scopes of
the innermost region. -/
def step (w : Scan) (s : ScanState) : Except ScanError Progress := do
  match ← (w.place s).nextMatch w.grammar s.stack with
  | none => return .done (s.produce w.stop)
  | some (c, m) => return w.afterMatch s m (← w.applyCandidate s m c)

/-- Steps until the scan is done. -/
def steps (w : Scan) : Nat → ScanState → Except ScanError ScanState
  | 0, _ => .error .endless
  | fuel + 1, s => do
    match ← w.step s with
    | .done s => return s
    | .more s => w.steps fuel s

/-- More steps than a scan can take: at each position it leaves regions that were open before and
enters each rule at most once. -/
def bound (w : Scan) (s : ScanState) : Nat :=
  let rules := w.grammar.documents.foldl (fun n (_, d) => n + d.rules.size) 0
  s.stack.length + (w.stop - s.position + 1) * (2 * rules + 2) + 1

/-! ## Continued regions -/

/-- An open region that lasts while its pattern matches. -/
structure Continued where
  frame : Frame
  below : RuleStack
  rule : BeginWhileRule

/-- The open regions that last while their pattern matches, the outermost first. -/
def continued (g : Grammar) : RuleStack → Except ScanError (List Continued)
  | [] => .ok []
  | f :: below => do
    let outer ← continued g below
    match ← g.rule f.rule with
    | .beginWhile rule => return outer ++ [⟨f, below, rule⟩]
    | _ => return outer

/-- Searches the patterns of the regions from where the last of them ended, the outermost region
first. The first region whose pattern is not found is left, with all inside it. -/
def continueRegions (w : Scan) (s : ScanState) : List Continued → Except ScanError ScanState
  | [] => .ok s
  | c :: cs => do
    let p ← c.frame.resolvedEnd c.rule.whilePattern
    match p.search w.text.chars s.position w.stop s.anchors with
    | none => return { s with stack := c.below }
    | some m =>
      let stack : RuleStack := c.frame :: c.below
      let s := { s with run := s.run.produce m.start stack.scopes }
      let s' ← w.resolveCaptures s stack c.frame.rule.grammar c.rule.whileCaptures m
      let s' := { s' with anchor := some m.stop }
      if s.position < m.stop then
        w.continueRegions { s' with position := m.stop, atStart := false } cs
      else w.continueRegions s' cs

/-- The state at the start of a line, after the patterns of continued regions. -/
def enterLine (w : Scan) (s : ScanState) : Except ScanError ScanState := do
  let cs ← continued w.grammar s.stack
  w.continueRegions s.atLineStart cs

end Scan

/-- Scans captured text, where captured texts within it nest at most to the given number of levels.
-/
def Grammar.scanCaptured (g : Grammar) (text : Subject) : Nat → NestedScan
  | 0, _, _, _, _, _ => .error .capturesTooDeep
  | levels + 1, stack, start, stop, atStart, run => do
    let w : Scan := ⟨g, text, stop, g.scanCaptured text levels⟩
    let s : ScanState := ⟨stack, start, none, atStart, run⟩
    let s ← w.steps (w.bound s) s
    return s.run

/-- Scans a line with its terminator. -/
def Grammar.scanLine (g : Grammar) (levels : Nat) (text : Subject) (stack : RuleStack)
    (atStart : Bool) : Except ScanError ScanState := do
  let w : Scan := ⟨g, text, text.size, g.scanCaptured text levels⟩
  let s ← w.enterLine ⟨stack, 0, none, atStart, .empty⟩
  w.steps (w.bound s) s

end Highlight
