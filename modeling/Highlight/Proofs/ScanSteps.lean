import Highlight.Tokenize.Line

/-!
# What a step of a scan can do

The scan of a text is a loop around one step. `Applied` lists all that a match can do to the state
of a scan: six cases, with the conditions under which each arises. `step_cases` says that a step of
the loop is one of them, or the last step of a text without another match. What holds of every scan
is proved from these cases, never from the definition of the step. Likewise there is one equation
for each thing that a capture of a match can do: nothing (`Idle`), open a stretch
(`resolvePairs_plain`) or have its text scanned (`resolvePairs_inside`).
-/

namespace Highlight

theorem Grammar.rule_eq_ok {g : Grammar} {r : RuleRef} {rule : Rule} :
    g.rule r = .ok rule ↔ g.rule? r = some rule := by
  unfold Grammar.rule
  cases g.rule? r <;> simp

namespace Rule

/-- What the start of a region needs of its rule. -/
structure Region where
  name : Option String
  contentName : Option String
  captures : CaptureRules
  /-- What ends or continues the region. -/
  close : EndPattern
  patterns : List RuleId

/-- The region that a rule opens, where it opens one. -/
def region? : Rule → Option Region
  | beginEnd r => some ⟨r.name, r.contentName, r.beginCaptures, r.endPattern, r.patterns⟩
  | beginWhile r => some ⟨r.name, r.contentName, r.beginCaptures, r.whilePattern, r.patterns⟩
  | _ => none

end Rule

namespace Grammar

/-- The region that the rule behind a reference opens. -/
def region? (g : Grammar) (r : RuleRef) : Option Rule.Region := (g.rule? r).bind Rule.region?

theorem region?_beginEnd {g : Grammar} {r : RuleRef} {rule : BeginEndRule}
    (h : g.rule? r = some (.beginEnd rule)) : g.region? r =
      some ⟨rule.name, rule.contentName, rule.beginCaptures, rule.endPattern, rule.patterns⟩ := by
  rw [region?, h]
  rfl

theorem region?_beginWhile {g : Grammar} {r : RuleRef} {rule : BeginWhileRule}
    (h : g.rule? r = some (.beginWhile rule)) : g.region? r =
      some ⟨rule.name, rule.contentName, rule.beginCaptures, rule.whilePattern, rule.patterns⟩ := by
  rw [region?, h]
  rfl

end Grammar

namespace Scan

variable {w : Scan} {s s' : ScanState} {m : Match}

/-! ## Captures -/

/-- A capture without effect: it has no rule, took no part or is empty. -/
def Idle : Option RuleId × Option Span → Prop
  | (some _, some span) => span.start = span.stop
  | _ => True

theorem idle_or (pair : Option RuleId × Option Span) :
    Idle pair ∨ ∃ id span, pair = (some id, some span) ∧ span.start ≠ span.stop := by
  obtain ⟨id?, span?⟩ := pair
  cases id? with
  | none => exact .inl trivial
  | some id =>
    cases span? with
    | none => exact .inl trivial
    | some span =>
      by_cases hempty : span.start = span.stop
      · exact .inl hempty
      · exact .inr ⟨id, span, rfl, hempty⟩

section

variable {stack : RuleStack} {owner : ScopeName} {atStart : Bool} {opened : Open} {run : TokenRun}
  {pairs : List (Option RuleId × Option Span)} {id : RuleId} {span : Span} {rule : Rule}

theorem resolvePairs_idle {pair : Option RuleId × Option Span} (h : Idle pair) :
    w.resolvePairs stack owner atStart m opened run (pair :: pairs) =
      w.resolvePairs stack owner atStart m opened run pairs := by
  obtain ⟨id?, span?⟩ := pair
  cases id? with
  | none => rw [resolvePairs]; simp
  | some id =>
    cases span? with
    | none => rw [resolvePairs]; simp
    | some span =>
      have hempty : span.start = span.stop := h
      rw [resolvePairs, if_pos (beq_iff_eq.2 hempty)]

/-- A capture whose rule has no patterns: what ends before it is closed, the gap is filled, and the
capture is opened if it has a name. -/
theorem resolvePairs_plain (hspan : span.start ≠ span.stop)
    (hrule : w.grammar.rule? ⟨owner, id⟩ = some rule) (hleaf : rule.children = []) :
    w.resolvePairs stack owner atStart m opened run ((some id, some span) :: pairs) =
      let closed := closeBefore span.start opened run
      let around := base stack closed.1
      let names := w.expand m rule.name?
      w.resolvePairs stack owner atStart m
        (if names.isEmpty then closed.1 else (around ++ names, span.stop) :: closed.1)
        (closed.2.produce span.start around) pairs := by
  simp only [resolvePairs]
  rw [if_neg (by simpa using hspan), Grammar.rule_eq_ok.2 hrule]
  simp only [bind, Except.bind]
  rw [if_pos (List.isEmpty_iff.2 hleaf)]

/-- A capture whose rule has patterns: its text is scanned where the gap ends. -/
theorem resolvePairs_inside (hspan : span.start ≠ span.stop)
    (hrule : w.grammar.rule? ⟨owner, id⟩ = some rule) (hinside : rule.children ≠ []) :
    w.resolvePairs stack owner atStart m opened run ((some id, some span) :: pairs) =
      let closed := closeBefore span.start opened run
      w.nested (stack.push (w.captureFrame stack m ⟨owner, id⟩ rule span.start)) span.start
          span.stop (atStart && span.start == 0)
          (closed.2.produce span.start (base stack closed.1)) >>= fun inner =>
        w.resolvePairs stack owner atStart m closed.1 inner pairs := by
  simp only [resolvePairs]
  rw [if_neg (by simpa using hspan), Grammar.rule_eq_ok.2 hrule]
  simp only [bind, Except.bind]
  rw [if_neg (mt List.isEmpty_iff.1 hinside)]

theorem exists_rule_of_resolvePairs {run' : TokenRun} (hspan : span.start ≠ span.stop)
    (h : w.resolvePairs stack owner atStart m opened run ((some id, some span) :: pairs) =
      .ok run') : ∃ rule, w.grammar.rule? ⟨owner, id⟩ = some rule := by
  simp only [resolvePairs] at h
  rw [if_neg (by simpa using hspan)] at h
  obtain ⟨rule, hrule, _⟩ := Except.bind_eq_ok.1 h
  exact ⟨rule, Grammar.rule_eq_ok.1 hrule⟩

end

/-- `run` becomes `run'` by the captures of a match and the rest of the match, on a stack of their
own. -/
def Captured (w : Scan) (atStart : Bool) (stack : RuleStack) (owner : ScopeName)
    (rules : CaptureRules) (m : Match) (run run' : TokenRun) : Prop :=
  ∃ inner, w.resolvePairs stack owner atStart m [] run (rules.zip m.groups) = .ok inner ∧
    run' = inner.produce m.stop stack.scopes

theorem resolveCaptures_eq_ok {stack : RuleStack} {owner : ScopeName} {rules : CaptureRules} :
    w.resolveCaptures s stack owner rules m = .ok s' ↔
      ∃ run, w.Captured s.atStart stack owner rules m s.run run ∧ s' = { s with run := run } := by
  simp only [resolveCaptures, Except.bind_eq_ok, Captured]
  constructor
  · rintro ⟨inner, hi, hs⟩
    exact ⟨_, ⟨inner, hi, rfl⟩, (Except.ok.inj hs).symm⟩
  · rintro ⟨_, ⟨inner, hi, rfl⟩, rfl⟩
    exact ⟨inner, hi, rfl⟩

/-! ## Steps -/

/-- The frame of a region after its begin match, before it is pushed. -/
def regionFrame (w : Scan) (s : ScanState) (r : RuleRef) (region : Rule.Region) (m : Match)
    (p : Option Pattern) : Frame :=
  let f := w.openedFrame s r region.name m
  { f with contentScopes := f.contentScopes ++ w.expand m region.contentName, endPattern := p }

/-- The match consumes something. -/
def Advances (s : ScanState) (m : Match) : Prop := s.position < m.stop

instance (s : ScanState) (m : Match) : Decidable (Advances s m) := Nat.decLt _ _

/-- All that a match can do to the state of a scan, by what the match belongs to. -/
inductive Applied (w : Scan) (s : ScanState) (m : Match) : Candidate → Progress → Prop
  /-- The innermost region ends. -/
  | ended {f : Frame} {below : RuleStack} {rule : BeginEndRule} {run : TokenRun}
      (hstack : s.stack = f :: below) (hrule : w.grammar.rule? f.rule = some (.beginEnd rule))
      (hrun : w.Captured s.atStart (f.atEnd :: below) f.rule.grammar rule.endCaptures m
        (s.produce m.start).run run)
      (hgo : ¬Advances s m → f.enterPos ≠ some s.position) :
      Applied w s m .ending (.more { s with stack := below, anchor := f.anchorPos, run := run })
  /-- The innermost region would end where it was opened: it stays. -/
  | kept {f : Frame} {below : RuleStack} {rule : BeginEndRule} {run : TokenRun}
      (hstack : s.stack = f :: below) (hrule : w.grammar.rule? f.rule = some (.beginEnd rule))
      (hrun : w.Captured s.atStart (f.atEnd :: below) f.rule.grammar rule.endCaptures m
        (s.produce m.start).run run)
      (hstay : ¬Advances s m) (henter : f.enterPos = some s.position) :
      Applied w s m .ending
        (.done { s with stack := f.atEnd :: below, anchor := f.anchorPos, run := run })
  /-- A rule without a region matches. -/
  | matched {r : RuleRef} {rule : MatchRule} {run : TokenRun}
      (hrule : w.grammar.rule? r = some (.matching rule))
      (hrun : w.Captured s.atStart (s.stack.push (w.openedFrame s r rule.name m)) r.grammar
        rule.captures m (s.produce m.start).run run)
      (hgo : Advances s m) :
      Applied w s m (.rule r) (.more { s with run := run })
  /-- A rule without a region matches nothing: the innermost region is left. -/
  | idle {r : RuleRef} {rule : MatchRule} {run : TokenRun}
      (hrule : w.grammar.rule? r = some (.matching rule))
      (hrun : w.Captured s.atStart (s.stack.push (w.openedFrame s r rule.name m)) r.grammar
        rule.captures m (s.produce m.start).run run)
      (hstay : ¬Advances s m) :
      Applied w s m (.rule r) (.done { s with stack := s.stack.safePop, run := run })
  /-- A rule opens a region. -/
  | opened {r : RuleRef} {region : Rule.Region} {p : Option Pattern} {run : TokenRun}
      (hregion : w.grammar.region? r = some region) (hclose : w.resolveEnd m region.close = .ok p)
      (hrun : w.Captured s.atStart (s.stack.push (w.openedFrame s r region.name m)) r.grammar
        region.captures m (s.produce m.start).run run)
      (hgo : ¬Advances s m → s.stack.entered r s.position = false) :
      Applied w s m (.rule r) (.more { s with
        stack := s.stack.push (w.regionFrame s r region m p), anchor := some m.stop, run := run })
  /-- A rule would open its region a second time without anything consumed in between. -/
  | reentered {r : RuleRef} {region : Rule.Region} {run : TokenRun}
      (hregion : w.grammar.region? r = some region)
      (hrun : w.Captured s.atStart (s.stack.push (w.openedFrame s r region.name m)) r.grammar
        region.captures m (s.produce m.start).run run)
      (hstay : ¬Advances s m) (hentered : s.stack.entered r s.position = true) :
      Applied w s m (.rule r) (.done { s with anchor := some m.stop, run := run })

theorem applyEnd_cases {f : Frame} {below : RuleStack} {q : Progress}
    (hstack : s.stack = f :: below) (h : w.applyEnd s m = .ok q) : Applied w s m .ending q := by
  simp only [applyEnd, hstack] at h
  obtain ⟨rule, hrule, h⟩ := Except.bind_eq_ok.1 h
  rw [Grammar.rule_eq_ok] at hrule
  cases rule with
  | beginEnd rule =>
    obtain ⟨t, ht, h⟩ := Except.bind_eq_ok.1 h
    obtain ⟨run, hrun, rfl⟩ := resolveCaptures_eq_ok.1 ht
    simp only at h
    split at h
    · rename_i hc
      simp only [Bool.and_eq_true, Bool.not_eq_true', decide_eq_false_iff_not, beq_iff_eq] at hc
      cases h
      exact .kept hstack hrule hrun hc.1 hc.2
    · rename_i hc
      simp only [Bool.and_eq_true, Bool.not_eq_true', decide_eq_false_iff_not, beq_iff_eq,
        not_and] at hc
      cases h
      exact .ended hstack hrule hrun hc
  | matching _ => cases h
  | beginWhile _ => cases h
  | group _ => cases h
  | inclusion _ => cases h

theorem applyMatch_cases {r : RuleRef} {rule : MatchRule} {q : Progress}
    (hrule : w.grammar.rule? r = some (.matching rule)) (h : w.applyMatch s r rule m = .ok q) :
    Applied w s m (.rule r) q := by
  simp only [applyMatch] at h
  obtain ⟨t, ht, h⟩ := Except.bind_eq_ok.1 h
  obtain ⟨run, hrun, rfl⟩ := resolveCaptures_eq_ok.1 ht
  split at h
  · rename_i hgo
    cases h
    exact .matched hrule hrun hgo
  · rename_i hstay
    cases h
    exact .idle hrule hrun hstay

theorem applyBegin_cases {r : RuleRef} {region : Rule.Region} {q : Progress}
    (hregion : w.grammar.region? r = some region)
    (h : w.applyBegin s r region.name region.contentName region.captures region.close m = .ok q) :
    Applied w s m (.rule r) q := by
  simp only [applyBegin] at h
  obtain ⟨t, ht, h⟩ := Except.bind_eq_ok.1 h
  obtain ⟨run, hrun, rfl⟩ := resolveCaptures_eq_ok.1 ht
  obtain ⟨p, hp, h⟩ := Except.bind_eq_ok.1 h
  split at h
  · rename_i hc
    simp only [Bool.and_eq_true, Bool.not_eq_true', decide_eq_false_iff_not] at hc
    cases h
    exact .reentered hregion hrun hc.1 hc.2
  · rename_i hc
    simp only [Bool.and_eq_true, Bool.not_eq_true', decide_eq_false_iff_not, not_and,
      Bool.not_eq_true] at hc
    cases h
    exact .opened hregion hp hrun hc

theorem applyRule_cases {r : RuleRef} {q : Progress} (h : w.applyRule s r m = .ok q) :
    Applied w s m (.rule r) q := by
  simp only [applyRule] at h
  obtain ⟨rule, hrule, h⟩ := Except.bind_eq_ok.1 h
  rw [Grammar.rule_eq_ok] at hrule
  cases rule with
  | matching rule => exact applyMatch_cases hrule h
  | beginEnd rule => exact applyBegin_cases (Grammar.region?_beginEnd hrule) h
  | beginWhile rule => exact applyBegin_cases (Grammar.region?_beginWhile hrule) h
  | group _ => cases h
  | inclusion _ => cases h

theorem step_cases {q : Progress} (h : w.step s = .ok q) :
    ((w.place s).nextMatch w.grammar s.stack = .ok none ∧ q = .done (s.produce w.stop)) ∨
    ∃ c m p, (w.place s).nextMatch w.grammar s.stack = .ok (some (c, m)) ∧
      Applied w s m c p ∧ q = w.afterMatch s m p := by
  simp only [step] at h
  obtain ⟨found, hfound, h⟩ := Except.bind_eq_ok.1 h
  match found, hfound with
  | none, hfound =>
    cases h
    exact .inl ⟨hfound, rfl⟩
  | some (c, m), hfound =>
    obtain ⟨p, hp, h⟩ := Except.bind_eq_ok.1 h
    refine .inr ⟨c, m, p, hfound, ?_, (Except.ok.inj h).symm⟩
    cases c with
    | ending =>
      cases hstack : s.stack with
      | nil => simp [hstack, Place.nextMatch] at hfound
      | cons f below => exact applyEnd_cases hstack hp
    | rule r => exact applyRule_cases hp

/-- What is left to do after a match leaves the stack as it is. -/
theorem afterMatch_stack (w : Scan) (s : ScanState) (m : Match) (p : Progress) :
    (w.afterMatch s m p).state.stack = p.state.stack := by
  cases p with
  | done t => rfl
  | more t =>
    simp only [afterMatch]
    split
    · rfl
    · rfl

/-- A match alone does not move the scan. -/
theorem Applied.stays {c : Candidate} {p : Progress} (h : w.Applied s m c p) :
    p.state.position = s.position ∧ p.state.atStart = s.atStart := by
  cases h with
  | ended | kept | matched | idle | opened | reentered => exact ⟨rfl, rfl⟩

/-- A step after which the scan goes on: a match is applied, and the scan moves behind it. -/
theorem step_more (h : w.step s = .ok (.more s')) : ∃ c m t,
    (w.place s).nextMatch w.grammar s.stack = .ok (some (c, m)) ∧ w.Applied s m c (.more t) ∧
      s' = (if s.position < m.stop then { t with position := m.stop, atStart := false } else t) ∧
      s'.stack = t.stack := by
  rcases step_cases h with ⟨_, hdone⟩ | ⟨c, m, p, hmatch, happ, heq⟩
  · cases hdone
  · have hstack := afterMatch_stack w s m p
    rw [← heq] at hstack
    cases p with
    | done t => cases heq
    | more t =>
      rw [afterMatch, Progress.more.injEq] at heq
      exact ⟨c, m, t, hmatch, happ, heq, hstack⟩

/-- A last step: there is no match, or one is applied after which the scan stops. -/
theorem step_done (h : w.step s = .ok (.done s')) : s'.stack = s.stack ∨ ∃ c m t,
    (w.place s).nextMatch w.grammar s.stack = .ok (some (c, m)) ∧ w.Applied s m c (.done t) ∧
      s'.stack = t.stack := by
  rcases step_cases h with ⟨_, hdone⟩ | ⟨c, m, p, hmatch, happ, heq⟩
  · cases hdone
    exact .inl rfl
  · have hstack := afterMatch_stack w s m p
    rw [← heq] at hstack
    cases p with
    | done t => exact .inr ⟨c, m, t, hmatch, happ, hstack⟩
    | more t => cases heq

/-- What every step keeps holds when the loop is over. -/
theorem steps_induct {P Q : ScanState → Prop}
    (hmore : ∀ s s', P s → w.step s = .ok (.more s') → P s')
    (hdone : ∀ s s', P s → w.step s = .ok (.done s') → Q s') :
    ∀ {n : Nat} {s s' : ScanState}, P s → w.steps n s = .ok s' → Q s' := by
  intro n
  induction n with
  | zero => intro s s' _ h; cases h
  | succ n ih =>
    intro s s' hs h
    simp only [steps] at h
    obtain ⟨q, hq, h⟩ := Except.bind_eq_ok.1 h
    cases q with
    | done t =>
      cases h
      exact hdone s _ hs hq
    | more t => exact ih (hmore s t hs hq) h

/-- What every step keeps, the last one included, the loop keeps. -/
theorem steps_keep {P : ScanState → Prop} (hstep : ∀ s q, P s → w.step s = .ok q → P q.state)
    {n : Nat} (hs : P s) (h : w.steps n s = .ok s') : P s' :=
  steps_induct (fun t t' => hstep t (.more t')) (fun t t' => hstep t (.done t')) hs h

/-! ## Continued regions -/

theorem mem_continued {g : Grammar} : ∀ {stack : RuleStack} {cs : List Continued},
    continued g stack = .ok cs → ∀ c ∈ cs, c.frame :: c.below <:+ stack ∧
      g.rule? c.frame.rule = some (.beginWhile c.rule)
  | [], cs, h => by
    cases h
    simp
  | f :: below, cs, h => by
    simp only [continued] at h
    obtain ⟨outer, houter, h⟩ := Except.bind_eq_ok.1 h
    obtain ⟨rule, hrule, h⟩ := Except.bind_eq_ok.1 h
    rw [Grammar.rule_eq_ok] at hrule
    have hbelow : ∀ c ∈ outer, c.frame :: c.below <:+ f :: below ∧
        g.rule? c.frame.rule = some (.beginWhile c.rule) := by
      intro c hc
      obtain ⟨hsuffix, hrule⟩ := mem_continued houter c hc
      exact ⟨hsuffix.trans (List.suffix_cons f below), hrule⟩
    cases rule with
    | beginWhile rule =>
      cases h
      intro c hc
      rcases List.mem_append.1 hc with hc | hc
      · exact hbelow c hc
      · rw [List.mem_singleton] at hc
        subst hc
        exact ⟨List.suffix_rfl, hrule⟩
    | matching _ => cases h; exact hbelow
    | beginEnd _ => cases h; exact hbelow
    | group _ => cases h; exact hbelow
    | inclusion _ => cases h; exact hbelow

/-- At the start of a line an open region is left, or its pattern matches and the next one is
tried. -/
theorem continueRegions_cases {c : Continued} {cs : List Continued}
    (h : w.continueRegions s (c :: cs) = .ok s') :
    s' = { s with stack := c.below } ∨ ∃ m run t,
      w.Captured s.atStart (c.frame :: c.below) c.frame.rule.grammar c.rule.whileCaptures m
        (s.run.produce m.start c.frame.contentScopes) run ∧
      t.stack = s.stack ∧ t.run = run ∧ w.continueRegions t cs = .ok s' := by
  simp only [continueRegions] at h
  obtain ⟨p, _, h⟩ := Except.bind_eq_ok.1 h
  split at h
  · cases h
    exact .inl rfl
  · rename_i m _
    obtain ⟨t, ht, h⟩ := Except.bind_eq_ok.1 h
    obtain ⟨run, hrun, rfl⟩ := resolveCaptures_eq_ok.1 ht
    refine .inr ⟨m, run, ?_⟩
    split at h
    · exact ⟨_, hrun, by rfl, by rfl, h⟩
    · exact ⟨_, hrun, by rfl, by rfl, h⟩

theorem continueRegions_stack : ∀ {cs : List Continued} {s s' : ScanState},
    w.continueRegions s cs = .ok s' → s'.stack = s.stack ∨ ∃ c ∈ cs, s'.stack = c.below
  | [], s, s', h => by
    cases h
    exact .inl rfl
  | c :: cs, s, s', h => by
    rcases continueRegions_cases h with rfl | ⟨m, run, t, _, hstack, _, h⟩
    · exact .inr ⟨c, List.mem_cons_self, rfl⟩
    · rcases continueRegions_stack h with heq | ⟨d, hd, heq⟩
      · exact .inl (heq.trans hstack)
      · exact .inr ⟨d, List.mem_cons_of_mem c hd, heq⟩

/-- At the start of a line the stack stays as it is, or a region is left with all inside it. -/
theorem enterLine_stack (h : w.enterLine s = .ok s') : s'.stack = s.stack ∨
    ∃ f below region, f :: below <:+ s.stack ∧ w.grammar.region? f.rule = some region ∧
      s'.stack = below := by
  simp only [enterLine] at h
  obtain ⟨cs, hcs, h⟩ := Except.bind_eq_ok.1 h
  rcases continueRegions_stack h with heq | ⟨c, hc, heq⟩
  · exact .inl heq
  · obtain ⟨hsuffix, hrule⟩ := mem_continued hcs c hc
    exact .inr ⟨c.frame, c.below, _, hsuffix, Grammar.region?_beginWhile hrule, heq⟩

end Scan

/-- A line that can be scanned comes from the end of a scan. -/
theorem Grammar.tryTokenizeLine_eq_ok {g : Grammar} {levels : Nat} {line : String}
    {stack : RuleStack} {t : LineTokens} : g.tryTokenizeLine levels line stack = .ok t ↔
      ∃ start s, g.startStack stack = .ok start ∧
        g.scanLine levels (.ofList (line.toList ++ ['\n'])) start stack.isEmpty = .ok s ∧
        t = ⟨(s.run.finish line.toList.length).map (·.inBytes (.ofList (line.toList ++ ['\n']))),
          s.stack.clearPositions⟩ := by
  simp only [tryTokenizeLine, Except.bind_eq_ok]
  constructor
  · rintro ⟨start, hstart, s, hs, h⟩
    exact ⟨start, s, hstart, hs, (Except.ok.inj h).symm⟩
  · rintro ⟨start, s, hstart, hs, rfl⟩
    exact ⟨start, hstart, s, hs, rfl⟩

end Highlight
