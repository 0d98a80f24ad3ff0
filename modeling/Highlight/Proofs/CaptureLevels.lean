import Highlight.Tokenize.Line

/-!
# Levels of captured text

Captured text is scanned within captured text to a number of levels. The number is no part of what a
line means: a result that does not say that captured texts nest too deep is the result with any
greater number of levels, too (`tryTokenizeLine_stays`). Each part of a scan passes this on from the
scans within it, so one induction over levels is enough.
-/

namespace Highlight

/-- A result stays the same, unless it is that captured texts nest too deep. -/
def Stays {α : Type} (x y : Except ScanError α) : Prop := x = .error .capturesTooDeep ∨ y = x

namespace Stays

variable {α β : Type}

theorem refl (x : Except ScanError α) : Stays x x := .inr rfl

theorem trans {x y z : Except ScanError α} (hxy : Stays x y) (hyz : Stays y z) : Stays x z := by
  rcases hxy with hx | rfl
  · exact .inl hx
  · exact hyz

theorem bind {x y : Except ScanError α} {f f' : α → Except ScanError β} (hx : Stays x y)
    (hf : ∀ a, Stays (f a) (f' a)) : Stays (x >>= f) (y >>= f') := by
  rcases hx with rfl | rfl
  · exact .inl rfl
  · cases y with
    | error e => exact .inr rfl
    | ok a => exact hf a

end Stays

namespace Scan

section

variable {w : Scan} {nested : NestedScan}
  (h : ∀ stack start stop atStart run,
    Stays (w.nested stack start stop atStart run) (nested stack start stop atStart run))

include h

theorem resolvePairs_stays (stack : RuleStack) (owner : ScopeName) (atStart : Bool) (m : Match) :
    ∀ (pairs : List (Option RuleId × Option Span)) (opened : Open) (run : TokenRun),
      Stays (w.resolvePairs stack owner atStart m opened run pairs)
        ({ w with nested := nested }.resolvePairs stack owner atStart m opened run pairs) := by
  intro pairs
  induction pairs with
  | nil => exact fun _ _ => .refl _
  | cons pair pairs ih =>
    intro opened run
    obtain ⟨id?, span?⟩ := pair
    cases id? with
    | none => exact ih opened run
    | some id =>
      cases span? with
      | none => exact ih opened run
      | some span =>
        simp only [resolvePairs]
        split
        · exact ih opened run
        · refine (Stays.refl _).bind fun rule => ?_
          split
          · exact ih _ _
          · exact (h _ _ _ _ _).bind fun run => ih _ run

theorem resolveCaptures_stays (s : ScanState) (stack : RuleStack) (owner : ScopeName)
    (rules : CaptureRules) (m : Match) :
    Stays (w.resolveCaptures s stack owner rules m)
      ({ w with nested := nested }.resolveCaptures s stack owner rules m) :=
  (resolvePairs_stays h stack owner s.atStart m _ _ _).bind fun _ => .refl _

theorem applyEnd_stays (s : ScanState) (m : Match) :
    Stays (w.applyEnd s m) ({ w with nested := nested }.applyEnd s m) := by
  unfold applyEnd
  split
  · exact .refl _
  · refine (Stays.refl _).bind fun rule => ?_
    cases rule with
    | beginEnd rule => exact (resolveCaptures_stays h _ _ _ _ m).bind fun _ => .refl _
    | matching _ => exact .refl _
    | beginWhile _ => exact .refl _
    | group _ => exact .refl _
    | inclusion _ => exact .refl _

theorem applyMatch_stays (s : ScanState) (r : RuleRef) (rule : MatchRule) (m : Match) :
    Stays (w.applyMatch s r rule m) ({ w with nested := nested }.applyMatch s r rule m) :=
  (resolveCaptures_stays h _ _ _ _ m).bind fun _ => .refl _

theorem applyBegin_stays (s : ScanState) (r : RuleRef) (name contentName : Option String)
    (captures : CaptureRules) (e : EndPattern) (m : Match) :
    Stays (w.applyBegin s r name contentName captures e m)
      ({ w with nested := nested }.applyBegin s r name contentName captures e m) := by
  -- the region depends on the grammar and the text alone
  have hend : ({ w with nested := nested } : Scan).resolveEnd m e = w.resolveEnd m e := by
    cases e with
    | fixed _ => rfl
    | dynamic source =>
      unfold resolveEnd
      dsimp only
  refine (resolveCaptures_stays h _ _ _ _ m).bind fun t => ?_
  simp only [hend]
  exact .refl _

theorem applyRule_stays (s : ScanState) (r : RuleRef) (m : Match) :
    Stays (w.applyRule s r m) ({ w with nested := nested }.applyRule s r m) := by
  refine (Stays.refl _).bind fun rule => ?_
  cases rule with
  | matching rule => exact applyMatch_stays h s r rule m
  | beginEnd rule => exact applyBegin_stays h s r _ _ _ _ m
  | beginWhile rule => exact applyBegin_stays h s r _ _ _ _ m
  | group _ => exact .refl _
  | inclusion _ => exact .refl _

theorem step_stays (s : ScanState) : Stays (w.step s) ({ w with nested := nested }.step s) := by
  refine (Stays.refl _).bind fun found => ?_
  match found with
  | none => exact .refl _
  | some (c, m) =>
    refine Stays.bind ?_ fun _ => .refl _
    cases c with
    | ending => exact applyEnd_stays h s m
    | rule r => exact applyRule_stays h s r m

theorem steps_stays : ∀ (n : Nat) (s : ScanState),
    Stays (w.steps n s) ({ w with nested := nested }.steps n s)
  | 0, _ => .refl _
  | n + 1, s => by
    refine (step_stays h s).bind fun q => ?_
    cases q with
    | done s => exact .refl _
    | more s => exact steps_stays n s

theorem continueRegions_stays : ∀ (cs : List Continued) (s : ScanState),
    Stays (w.continueRegions s cs) ({ w with nested := nested }.continueRegions s cs)
  | [], _ => .refl _
  | c :: cs, s => by
    refine (Stays.refl _).bind fun p => ?_
    dsimp only
    split
    · exact .refl _
    · refine (resolveCaptures_stays h _ _ _ _ _).bind fun t => ?_
      split
      · exact continueRegions_stays cs _
      · exact continueRegions_stays cs _

theorem enterLine_stays (s : ScanState) :
    Stays (w.enterLine s) ({ w with nested := nested }.enterLine s) :=
  (Stays.refl _).bind fun cs => continueRegions_stays h cs _

end

end Scan

namespace Grammar

variable {g : Grammar}

theorem scanCaptured_stays (g : Grammar) (text : Subject) : ∀ (levels : Nat) (stack : RuleStack)
    (start stop : Nat) (atStart : Bool) (run : TokenRun),
    Stays (g.scanCaptured text levels stack start stop atStart run)
      (g.scanCaptured text (levels + 1) stack start stop atStart run)
  | 0, _, _, _, _, _ => .inl rfl
  | levels + 1, stack, start, stop, atStart, run => by
    let w : Scan := ⟨g, text, stop, g.scanCaptured text levels⟩
    have hsteps := Scan.steps_stays (w := w) (scanCaptured_stays g text levels)
    exact (hsteps _ _).bind fun _ => .refl _

theorem scanLine_stays (g : Grammar) (levels : Nat) (text : Subject) (stack : RuleStack)
    (atStart : Bool) :
    Stays (g.scanLine levels text stack atStart) (g.scanLine (levels + 1) text stack atStart) := by
  let w : Scan := ⟨g, text, text.size, g.scanCaptured text levels⟩
  have hnested := g.scanCaptured_stays text levels
  exact (Scan.enterLine_stays (w := w) hnested _).bind fun s =>
    Scan.steps_stays (w := w) hnested _ s

/-- More levels change nothing about a line that has enough of them. -/
theorem tryTokenizeLine_stays {levels levels' : Nat} (hle : levels ≤ levels') (line : String)
    (stack : RuleStack) :
    Stays (g.tryTokenizeLine levels line stack) (g.tryTokenizeLine levels' line stack) := by
  induction hle with
  | refl => exact .refl _
  | step _ ih =>
    refine ih.trans ?_
    exact (Stays.refl _).bind fun start => (g.scanLine_stays _ _ _ _).bind fun _ => .refl _

end Grammar

end Highlight
