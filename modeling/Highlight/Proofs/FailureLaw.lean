import Highlight.Proofs.OpenRegions
import Highlight.Proofs.ScanFailures

/-!
# Scans with allowed errors only

Which errors a scan can have depends on the frames that it can get to by leaving regions (`Shown`).
A `FailureLaw` says what such frames have to be like for a scan to have allowed errors only. Captured
text is scanned on a frame of its own, so the law has two kinds of frames: those of the scan and
those of the scans within it. `step_shown` is the step and `steps_fails` the run,
`scanCaptured_fails` the induction over nested scans and `scanLine_fails` the result for a line.
-/

namespace Highlight

/-! ## Frames that a scan can get to -/

namespace Grammar

variable {g : Grammar} {ok inner : Frame → Prop} {s : RuleStack}

/-- What holds of all frames that a scan can get to by leaving regions, which only their ends do. -/
def Shown (g : Grammar) (ok : Frame → Prop) : RuleStack → Prop
  | [] => True
  | f :: below => ok f ∧ (g.ends f.rule = true → Shown g ok below)

theorem shown_of_forall : ∀ {s : RuleStack}, (∀ f ∈ s, ok f) → g.Shown ok s
  | [], _ => trivial
  | f :: _, h => ⟨h f List.mem_cons_self, fun _ =>
      shown_of_forall fun f' hf' => h f' (List.mem_cons_of_mem f hf')⟩

theorem Shown.imp (h : ∀ f, ok f → inner f) : ∀ {s : RuleStack}, g.Shown ok s → g.Shown inner s
  | [], _ => trivial
  | f :: _, ⟨hf, hbelow⟩ => ⟨h f hf, fun hends => Shown.imp h (hbelow hends)⟩

/-- What makes sure that a scan has allowed errors only: what holds of the frames that it can get
to, and of those that the scans of captured text can get to. -/
structure FailureLaw (g : Grammar) (allowed : ScanError → Prop) (ok inner : Frame → Prop) :
    Prop where
  patterns : ∀ {f : Frame} {e : ScanError}, ok f → g.regionPatterns f = .error e → allowed e
  unknown : ∀ {r : RuleRef} {rule : Rule} {id : RuleId}, g.rule? r = some rule →
    id ∈ rule.captured → g.rule? ⟨r.grammar, id⟩ = none → allowed (.unknownRule ⟨r.grammar, id⟩)
  close : ∀ {r : RuleRef} {region : Rule.Region} {source : String} {text : Subject}
    {groups : List (Option Span)} {pe : PatternError}, g.region? r = some region →
    region.close = .dynamic source →
    Pattern.compile (resolveReferences source text groups) = .error pe → allowed (.badEnd pe)
  opened : ∀ {f f' : Frame} {region : Rule.Region}, ok f → g.Applicable f f'.rule →
    g.region? f'.rule = some region → region.close.Resolved f'.endPattern → ok f'
  /-- The frame that captured text is scanned on. -/
  captured : ∀ {f f' : Frame} {r : RuleRef}, ok f → r = f.rule ∨ g.Applicable f r →
    f'.rule ∈ g.capturedRegions r → inner f'
  /-- The frames below that frame, where its region has an end to be left by. -/
  below : ∀ {f : Frame} {r c : RuleRef}, c ∈ g.capturedRegions r → g.ends c = true →
    ok f ∨ (∃ rule, g.rule? f.rule = some rule) → inner f

/-- Scans of captured text on frames that satisfy `inner` have allowed errors only. -/
def NestedFails (g : Grammar) (allowed : ScanError → Prop) (inner : Frame → Prop)
    (nested : NestedScan) : Prop :=
  ∀ (f : Frame) (below : RuleStack) (start stop : Nat) (atStart : Bool) (run : TokenRun)
    (e : ScanError), g.Shown inner (f :: below) →
    nested (f :: below) start stop atStart run = .error e → allowed e

end Grammar

namespace Scan

open Grammar (Shown FailureLaw NestedFails)

variable {w : Scan} {s : ScanState} {allowed : ScanError → Prop} {ok inner : Frame → Prop}
  {e : ScanError}

theorem CapturesFail.error_allowed (law : FailureLaw w.grammar allowed ok inner)
    (hnested : NestedFails w.grammar allowed inner w.nested) {f : Frame} {r : RuleRef}
    {stack : RuleStack} (h : w.CapturesFail r stack e) (hf : ok f)
    (hr : r = f.rule ∨ w.grammar.Applicable f r)
    (hstack : ∀ c ∈ w.grammar.capturedRegions r, w.grammar.ends c = true →
      w.grammar.Shown inner stack) : allowed e := by
  obtain ⟨rule, hrule, id, hid, hfails⟩ := h
  cases hfails with
  | unknown hnone he =>
    rw [he]
    exact law.unknown hrule hid hnone
  | @nested _ f' _ _ _ _ hinner hinside hf' h =>
    have hregion : f'.rule ∈ w.grammar.capturedRegions r := by
      rw [hf']
      exact Grammar.mem_capturedRegions hrule hid hinner hinside
    refine hnested _ _ _ _ _ _ _ ⟨?_, fun hends => ?_⟩ h
    · exact law.captured hf hr hregion
    · exact hstack _ hregion hends

theorem Fails.error_allowed (law : FailureLaw w.grammar allowed ok inner)
    (hnested : NestedFails w.grammar allowed inner w.nested) (hs : w.grammar.Shown ok s.stack)
    (h : w.Fails s e) : allowed e := by
  -- where captured text can be left by an end, what a scan can get to is fit for nested scans, too
  have hfit : ∀ {r c stack}, c ∈ w.grammar.capturedRegions r → w.grammar.ends c = true →
      w.grammar.Shown ok stack → w.grammar.Shown inner stack := fun hc hends hshown =>
    hshown.imp fun _ hf => law.below hc hends (.inl hf)
  cases h with
  | patterns hstack h =>
    rw [hstack] at hs
    exact law.patterns hs.1 h
  | ending hstack hends h =>
    rw [hstack] at hs
    refine h.error_allowed law hnested hs.1 (.inl rfl) fun c hc hcends => ⟨?_, fun _ => ?_⟩
    · obtain ⟨rule, hrule⟩ := Grammar.ends_eq_true.1 hends
      exact law.below hc hcends (.inr ⟨_, hrule⟩)
    · exact hfit hc hcends (hs.2 hends)
  | starting hstack happ hf' h =>
    have htop := hs
    rw [hstack] at htop
    refine h.error_allowed law hnested htop.1 (.inr happ) fun c hc hcends => ⟨?_, fun _ => ?_⟩
    · obtain ⟨rule, _, hrule, _⟩ := happ.rule?
      exact law.below hc hcends (.inr ⟨rule, hf' ▸ hrule⟩)
    · exact hfit hc hcends hs
  | close hregion hclose h he =>
    rw [he]
    exact law.close hregion hclose h

/-- A match after which the scan goes on leads to frames that are still as they should be. -/
theorem step_shown (law : FailureLaw w.grammar allowed ok inner) {t : ScanState}
    (hs : w.grammar.Shown ok s.stack) (h : w.step s = .ok (.more t)) :
    w.grammar.Shown ok t.stack := by
  rcases step_cases h with ⟨_, hdone⟩ | ⟨c, m, p, hnext, happ, hmore⟩
  · cases hdone
  · cases p with
    | done _ => cases hmore
    | more t' =>
      have ht : t.stack = t'.stack := by
        have heq := afterMatch_stack w s m (.more t')
        rwa [← hmore] at heq
      rw [ht]
      cases happ with
      | ended hstack hrule =>
        rw [hstack] at hs
        exact hs.2 (Grammar.ends_eq_true.2 ⟨_, hrule⟩)
      | matched => exact hs
      | @opened r region p _ hregion hclose =>
        cases hbelow : s.stack with
        | nil =>
          rw [hbelow] at hnext
          cases hnext
        | cons f below =>
          rw [hbelow] at hnext hs
          rcases Place.nextMatch_candidate hnext with ⟨heq, _⟩ | ⟨r', heq, happ⟩
          · cases heq
          · cases heq
            exact ⟨law.opened hs.1 happ hregion (resolveEnd_resolved hclose), fun _ => hs⟩

theorem steps_fails (law : FailureLaw w.grammar allowed ok inner)
    (hnested : NestedFails w.grammar allowed inner w.nested) (hs : w.grammar.Shown ok s.stack)
    (h : w.steps (w.bound s) s = .error e) : allowed e := by
  obtain ⟨t, ht, hstep⟩ := exists_step_eq_error (P := (w.grammar.Shown ok ·.stack))
    (fun _ _ hs hstep => step_shown law hs hstep) hs h
  exact (step_fails hstep).error_allowed law hnested ht

theorem enterLine_fails (law : FailureLaw w.grammar allowed ok inner)
    (hnested : NestedFails w.grammar allowed inner w.nested) (hs : ∀ f ∈ s.stack, ok f)
    (hunknown : ∀ f ∈ s.stack, w.grammar.rule? f.rule = none → allowed (.unknownRule f.rule))
    (hwhile : ∀ f ∈ s.stack, ∀ rule, w.grammar.rule? f.rule = some (.beginWhile rule) →
      ∀ e, f.resolvedEnd rule.whilePattern = .error e → allowed e)
    (h : w.enterLine s = .error e) : allowed e := by
  simp only [enterLine] at h
  rcases Except.bind_eq_error.1 h with h | ⟨cs, hcs, h⟩
  · obtain ⟨f, hf, hnone, he⟩ := continued_fails h
    rw [he]
    exact hunknown f hf hnone
  · obtain ⟨c, hc, hfails⟩ := continueRegions_fails (fun c hc => (mem_continued hcs c hc).2) h
    obtain ⟨hsuffix, hrule⟩ := mem_continued hcs c hc
    have hmem : ∀ f ∈ c.frame :: c.below, f ∈ s.stack := fun f hf => hsuffix.subset hf
    have hframe := hmem c.frame List.mem_cons_self
    rcases hfails with hfails | hfails
    · exact hwhile _ hframe _ hrule e hfails
    · refine hfails.error_allowed law hnested (hs _ hframe) (.inl rfl) fun d hd hends => ?_
      exact Grammar.shown_of_forall fun f hf => law.below hd hends (.inl (hs f (hmem f hf)))

end Scan

namespace Grammar

variable {g : Grammar} {allowed : ScanError → Prop} {ok : Nat → Frame → Prop} {e : ScanError}

theorem scanCaptured_fails (law : ∀ n, g.FailureLaw allowed (ok (n + 1)) (ok n))
    (hzero : ∀ f, ok 0 f → allowed .capturesTooDeep) (text : Subject) : ∀ levels : Nat,
    g.NestedFails allowed (ok levels) (g.scanCaptured text levels)
  | 0 => by
    intro f below start stop atStart run e hshown h
    cases h
    exact hzero f hshown.1
  | levels + 1 => by
    intro f below start stop atStart run e hshown h
    -- the scan has the frames of its level, the scans within it those of the level below
    simp only [scanCaptured] at h
    rcases Except.bind_eq_error.1 h with h | ⟨_, _, h⟩
    · exact Scan.steps_fails (law levels) (scanCaptured_fails law hzero text levels) hshown h
    · cases h

/-- A line fails for allowed reasons only, where the frames that it starts with are as they should
be, have rules and, if they last while their pattern matches, know that pattern. -/
theorem scanLine_fails (ok : Nat → Frame → Prop)
    (law : ∀ n, g.FailureLaw allowed (ok (n + 1)) (ok n))
    (hzero : ∀ f, ok 0 f → allowed .capturesTooDeep) {levels : Nat} {text : Subject}
    {stack : RuleStack} {atStart : Bool} (hs : ∀ f ∈ stack, ok (levels + 1) f)
    (hunknown : ∀ f ∈ stack, g.rule? f.rule = none → allowed (.unknownRule f.rule))
    (hwhile : ∀ f ∈ stack, ∀ rule, g.rule? f.rule = some (.beginWhile rule) →
      ∀ e, f.resolvedEnd rule.whilePattern = .error e → allowed e)
    (h : g.scanLine levels text stack atStart = .error e) : allowed e := by
  have hnested := scanCaptured_fails law hzero text levels
  simp only [scanLine] at h
  rcases Except.bind_eq_error.1 h with h | ⟨t, ht, h⟩
  · exact Scan.enterLine_fails (law levels) hnested hs hunknown hwhile h
  · refine Scan.steps_fails (law levels) hnested (shown_of_forall ?_) h
    rcases Scan.enterLine_stack ht with heq | ⟨f, below, _, hsuffix, _, heq⟩
    · rw [heq]
      exact hs
    · rw [heq]
      intro f' hf'
      exact hs f' (hsuffix.subset (List.mem_cons_of_mem f hf'))

end Grammar

end Highlight
