import Highlight.Proofs.CaptureLevels
import Highlight.Proofs.FailureLaw

/-!
# How deep captured texts nest

Captured text is scanned within captured text as long as captures open regions. Where the rules of a
grammar have ranks, which do not rise where a region is scanned and fall where a capture opens one,
this ends (`Layered`): a line is scanned with as many levels as there are ranks, and more of them
change nothing (`layered_line`). The frames that the scan of a line can get to have ranks below a
bound that each scan of captured text lowers (`RankedBelow`).

Nothing else bounds the depth. The text need not get shorter, and the guard against regions that are
entered twice at one place does not look at captures: in `selfCapture` a capture includes the grammar
again, and its scan nests beyond any number of levels (`selfCapture_tooDeep`).
-/

namespace Highlight

namespace Grammar

theorem regionPatterns_of_not_ends {g : Grammar} {f : Frame} {rule : Rule}
    (hrule : g.rule? f.rule = some rule) (hends : g.ends f.rule = false) :
    g.regionPatterns f = .ok ((g.childPatterns f.rule).map (Prod.map .rule id)) := by
  simp only [regionPatterns, rule_eq_ok.2 hrule]
  cases rule with
  | beginEnd _ => simp [ends, hrule] at hends
  | matching _ => rfl
  | beginWhile _ => rfl
  | group _ => rfl
  | inclusion _ => rfl

variable {g : Grammar} {rank : RuleRef → Nat} {n : Nat} {f : Frame} {r : RuleRef}

/-- The rules have ranks that fall where captured text is scanned. -/
structure Layered (g : Grammar) (rank : RuleRef → Nat) : Prop where
  /-- The patterns inside a rule do not rank above it. -/
  inside : ∀ r ∈ g.rules, ∀ c ∈ g.childPatterns r, rank c.1 ≤ rank r
  /-- A region that a capture opens ranks below the rule with the capture, and no end leads from it
  to the regions around it. -/
  captured : ∀ r ∈ g.rules, ∀ c ∈ g.capturedRegions r, rank c < rank r ∧ g.ends c = false
  /-- Injected patterns, which apply there too, do not rank above it. -/
  injected : ∀ r ∈ g.rules, ∀ c ∈ g.capturedRegions r, ∀ i ∈ g.injections,
    ∀ a ∈ g.injectedPatterns i.target, rank a.1 ≤ rank c

/-- The rule of the frame ranks below `n`, and so do all injected patterns. -/
structure RankedBelow (g : Grammar) (rank : RuleRef → Nat) (n : Nat) (f : Frame) : Prop where
  pos : 0 < n
  rule : ∀ rule, g.rule? f.rule = some rule → rank f.rule < n
  injected : ∀ i ∈ g.injections, ∀ a ∈ g.injectedPatterns i.target, rank a.1 < n

theorem RankedBelow.applicable (h : g.Layered rank) (hf : g.RankedBelow rank n f)
    (happ : g.Applicable f r) : rank r < n := by
  cases happ with
  | inside hmem =>
    cases hrule : g.rule? f.rule with
    | none => simp [childPatterns, hrule] at hmem
    | some rule =>
      have hle : rank r ≤ rank f.rule := h.inside _ (mem_rules hrule) _ hmem
      exact Nat.lt_of_le_of_lt hle (hf.rule rule hrule)
  | injected hi hmem => exact hf.injected _ hi _ hmem

/-- A step to captured text lowers the bound. -/
theorem RankedBelow.captured (h : g.Layered rank) (hf : g.RankedBelow rank (n + 1) f)
    (hr : r = f.rule ∨ g.Applicable f r) {f' : Frame} (hc : f'.rule ∈ g.capturedRegions r) :
    g.RankedBelow rank n f' := by
  obtain ⟨⟨rule, hrule⟩, inner, hinner⟩ := rules_of_mem_capturedRegions hc
  have hrank : rank r < n + 1 := by
    rcases hr with rfl | happ
    · exact hf.rule rule hrule
    · exact hf.applicable h happ
  obtain ⟨hlt, _⟩ := h.captured r (mem_rules hrule) _ hc
  refine ⟨by omega, fun _ _ => by omega, fun i hi a ha => ?_⟩
  have hle := h.injected r (mem_rules hrule) _ hc i hi a ha
  omega

theorem failureLaw_rankedBelow (h : g.Layered rank) (n : Nat) :
    g.FailureLaw (· ≠ .capturesTooDeep) (g.RankedBelow rank (n + 1)) (g.RankedBelow rank n) where
  patterns _ herror := by
    rcases regionPatterns_eq_error herror with ⟨_, rfl⟩ | ⟨_, _, herror⟩
    · exact ScanError.noConfusion
    · obtain ⟨_, _, _, rfl⟩ := resolvedEnd_eq_error herror
      exact ScanError.noConfusion
  unknown _ _ _ := ScanError.noConfusion
  close _ _ _ := ScanError.noConfusion
  opened hf happ _ _ := ⟨hf.pos, fun _ _ => hf.applicable h happ, hf.injected⟩
  captured hf hr hc := hf.captured h hr hc
  below hc hends _ := by
    obtain ⟨⟨rule, hrule⟩, _⟩ := rules_of_mem_capturedRegions hc
    obtain ⟨_, hnot⟩ := h.captured _ (mem_rules hrule) _ hc
    cases hends.symm.trans hnot

theorem rankedBelow_of_forall (hn : ∀ r ∈ g.rules, rank r < n) (hpos : 0 < n) (f : Frame) :
    g.RankedBelow rank n f where
  pos := hpos
  rule _ hrule := hn _ (mem_rules hrule)
  injected _ _ a ha := by
    obtain ⟨_, hrule, _⟩ := rule?_of_mem_flatten ha
    exact hn a.1 (mem_rules hrule)

theorem tryTokenizeLine_ne_tooDeep (h : g.Layered rank) (hn : ∀ r ∈ g.rules, rank r ≤ n)
    (line : String) (stack : RuleStack) :
    g.tryTokenizeLine n line stack ≠ .error .capturesTooDeep := by
  intro herror
  simp only [tryTokenizeLine] at herror
  rcases Except.bind_eq_error.1 herror with herror | ⟨start, _, herror⟩
  · unfold startStack rootStack at herror
    split at herror
    · split at herror
      · cases herror
      · cases herror
    · cases herror
  · rcases Except.bind_eq_error.1 herror with herror | ⟨_, _, herror⟩
    · refine scanLine_fails (g.RankedBelow rank) (failureLaw_rankedBelow h) ?_ ?_ ?_ ?_ herror rfl
      · exact fun f hf => absurd hf.pos (Nat.lt_irrefl 0)
      · have hlt : ∀ r ∈ g.rules, rank r < n + 1 := fun r hr => Nat.lt_succ_of_le (hn r hr)
        exact fun f _ => rankedBelow_of_forall hlt (Nat.succ_pos n) f
      · exact fun _ _ _ => ScanError.noConfusion
      · intro f _ rule _ e he
        obtain ⟨_, _, _, rfl⟩ := resolvedEnd_eq_error he
        exact ScanError.noConfusion
    · cases herror

/-- Where captures lead down ranks, a line has one result, which as many levels as there are ranks
lead to, and all greater numbers of them. -/
theorem layered_line (h : g.Layered rank) (hn : ∀ r ∈ g.rules, rank r ≤ n) (line : String)
    (stack : RuleStack) : ∃ result, result ≠ .error .capturesTooDeep ∧
      ∀ levels, n ≤ levels → g.tryTokenizeLine levels line stack = result := by
  have hfit := tryTokenizeLine_ne_tooDeep h hn line stack
  refine ⟨_, hfit, fun levels hle => ?_⟩
  rcases tryTokenizeLine_stays hle line stack with htooDeep | heq
  · exact absurd htooDeep hfit
  · exact heq

/-! ## A capture that leads down -/

/-- Settings, the digits in whose values are marked. -/
def settingsSource : RawGrammar :=
  { (default : RawGrammar) with
    scopeName := "source.settings"
    patterns := [{ (default : RawRule) with
      name := some "setting"
      matchSource := some "([a-z]+)=([a-z0-9]+)"
      captures := some [(2, { (default : RawRule) with
        patterns := some [{ (default : RawRule) with
          name := some "digit"
          matchSource := some "[0-9]" }] })] }] }

theorem settingsSource_links : (ofSource settingsSource).toOption.isSome := by decide +kernel

/-- The grammar of settings. -/
def settings : Grammar := (ofSource settingsSource).toOption.get settingsSource_links

/-- Settings rank above what is in their values. -/
def settingsRank (r : RuleRef) : Nat := if r.rule < 2 then 1 else 0

theorem settings_layered : settings.Layered settingsRank where
  inside := by decide +kernel
  captured := by decide +kernel
  injected := by decide +kernel

/-- One level is enough for settings. -/
theorem layered_line_settings : settings.Layered settingsRank ∧
    (∀ r ∈ settings.rules, settingsRank r ≤ 1) ∧
    ∃ result, result ≠ .error .capturesTooDeep ∧
      ∀ levels, 1 ≤ levels → settings.tryTokenizeLine levels "a=b1" [] = result := by
  have hrank : ∀ r ∈ settings.rules, settingsRank r ≤ 1 := by decide +kernel
  exact ⟨settings_layered, hrank, layered_line settings_layered hrank "a=b1" []⟩

/-! ## A capture that leads round -/

/-- What a letter captures is scanned with the whole grammar again. -/
def selfCaptureSource : RawGrammar :=
  { (default : RawGrammar) with
    scopeName := "source.t"
    patterns := [{ (default : RawRule) with
      matchSource := some "(a)"
      captures := some [(1, { (default : RawRule) with
        patterns := some [{ (default : RawRule) with inclusion := some "$self" }] })] }] }

theorem selfCaptureSource_links : (ofSource selfCaptureSource).toOption.isSome := by decide +kernel

/-- The grammar of a capture that includes the grammar. -/
@[irreducible]
def selfCapture : Grammar := (ofSource selfCaptureSource).toOption.get selfCaptureSource_links

theorem selfCapture_linked : selfCapture.Linked := by
  unfold selfCapture
  exact linked_of_ofSource (Option.some_get selfCaptureSource_links).symm

/-- The line of the letter, with its end. -/
def letterText : Subject := .ofList ['a', '\n']

/-- The letter, which is a group of its own. -/
def letterMatch : Match := ⟨0, 1, [some ⟨0, 1⟩, some ⟨0, 1⟩]⟩

/-- The rule that matches the letter. -/
def letterRule : RuleRef := ⟨"source.t", 1⟩

/-- The region that its capture opens. -/
def letterRegion : RuleRef := ⟨"source.t", 2⟩

/-- The captures of a rule without a region. -/
def matchCaptures? : Rule → Option CaptureRules
  | .matching r => some r.captures
  | _ => none

/-- What the table of the grammar holds, and where the letter is found inside it. -/
theorem selfCapture_table :
    (selfCapture.rule? letterRule).bind matchCaptures? = some [none, some 2] ∧
    ((selfCapture.rule? letterRegion).filter fun rule => !rule.children.isEmpty).isSome ∧
    selfCapture.root? selfCapture.scopeName = some ⟨"source.t", 0⟩ ∧
    selfCapture.injections.isEmpty ∧
    ∀ r ∈ [⟨"source.t", 0⟩, letterRegion],
      (selfCapture.rule? r).isSome ∧ selfCapture.ends r = false ∧
      ∀ stop ∈ [1, 2], ∀ documentStart,
        (⟨letterText, stop, 0, .ofPosition documentStart none 0⟩ : Place).first
          ((selfCapture.childPatterns r).map (Prod.map Candidate.rule id)) =
            some (.rule letterRule, letterMatch) := by decide +kernel

theorem selfCapture_letterRule : ∃ rule, selfCapture.rule? letterRule = some (.matching rule) ∧
    rule.captures = [none, some 2] := by
  obtain ⟨rule, hrule, hcaptures⟩ := Option.bind_eq_some_iff.1 selfCapture_table.1
  cases rule with
  | matching rule => exact ⟨rule, hrule, Option.some.inj hcaptures⟩
  | beginEnd _ => cases hcaptures
  | beginWhile _ => cases hcaptures
  | group _ => cases hcaptures
  | inclusion _ => cases hcaptures

theorem selfCapture_letterRegion : ∃ rule, selfCapture.rule? letterRegion = some rule ∧
    rule.children.isEmpty = false := by
  obtain ⟨rule, hrule⟩ := Option.isSome_iff_exists.1 selfCapture_table.2.1
  obtain ⟨hrule, hchildren⟩ := Option.filter_eq_some_iff.1 hrule
  exact ⟨rule, hrule, by simpa using hchildren⟩

/-- Inside the grammar and inside the captured region, the letter is found wherever the text ends. -/
theorem selfCapture_nextMatch {f : Frame} {below : RuleStack} {stop : Nat} {documentStart : Bool}
    (hf : f.rule ∈ [⟨"source.t", 0⟩, letterRegion]) (hstop : stop ∈ [1, 2]) :
    (⟨letterText, stop, 0, .ofPosition documentStart none 0⟩ : Place).nextMatch selfCapture
      (f :: below) = .ok (some (.rule letterRule, letterMatch)) := by
  obtain ⟨-, -, -, hinjections, hknown⟩ := selfCapture_table
  obtain ⟨hsome, hends, hfirst⟩ := hknown _ hf
  obtain ⟨rule, hrule⟩ := Option.isSome_iff_exists.1 hsome
  have hactive : selfCapture.activeInjections (RuleStack.scopes (f :: below)) = [] := by
    simp [activeInjections, List.isEmpty_iff.1 hinjections]
  simp only [Place.nextMatch, regionPatterns_of_not_ends hrule hends, hactive]
  refine congrArg Except.ok ?_
  rw [hfirst _ hstop]
  rfl

theorem selfCapture_resolvePairs {stop : Nat} {nested : NestedScan}
    (hnested : ∀ f below atStart run, f.rule = letterRegion →
      nested (f :: below) 0 1 atStart run = .error .capturesTooDeep)
    (stack : RuleStack) (atStart : Bool) (run : TokenRun) :
    Scan.resolvePairs ⟨selfCapture, letterText, stop, nested⟩ stack "source.t" atStart letterMatch []
      run [(none, some ⟨0, 1⟩), (some 2, some ⟨0, 1⟩)] = .error .capturesTooDeep := by
  obtain ⟨region, hregion, hchildren⟩ := selfCapture_letterRegion
  have hrule : selfCapture.rule ⟨"source.t", 2⟩ = .ok region := rule_eq_ok.2 hregion
  rw [Scan.resolvePairs, Scan.resolvePairs]
  · -- the whole match has no rule; its group is not empty and its rule has patterns inside
    rw [if_neg (by decide)]
    refine Except.bind_eq_error.2 (.inr ⟨region, hrule, ?_⟩)
    rw [if_neg (by simp [hchildren])]
    exact Except.bind_eq_error.2 (.inl (hnested _ _ _ _ rfl))
  · intro id s heq
    cases heq

theorem selfCapture_applyRule {stop : Nat} {nested : NestedScan}
    (hnested : ∀ f below atStart run, f.rule = letterRegion →
      nested (f :: below) 0 1 atStart run = .error .capturesTooDeep) (s : ScanState) :
    Scan.applyRule ⟨selfCapture, letterText, stop, nested⟩ s letterRule letterMatch =
      .error .capturesTooDeep := by
  obtain ⟨rule, hrule, hcaptures⟩ := selfCapture_letterRule
  refine Except.bind_eq_error.2 (.inr ⟨_, rule_eq_ok.2 hrule, ?_⟩)
  refine Except.bind_eq_error.2 (.inl (Except.bind_eq_error.2 (.inl ?_)))
  rw [hcaptures]
  exact selfCapture_resolvePairs hnested _ _ _

theorem selfCapture_step {f : Frame} (below : RuleStack) {stop : Nat} (atStart : Bool)
    (run : TokenRun) {nested : NestedScan}
    (hf : f.rule ∈ [⟨"source.t", 0⟩, letterRegion]) (hstop : stop ∈ [1, 2])
    (hnested : ∀ f below atStart run, f.rule = letterRegion →
      nested (f :: below) 0 1 atStart run = .error .capturesTooDeep) :
    Scan.step ⟨selfCapture, letterText, stop, nested⟩ ⟨f :: below, 0, none, atStart, run⟩ =
      .error .capturesTooDeep := by
  refine Except.bind_eq_error.2 (.inr ⟨_, selfCapture_nextMatch hf hstop, ?_⟩)
  exact Except.bind_eq_error.2 (.inl (selfCapture_applyRule hnested _))

/-- However many levels there are, the captured letter needs one more. -/
theorem selfCapture_scanCaptured : ∀ (levels : Nat) (f : Frame) (below : RuleStack) (atStart : Bool)
    (run : TokenRun), f.rule = letterRegion →
    selfCapture.scanCaptured letterText levels (f :: below) 0 1 atStart run =
      .error .capturesTooDeep
  | 0, _, _, _, _, _ => rfl
  | levels + 1, f, below, atStart, run, hf => by
    have hmem : f.rule ∈ [⟨"source.t", 0⟩, letterRegion] := by simp [hf]
    have hstep := selfCapture_step below atStart run hmem (by simp : 1 ∈ [1, 2])
      (selfCapture_scanCaptured levels)
    exact Except.bind_eq_error.2 (.inl (Except.bind_eq_error.2 (.inl hstep)))

theorem selfCapture_root : selfCapture.root? selfCapture.scopeName = some ⟨"source.t", 0⟩ :=
  selfCapture_table.2.2.1

theorem selfCapture_startStack : ∃ f : Frame, f.rule = ⟨"source.t", 0⟩ ∧
    f.beginReachedEnd = false ∧ selfCapture.startStack .initial = .ok [f] := by
  have hempty : List.isEmpty RuleStack.initial = true := rfl
  rw [startStack, if_pos hempty, rootStack, selfCapture_root]
  exact ⟨_, rfl, rfl, rfl⟩

theorem selfCapture_enterLine {w : Scan} (hw : w.grammar = selfCapture) {f : Frame}
    (hf : f.rule = ⟨"source.t", 0⟩) (hreached : f.beginReachedEnd = false) :
    w.enterLine ⟨[f], 0, none, true, .empty⟩ = .ok ⟨[f], 0, none, true, .empty⟩ := by
  have hcontinued : Scan.continued w.grammar [f] = .ok [] := by
    obtain ⟨r, rule, hr, hrule⟩ := selfCapture_linked.root
    cases selfCapture_root.symm.trans hr
    rw [hw]
    refine Except.bind_eq_ok.2 ⟨[], rfl, Except.bind_eq_ok.2 ⟨.group rule, ?_, rfl⟩⟩
    rw [hf]
    exact rule_eq_ok.2 hrule
  refine Except.bind_eq_ok.2 ⟨[], hcontinued, ?_⟩
  simp [Scan.continueRegions, ScanState.atLineStart, hreached]

/-- The line of the letter alone cannot be scanned with any number of levels, though the grammar
links. -/
theorem selfCapture_tooDeep : selfCapture.Linked ∧
    ∀ levels, selfCapture.tryTokenizeLine levels "a" .initial = .error .capturesTooDeep := by
  refine ⟨selfCapture_linked, fun levels => ?_⟩
  obtain ⟨f, hf, hreached, hstart⟩ := selfCapture_startStack
  have hmem : f.rule ∈ [⟨"source.t", 0⟩, letterRegion] := by simp [hf]
  have hstep := selfCapture_step [] true .empty hmem (by simp : 2 ∈ [1, 2])
    (selfCapture_scanCaptured levels)
  refine Except.bind_eq_error.2 (.inr ⟨[f], hstart, Except.bind_eq_error.2 (.inl ?_)⟩)
  refine Except.bind_eq_error.2 (.inr ⟨_, selfCapture_enterLine rfl hf hreached, ?_⟩)
  exact Except.bind_eq_error.2 (.inl hstep)

end Grammar

end Highlight
