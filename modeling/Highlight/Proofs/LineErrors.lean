import Highlight.Proofs.FailureLaw

/-!
# Why a line of a linked grammar cannot be scanned

Linking a grammar checks all references between its rules, so a scan of a line never misses a rule.
`LineError` lists what is left: captured text that nests too deep, the close of a region that is not
a pattern once captured text stands in it, and one more. A region that a capture opens has the frame
of a region whose begin match has not been made, and so has the frame of the rule whose capture it
is; neither knows captured text that its end refers to. Only where a captured region has an end can
a scan get to see that (`Sound`), and `capturedEnd` is a grammar where it does.
-/

namespace Highlight

namespace Grammar

variable {g : Grammar} {f : Frame} {e : ScanError}

/-- A capture opens a region with an end. -/
def HasCapturedEnd (g : Grammar) : Prop := ∃ r, ∃ c ∈ g.capturedRegions r, g.ends c = true

/-- What can keep a line from being scanned. -/
inductive LineError (g : Grammar) : ScanError → Prop
  | capturesTooDeep : LineError g .capturesTooDeep
  /-- The close of a region is no pattern with captured text in it. -/
  | badEnd {r : RuleRef} {region : Rule.Region} {source : String} {text : Subject}
      {groups : List (Option Span)} {pe : PatternError} (hregion : g.region? r = some region)
      (hclose : region.close = .dynamic source)
      (h : Pattern.compile (resolveReferences source text groups) = .error pe) :
      LineError g (.badEnd pe)
  /-- An end refers to captured text, which is not known where a capture opens a region. -/
  | unresolvedEnd {r : RuleRef} {rule : BeginEndRule} {source : String}
      (hrule : g.rule? r = some (.beginEnd rule)) (hend : rule.endPattern = .dynamic source)
      (h : g.HasCapturedEnd) : LineError g (.unresolvedEnd r)

/-! ## Frames with their patterns -/

theorem resolvedEnd_ne_error {c : EndPattern} (hc : c.Resolved f.endPattern) :
    f.resolvedEnd c ≠ .error e := by
  intro h
  obtain ⟨source, rfl, hnone, _⟩ := resolvedEnd_eq_error h
  obtain ⟨_, _, q, hq, _⟩ := hc
  cases hnone.symm.trans hq

/-- The patterns of the frame are known, or the grammar is one where they need not be. -/
def Sound (g : Grammar) (f : Frame) : Prop := ∀ e, g.regionPatterns f = .error e → g.LineError e

theorem sound_of_rule {rule : Rule} (hrule : g.rule? f.rule = some rule)
    (hends : g.ends f.rule = true → g.HasCapturedEnd) : g.Sound f := by
  intro e h
  rcases regionPatterns_eq_error h with ⟨hnone, _⟩ | ⟨r, hr, h⟩
  · cases hrule.symm.trans hnone
  · obtain ⟨source, hend, _, he⟩ := resolvedEnd_eq_error h
    rw [he]
    exact .unresolvedEnd hr hend (hends (ends_eq_true.2 ⟨r, hr⟩))

theorem sound_of_region {region : Rule.Region} (hregion : g.region? f.rule = some region)
    (hclose : region.close.Resolved f.endPattern) : g.Sound f := by
  intro e h
  rcases regionPatterns_eq_error h with ⟨hnone, _⟩ | ⟨rule, hrule, h⟩
  · rw [region?, hnone] at hregion
    cases hregion
  · rw [region?_beginEnd hrule] at hregion
    cases hregion
    exact absurd h (resolvedEnd_ne_error hclose)

theorem rule?_of_isRoot (hg : g.Linked) (hf : f.IsRoot g) :
    ∃ rule, g.rule? f.rule = some (.group rule) := by
  obtain ⟨r, rule, hr, hrule⟩ := hg.root
  rw [← Option.some.inj (hf.rule.symm.trans hr)] at hrule
  exact ⟨rule, hrule⟩

theorem sound_of_isRoot (hg : g.Linked) (hf : f.IsRoot g) : g.Sound f := by
  obtain ⟨rule, hrule⟩ := rule?_of_isRoot hg hf
  refine sound_of_rule hrule fun hends => ?_
  obtain ⟨rule', hrule'⟩ := ends_eq_true.1 hends
  cases hrule.symm.trans hrule'

/-! ## Lines -/

theorem failureLaw_sound (hg : g.Linked) : g.FailureLaw g.LineError g.Sound g.Sound where
  patterns hf h := hf _ h
  unknown hrule hid hnone := by
    obtain ⟨rule', hrule'⟩ := hg.rule?_place hrule (Rule.captured_subset_places _ hid)
    cases hnone.symm.trans hrule'
  close hregion hclose h := .badEnd hregion hclose h
  opened _ _ hregion hclose := sound_of_region hregion hclose
  captured _ _ hc := by
    obtain ⟨rule, hrule⟩ := (rules_of_mem_capturedRegions hc).2
    exact sound_of_rule hrule fun hends => ⟨_, _, hc, hends⟩
  below hc hends hf := by
    rcases hf with hf | ⟨rule, hrule⟩
    · exact hf
    · exact sound_of_rule hrule fun _ => ⟨_, _, hc, hends⟩

/-- A frame of a stack of regions is the root or has all that its rule refers to. -/
theorem opened_frame : ∀ {s : RuleStack}, s.Opened g → ∀ f ∈ s, f.IsRoot g ∨
    ∃ region, g.region? f.rule = some region ∧ region.close.Resolved f.endPattern
  | [], _, f, hf => by cases hf
  | [_], h, f, hf => by
    cases List.mem_singleton.1 hf
    exact .inl h
  | _ :: f' :: below, ⟨hfit, h⟩, f, hf => by
    rcases List.mem_cons.1 hf with rfl | hf
    · exact .inr hfit.region
    · exact opened_frame h f hf

theorem scanLine_error (hg : g.Linked) {levels : Nat} {text : Subject} {s : RuleStack}
    {atStart : Bool} (hs : s.Opened g) (h : g.scanLine levels text s atStart = .error e) :
    g.LineError e := by
  -- what makes frames sound does not depend on how deep captured text nests
  refine scanLine_fails (fun _ => g.Sound) (fun _ => failureLaw_sound hg)
    (fun _ _ => .capturesTooDeep) ?_ ?_ ?_ h
  · intro f hf
    rcases opened_frame hs f hf with hroot | ⟨region, hregion, hclose⟩
    · exact sound_of_isRoot hg hroot
    · exact sound_of_region hregion hclose
  · intro f hf hnone
    rcases opened_frame hs f hf with hroot | ⟨region, hregion, _⟩
    · obtain ⟨rule, hrule⟩ := rule?_of_isRoot hg hroot
      cases hnone.symm.trans hrule
    · rw [region?, hnone] at hregion
      cases hregion
  · intro f hf rule hrule e h
    rcases opened_frame hs f hf with hroot | ⟨region, hregion, hclose⟩
    · obtain ⟨rule', hrule'⟩ := rule?_of_isRoot hg hroot
      cases hrule.symm.trans hrule'
    · rw [region?_beginWhile hrule] at hregion
      cases hregion
      exact absurd h (resolvedEnd_ne_error hclose)

/-- Why a line of a text cannot be scanned. -/
theorem reached_line_error (hg : g.Linked) {s : RuleStack} (hs : g.Reached s) {levels : Nat}
    {line : String} (h : g.tryTokenizeLine levels line s = .error e) : g.LineError e := by
  simp only [tryTokenizeLine] at h
  rcases Except.bind_eq_error.1 h with h | ⟨start, hstart, h⟩
  · -- a linked grammar has a root, so a line always finds a stack to start with
    unfold startStack rootStack at h
    obtain ⟨r, rule, hr, _⟩ := hg.root
    rw [hr] at h
    split at h
    · cases h
    · cases h
  · rcases Except.bind_eq_error.1 h with h | ⟨_, _, h⟩
    · have hopened := (startStack_atLineEnd (hs.atLineEnd hg) hstart).opened
      exact scanLine_error hg hopened h
    · cases h

/-! ## A line with a bad end -/

/-- What stands between two letters becomes a range that a class cannot have. -/
def reversedRangeSource : RawGrammar :=
  { (default : RawGrammar) with
    scopeName := "source.range"
    patterns := [{ (default : RawRule) with
      beginSource := some "(z)"
      endSource := some "[a\\1-b]" }] }

theorem reversedRangeSource_links : (ofSource reversedRangeSource).toOption.isSome := by
  decide +kernel

/-- The grammar of a reversed range. -/
def reversedRange : Grammar := (ofSource reversedRangeSource).toOption.get reversedRangeSource_links

theorem reversedRange_linked : reversedRange.Linked :=
  linked_of_ofSource (Option.some_get reversedRangeSource_links).symm

/-- The range ends before it starts. -/
theorem reached_line_error_reversedRange :
    ∃ pe, reversedRange.tryTokenizeLine 1 "z" [] = .error (.badEnd pe) ∧
      reversedRange.LineError (.badEnd pe) := by
  have hline : (match reversedRange.tryTokenizeLine 1 "z" [] with
      | .error (.badEnd _) => true
      | _ => false) = true := by decide +kernel
  split at hline
  · rename_i pe hpe
    exact ⟨pe, hpe, reached_line_error reversedRange_linked .initial hpe⟩
  · cases hline

/-! ## A captured region with an end -/

/-- The captured text is scanned in a region whose end refers to text that its begin would have
captured. -/
def capturedEndSource : RawGrammar :=
  { (default : RawGrammar) with
    scopeName := "source.t"
    patterns := [{ (default : RawRule) with
      name := some "m"
      matchSource := some "(a)"
      captures := some [(1, { (default : RawRule) with
        beginSource := some "(x)"
        endSource := some "z\\1"
        patterns := some [{ (default : RawRule) with
          name := some "n"
          matchSource := some "a" }] })] }] }

theorem capturedEndSource_links : (ofSource capturedEndSource).toOption.isSome := by
  decide +kernel

/-- The grammar of a captured region with an end. -/
def capturedEnd : Grammar := (ofSource capturedEndSource).toOption.get capturedEndSource_links

theorem capturedEnd_linked : capturedEnd.Linked :=
  linked_of_ofSource (Option.some_get capturedEndSource_links).symm

/-- No begin match comes before the end of a captured region, so the text that it refers to is not
known. -/
theorem capturedEnd_unresolved : capturedEnd.Linked ∧ capturedEnd.Reached .initial ∧
    ∃ r, capturedEnd.tryTokenizeLine 1 "a" .initial = .error (.unresolvedEnd r) := by
  refine ⟨capturedEnd_linked, .initial, ?_⟩
  have hline : (match capturedEnd.tryTokenizeLine 1 "a" .initial with
      | .error (.unresolvedEnd _) => true
      | _ => false) = true := by decide +kernel
  split at hline
  · rename_i r hr
    exact ⟨r, hr⟩
  · cases hline

end Grammar

end Highlight
