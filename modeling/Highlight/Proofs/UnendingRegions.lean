import Highlight.Proofs.LiteralPatterns
import Highlight.Proofs.NestedRegions
import Highlight.Proofs.UsedRules

/-!
# Regions without an end

A rule with a begin, and with nothing that ends or continues its region, is compiled with an end of
its own: a single character that is not meant to stand in a text. This end takes part in all
searches of the region. What is proved:

1. `Visits.keepsEnds`: a region whose end refers to no captured text is searched with the end of its
   rule, at all states of all lines, however it was opened.
2. `Unending.endPattern`: the end of such a rule is the one character, as it is.
3. `unending_region`: so the end of such a region matches where the character stands first, and on a
   line without it never. There the region stays open until the scan of the line is over, and with
   it all regions below it, unless a rule matches nothing inside it.
4. `unclosed_closes`: the character does close the region, where it does stand in a text.
-/

namespace Highlight

/-- The region holds no pattern of its own for an end that refers to no captured text. -/
def Frame.KeepsEnd (g : Grammar) (f : Frame) : Prop :=
  ∀ region p, g.region? f.rule = some region → region.close = .fixed p → f.endPattern = none

section

variable {g : Grammar} {f : Frame}

theorem Frame.keepsEnd_of_none (h : f.endPattern = none) : f.KeepsEnd g := fun _ _ _ _ => h

theorem Frame.keepsEnd_of_resolved {region : Rule.Region} (hregion : g.region? f.rule = some region)
    (h : region.close.Resolved f.endPattern) : f.KeepsEnd g := by
  intro region' p hregion' hclose
  cases hregion.symm.trans hregion'
  rw [hclose] at h
  exact h

end

theorem unendingSource_eq : unendingSource = String.ofList (escapeText [neverMatched]) := by
  decide

theorem EndPattern.of_unendingSource {e : EndPattern} (h : e.Of unendingSource) :
    e = .fixed (.literal [neverMatched]) := by
  cases h with
  | fixed _ hp =>
    rw [unendingSource_eq, Pattern.compile_escapeText] at hp
    rw [Except.ok.inj hp]
  | dynamic href => exact absurd href (by decide)

/-- The character stands in the text. -/
theorem mem_of_occursAt {line : String} {c : Char} {stop p : Nat}
    (h : OccursAt [c] (lineText line).chars stop p) (hc : c ≠ '\n') : c ∈ line.toList := by
  have hmem : c ∈ (line.toList ++ ['\n']).drop p := h.2.subset (List.mem_singleton_self c)
  rcases List.mem_append.1 (List.mem_of_mem_drop hmem) with hmem | hmem
  · exact hmem
  · exact absurd (List.mem_singleton.1 hmem) hc

/-- Only the innermost region can be left where nothing is consumed. -/
theorem RuleStack.lies_safePop {f : Frame} {below s : RuleStack} (h : f :: below <:+ s) :
    f :: below <:+ s.safePop ∨ (s = f :: below ∧ s.safePop = below) := by
  unfold safePop
  split
  · cases s with
    | nil => cases List.suffix_nil.1 h
    | cons top lower =>
      rcases List.suffix_cons_iff.1 h with heq | h
      · cases heq
        exact .inr ⟨rfl, rfl⟩
      · exact .inl h
  · exact .inl h

/-- Where the end of the innermost region is the next match, the pattern that ends it has been
found. -/
theorem Place.nextMatch_ending {p : Place} {g : Grammar} {f : Frame} {below : RuleStack} {m : Match}
    (h : p.nextMatch g (f :: below) = .ok (some (.ending, m))) :
    ∃ rule e, g.rule? f.rule = some (.beginEnd rule) ∧ f.resolvedEnd rule.endPattern = .ok e ∧
      p.search e = some m := by
  unfold nextMatch at h
  obtain ⟨patterns, hpatterns, h⟩ := Except.bind_eq_ok.1 h
  have hown : p.first patterns = some (.ending, m) := by
    rcases prefer_cases (Except.ok.inj h) with hown | ⟨_, _, _, hrule⟩
    · exact hown
    · cases hrule
  rw [first_eq_earliest] at hown
  obtain ⟨e, hmem, hm⟩ := Pattern.mem_found.1 (Pattern.earliest_mem hown)
  -- the patterns inside the region belong to rules
  have hinside : ∀ q, (Candidate.ending, q) ∉ (g.childPatterns f.rule).map (Prod.map .rule id) := by
    intro q hq
    obtain ⟨_, _, heq⟩ := List.mem_map.1 hq
    cases heq
  simp only [Grammar.regionPatterns] at hpatterns
  obtain ⟨rule, hrule, hpatterns⟩ := Except.bind_eq_ok.1 hpatterns
  rw [Grammar.rule_eq_ok] at hrule
  cases rule with
  | beginEnd rule =>
    obtain ⟨e', he, hpatterns⟩ := Except.bind_eq_ok.1 hpatterns
    cases hpatterns
    have hend : e = e' := by
      split at hmem
      · rcases List.mem_append.1 hmem with hmem | hmem
        · exact absurd hmem (hinside e)
        · cases List.mem_singleton.1 hmem
          rfl
      · rcases List.mem_cons.1 hmem with heq | hmem
        · cases heq
          rfl
        · exact absurd hmem (hinside e)
    exact ⟨rule, e, hrule, hend ▸ he, hm⟩
  | matching _ | beginWhile _ | group _ | inclusion _ =>
    cases hpatterns
    exact absurd hmem (hinside e)

namespace Grammar

open Scan (Task Progress)

variable {g : Grammar} {levels n : Nat} {line : String} {stack below : RuleStack} {w : Scan}
  {s : ScanState} {task : Task} {f : Frame}

/-! ## The ends of open regions -/

/-- All regions keep the ends of their rules. -/
def KeepsEnds (g : Grammar) (stack : RuleStack) : Prop := ∀ f ∈ stack, f.KeepsEnd g

theorem KeepsEnds.suffix {stack' : RuleStack} (h : g.KeepsEnds stack) (hsuffix : stack' <:+ stack) :
    g.KeepsEnds stack' := fun f hf => h f (hsuffix.subset hf)

theorem KeepsEnds.push (h : g.KeepsEnds stack) (hf : f.KeepsEnd g) : g.KeepsEnds (stack.push f) :=
  List.forall_mem_cons.2 ⟨hf, h⟩

theorem keepsEnds_startStack (hg : g.Linked) (hs : g.Reached stack) {start : RuleStack}
    (h : g.startStack stack = .ok start) : g.KeepsEnds start := by
  intro f hf
  have hopened := (startStack_atLineEnd (hs.atLineEnd hg) h).opened
  rcases opened_frame hopened f hf with hroot | ⟨region, hregion, hclose⟩
  · exact Frame.keepsEnd_of_none hroot.endPattern
  · exact Frame.keepsEnd_of_resolved hregion hclose

theorem KeepsEnds.step (hw : w.grammar = g) (h : g.KeepsEnds s.stack) {s' : ScanState}
    (hstep : w.step s = .ok (.more s')) : g.KeepsEnds s'.stack := by
  subst hw
  obtain ⟨c, m, t, _, happ, _, hstack⟩ := Scan.step_more hstep
  rw [hstack]
  cases happ with
  | ended hs =>
    refine h.suffix ?_
    rw [hs]
    exact List.suffix_cons _ _
  | matched => exact h
  | opened hregion hclose =>
    exact h.push (Frame.keepsEnd_of_resolved hregion (Scan.resolveEnd_resolved hclose))

theorem KeepsEnds.goes (hw : w.grammar = g) (h : g.KeepsEnds s.stack) (hknown : g.KnownAt s task)
    {s' : ScanState} {task' : Task} (hgoes : w.Goes s task s' task') : g.KeepsEnds s'.stack := by
  cases hgoes with
  | @left c =>
    obtain ⟨hsuffix, _⟩ := hknown.lasting _ rfl c List.mem_cons_self
    exact h.suffix ((List.suffix_cons _ _).trans hsuffix)
  | lasts => exact h
  | entered => exact h
  | steps hstep => exact h.step hw hstep

/-- The stack on which captures are applied has open regions and the one that begins or ends. -/
theorem KeepsEnds.resolves (h : g.KeepsEnds s.stack) (hknown : g.KnownAt s task) {owner : RuleRef}
    {rules : CaptureRules} {m : Match} (hresolves : w.Resolves s task stack owner rules m) :
    g.KeepsEnds stack := by
  cases hresolves with
  | @lasting c =>
    obtain ⟨hsuffix, _⟩ := hknown.lasting _ rfl c List.mem_cons_self
    exact h.suffix hsuffix
  | ending _ hstack =>
    rw [hstack] at h
    obtain ⟨hf, hbelow⟩ := List.forall_mem_cons.1 h
    exact List.forall_mem_cons.2 ⟨hf, hbelow⟩
  | matched => exact h.push (Frame.keepsEnd_of_none rfl)
  | opening => exact h.push (Frame.keepsEnd_of_none rfl)

theorem Visits.keepsEnds (hg : g.Linked) (hs : g.Reached stack)
    (h : g.Visits levels line stack n w s task) : g.KeepsEnds s.stack := by
  induction h with
  | start hstart => exact keepsEnds_startStack hg hs hstart
  | goes h hgoes ih => exact ih.goes h.grammar (h.known hg hs) hgoes
  | captured h hasks _ ih =>
    cases hasks with
    | captured hresolves =>
      exact (ih.resolves (h.known hg hs) hresolves).push (Frame.keepsEnd_of_none rfl)

/-- All scans are scans of the line. -/
theorem Visits.text (h : g.Visits levels line stack n w s task) : w.text = lineText line := by
  induction h with
  | start => rfl
  | goes _ _ ih => exact ih
  | captured _ _ _ ih => exact ih

/-! ## Rules without an end -/

/-- The rule is written with a begin, and with nothing that ends or continues its region. -/
def Unending (g : Grammar) (r : RuleRef) : Prop :=
  ∃ d raw p written, g.document? r.grammar = some d ∧ RawGrammar.Keyed raw ∧
    CompiledGrammar.compile raw = .ok d ∧ raw.rule? p = some written ∧ raw.place p = r.rule ∧
    written.beginSource.isSome ∧ written.endSource = none ∧ written.whileSource = none

theorem Unending.endPattern {r : RuleRef} (h : g.Unending r) {rule : BeginEndRule}
    (hrule : g.rule? r = some (.beginEnd rule)) :
    rule.endPattern = .fixed (.literal [neverMatched]) := by
  obtain ⟨d, raw, p, written, hd, hkeyed, hraw, hwritten, hp, _, hend, _⟩ := h
  obtain ⟨d', hd', hplace⟩ := Option.bind_eq_some_iff.1 hrule
  cases hd.symm.trans hd'
  obtain ⟨rule', hrule', hmeans⟩ := (RawGrammar.compile_renders hkeyed hraw).rule p written hwritten
  rw [hp, hplace] at hrule'
  cases hrule'
  cases hmeans with
  | beginEnd _ _ _ _ _ _ hof _ =>
    rw [hend] at hof
    exact EndPattern.of_unendingSource hof

theorem resolvedEnd_of_unending (hf : f.KeepsEnd g) (hunending : g.Unending f.rule)
    {rule : BeginEndRule} (hrule : g.rule? f.rule = some (.beginEnd rule)) :
    f.resolvedEnd rule.endPattern = .ok (.literal [neverMatched]) := by
  have hclose := hunending.endPattern hrule
  have hnone := hf _ _ (region?_beginEnd hrule) hclose
  unfold Frame.resolvedEnd
  rw [hnone, hclose]

/-- Where the end of a region without an end is the next match, it is the first of the characters
that stand for it. -/
theorem Unending.match_eq (hf : f.KeepsEnd g) (hunending : g.Unending f.rule) {m : Match}
    (h : (w.place s).nextMatch g (f :: below) = .ok (some (.ending, m))) :
    m = Regex.spanning 1 m.start ∧
      FirstOccurrence [neverMatched] w.text.chars s.position w.stop (some m.start) := by
  obtain ⟨rule, e, hrule, he, hm⟩ := Place.nextMatch_ending h
  rw [resolvedEnd_of_unending hf hunending hrule] at he
  cases he
  obtain ⟨found, hfirst, hsearch⟩ :=
    Pattern.search_literal [neverMatched] w.text.chars s.position w.stop s.anchors
  obtain ⟨p, rfl, heq⟩ := Option.map_eq_some_iff.1 (hsearch.symm.trans hm)
  rw [← heq]
  exact ⟨rfl, hfirst⟩

/-- On a line without the character such an end is never the next match. -/
theorem Unending.not_ending (hf : f.KeepsEnd g) (hunending : g.Unending f.rule)
    (htext : w.text = lineText line) (hline : neverMatched ∉ line.toList) (m : Match) :
    (w.place s).nextMatch g (f :: below) ≠ .ok (some (.ending, m)) := by
  intro h
  obtain ⟨_, hfirst⟩ := hunending.match_eq hf h
  rw [htext] at hfirst
  cases hfirst with
  | found _ hat _ => exact hline (mem_of_occursAt hat (by decide))

/-- A rule matches nothing inside the region, which is the innermost one: it is left, and the scan
is over. -/
def LeftIdle (w : Scan) (s : ScanState) (f : Frame) (below : RuleStack) (s' : ScanState) : Prop :=
  ∃ r m, s.stack = f :: below ∧
    (w.place s).nextMatch w.grammar s.stack = .ok (some (.rule r, m)) ∧ m.stop ≤ s.position ∧
    w.step s = .ok (.done s') ∧ s'.stack = below

/-- On a line without the character, a step does not leave a region without an end, unless a rule
matches nothing in it. -/
theorem Unending.step (hw : w.grammar = g) (hkeeps : g.KeepsEnds s.stack)
    (hunending : g.Unending f.rule) (htext : w.text = lineText line)
    (hline : neverMatched ∉ line.toList) (hlies : f :: below <:+ s.stack) {q : Progress}
    (hstep : w.step s = .ok q) : f :: below <:+ q.state.stack ∨
      ∃ s', q = .done s' ∧ LeftIdle w s f below s' := by
  subst hw
  have hf : f.KeepsEnd w.grammar := hkeeps f (hlies.subset List.mem_cons_self)
  -- the innermost region is another one where an end matches
  have hinner : ∀ {m top lower}, (w.place s).nextMatch w.grammar s.stack = .ok (some (.ending, m)) →
      s.stack = top :: lower → f :: below <:+ lower := by
    intro m top lower hmatch hstack
    rw [hstack] at hmatch hlies
    rcases List.suffix_cons_iff.1 hlies with heq | hlies
    · cases heq
      exact absurd hmatch (hunending.not_ending hf htext hline m)
    · exact hlies
  rcases Scan.step_cases hstep with ⟨_, rfl⟩ | ⟨c, m, p, hmatch, happ, heq⟩
  · exact .inl hlies
  · have hstack := Scan.afterMatch_stack w s m p
    rw [← heq] at hstack
    rw [hstack]
    cases happ with
    | ended hs => exact .inl (hinner hmatch hs)
    | kept hs => exact .inl ((hinner hmatch hs).trans (List.suffix_cons _ _))
    | matched => exact .inl hlies
    | opened => exact .inl (hlies.trans (List.suffix_cons _ _))
    | reentered => exact .inl hlies
    | @idle r _ _ _ _ hstay =>
      rcases RuleStack.lies_safePop hlies with hlies | ⟨htop, hpop⟩
      · exact .inl hlies
      · have hdone := hstep
        rw [heq] at hdone
        exact .inr ⟨_, heq, r, m, htop, hmatch, Nat.le_of_not_lt hstay, hdone, hpop⟩

/-- The end of a region without an end is a character that is not meant to stand in a text. At every
state of every line of a text, in the scan of the line and in those of captured texts, the end match
of such a region is the first of these characters that is left. So on a line without it the region
is not left by an end match: it stays open, with all below it, until the scan is over, unless a rule
matches nothing inside it, which ends the scan. -/
theorem unending_region (hg : g.Linked) {before : List String}
    (h : g.Visits levels line (g.stackAfter levels before) n w s .matching)
    (hlies : f :: below <:+ s.stack) (hunending : g.Unending f.rule) :
    (∀ m, s.stack = f :: below → (w.place s).nextMatch g s.stack = .ok (some (.ending, m)) →
      m = Regex.spanning 1 m.start ∧
        FirstOccurrence [neverMatched] w.text.chars s.position w.stop (some m.start)) ∧
    (neverMatched ∉ line.toList → ∀ fuel s', w.steps fuel s = .ok s' →
      f :: below <:+ s'.stack ∨
        ∃ t, g.Visits levels line (g.stackAfter levels before) n w t .matching ∧
          LeftIdle w t f below s') := by
  have hreached := reached_stackAfter g levels before
  refine ⟨fun m htop hmatch => ?_, fun hline fuel s' hsteps => ?_⟩
  · rw [htop] at hmatch
    exact hunending.match_eq (h.keepsEnds hg hreached f (hlies.subset List.mem_cons_self)) hmatch
  · refine Scan.steps_induct
      (P := fun t => g.Visits levels line (g.stackAfter levels before) n w t .matching ∧
        f :: below <:+ t.stack)
      (Q := fun s' => f :: below <:+ s'.stack ∨
        ∃ t, g.Visits levels line (g.stackAfter levels before) n w t .matching ∧
          LeftIdle w t f below s') ?_ ?_ ⟨h, hlies⟩ hsteps
    · rintro t t' ⟨ht, hlies⟩ hstep
      rcases hunending.step ht.grammar (ht.keepsEnds hg hreached) ht.text hline hlies hstep with
        hlies | ⟨_, hdone, _⟩
      · exact ⟨ht.goes (.steps hstep), hlies⟩
      · cases hdone
    · rintro t t' ⟨ht, hlies⟩ hstep
      rcases hunending.step ht.grammar (ht.keepsEnds hg hreached) ht.text hline hlies hstep with
        hlies | ⟨_, hdone, hidle⟩
      · exact .inl hlies
      · cases hdone
        exact .inr ⟨t, ht, hidle⟩

/-! ### A region from a letter on -/

/-- Text from a letter on. -/
def unclosedValue : Value := .dict [
  (.text "scopeName", .text "source.t"),
  (.text "patterns", .list [
    .dict [(.text "begin", .text "a"), (.text "name", .text "open")]])]

/-- The grammar of such text as written. -/
def unclosedSource : RawGrammar :=
  (RawGrammar.read? ⟨8, false⟩ unclosedValue).get (by decide +kernel)

theorem unclosedSource_keyed : unclosedSource.Keyed :=
  RawGrammar.keyed_of_read? (Option.some_get _).symm

/-- The grammar of such text. -/
def unclosed : Grammar := (ofSource unclosedSource).toOption.get (by decide +kernel)

theorem unclosed_linked : unclosed.Linked := linked_of_ofSource (Option.some_get _).symm

/-- The rule of such text. -/
def openRule : RuleRef := ⟨"source.t", unclosedSource.place [.pattern 0]⟩

theorem unending_openRule : unclosed.Unending openRule := by
  have hname : unclosed.scopeName = openRule.grammar := by decide
  have hkeys : (unclosedSource.rule? [.pattern 0]).map
      (fun r => (r.beginSource.isSome, r.endSource, r.whileSource)) = some (true, none, none) := by
    decide
  obtain ⟨d, hd, hcompile⟩ := document_of_ofSource (Option.some_get _).symm
  obtain ⟨written, hwritten, heq⟩ := Option.map_eq_some_iff.1 hkeys
  simp only [Prod.mk.injEq] at heq
  obtain ⟨hbegin, hend, hwhile⟩ := heq
  refine ⟨d, unclosedSource, [.pattern 0], written, ?_, unclosedSource_keyed, hcompile, hwritten,
    rfl, hbegin, hend, hwhile⟩
  rw [← hname]
  exact hd

/-- The region of such text is the innermost one. -/
theorem exists_unending_top (h : stack.head?.map (·.rule) = some openRule) :
    ∃ f below, stack = f :: below ∧ unclosed.Unending f.rule := by
  cases stack with
  | nil => cases h
  | cons f below =>
    refine ⟨f, below, rfl, ?_⟩
    rw [show f.rule = openRule from Option.some.inj h]
    exact unending_openRule

/-- The state before the letter. -/
def beforeOpen : ScanState :=
  ScanState.atLineStart ⟨unclosed.rootStack.toOption.get (by decide +kernel), 0, none, true, .empty⟩

/-- Behind the letter, where such text has begun. -/
theorem visits_opened {s : ScanState} (h : more? (unclosed.lineScan 1 line) beforeOpen = some s) :
    unclosed.Visits 1 line (unclosed.stackAfter 1 []) 1 (unclosed.lineScan 1 line) s .matching :=
  have hstart : unclosed.Visits 1 line (unclosed.stackAfter 1 []) 1 (unclosed.lineScan 1 line)
      beforeOpen .matching :=
    visits_first unclosed_linked (Except.eq_ok_of_toOption (Option.some_get _).symm) 1 line
  hstart.goes (.steps (step_of_more? h))

/-- The state behind the letter on a line that goes on with another one. -/
def inOpen : ScanState := (more? (unclosed.lineScan 1 "ab") beforeOpen).get (by decide +kernel)

/-- The region is still open when the line is over. -/
theorem unending_region_letter : unclosed.Linked ∧
    unclosed.Visits 1 "ab" (unclosed.stackAfter 1 []) 1 (unclosed.lineScan 1 "ab") inOpen
      .matching ∧
    neverMatched ∉ "ab".toList ∧
    ∃ f below s', inOpen.stack = f :: below ∧ unclosed.Unending f.rule ∧
      (unclosed.lineScan 1 "ab").steps 3 inOpen = .ok s' ∧ s'.stack = f :: below := by
  have hvisits : unclosed.Visits 1 "ab" (unclosed.stackAfter 1 []) 1 (unclosed.lineScan 1 "ab")
      inOpen .matching := visits_opened (Option.some_get _).symm
  have hline : neverMatched ∉ "ab".toList := by decide
  have htop : inOpen.stack.head?.map (·.rule) = some openRule := by decide +kernel
  obtain ⟨f, below, hopen, hunending⟩ := exists_unending_top htop
  obtain ⟨s', hsteps⟩ : ∃ s', (unclosed.lineScan 1 "ab").steps 3 inOpen = .ok s' :=
    ⟨_, Except.eq_ok_of_toOption (Option.some_get (by decide +kernel)).symm⟩
  have hlength : s'.stack.length = 2 := by
    have h : ((unclosed.lineScan 1 "ab").steps 3 inOpen).toOption.map (·.stack.length) =
        some 2 := by decide +kernel
    rw [hsteps] at h
    exact Option.some.inj h
  have hlies : f :: below <:+ inOpen.stack := by rw [hopen]
  have hlengths : (f :: below).length = 2 := by
    rw [← hopen]
    decide +kernel
  obtain ⟨_, hkept⟩ := unending_region unclosed_linked hvisits hlies hunending
  refine ⟨unclosed_linked, hvisits, hline, f, below, s', hopen, hunending, hsteps, ?_⟩
  rcases hkept hline 3 s' hsteps with hlies | ⟨_, _, _, _, _, _, _, _, hbelow⟩
  · exact (hlies.eq_of_length (hlengths.trans hlength.symm)).symm
  · rw [hbelow] at hlength
    simp only [List.length_cons] at hlengths
    omega

/-- The state behind the letter on a line that goes on with the character. -/
def beforeNoncharacter : ScanState :=
  (more? (unclosed.lineScan 1 "a\uffffb") beforeOpen).get (by decide +kernel)

/-- The state behind the character. -/
def afterNoncharacter : ScanState :=
  (more? (unclosed.lineScan 1 "a\uffffb") beforeNoncharacter).get (by decide +kernel)

/-- A character of the text ends a region whose rule has no end. -/
theorem unclosed_closes : unclosed.Linked ∧
    unclosed.Visits 1 "a\uffffb" (unclosed.stackAfter 1 []) 1 (unclosed.lineScan 1 "a\uffffb")
      beforeNoncharacter .matching ∧
    (∃ f below, beforeNoncharacter.stack = f :: below ∧ unclosed.Unending f.rule) ∧
    endsNext (unclosed.lineScan 1 "a\uffffb") beforeNoncharacter = true ∧
    (unclosed.lineScan 1 "a\uffffb").step beforeNoncharacter = .ok (.more afterNoncharacter) ∧
    beforeNoncharacter.stack.length = 2 ∧ afterNoncharacter.stack.length = 1 ∧
    (unclosed.tokenizeLinesWithin 1 .initial ["a\uffffb"]).map
        (fun t => (t.tokens, t.stack.depth)) =
      [([⟨0, 1, ["source.t", "open"]⟩, ⟨1, 4, ["source.t", "open"]⟩,
        ⟨4, 5, ["source.t"]⟩], 1)] := by
  have htop : beforeNoncharacter.stack.head?.map (·.rule) = some openRule := by decide +kernel
  exact ⟨unclosed_linked, visits_opened (Option.some_get _).symm, exists_unending_top htop,
    by decide +kernel, step_of_more? (Option.some_get _).symm, by decide +kernel, by decide +kernel,
    by decide +kernel⟩

end Grammar

end Highlight
