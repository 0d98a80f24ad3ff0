import Highlight.Proofs.LineVisits
import Highlight.Proofs.LinkedDocuments

/-!
# How far a match extends the tokens

When a match is applied, the tokens are extended to its start, then by its captures, then to its
end. Captures can lie behind the end of their match, since groups in a look-ahead take part as well,
and nothing holds them back: a named one is a token up to its own end. What is proved:

1. `scanCaptured_reachesEnd`: the scan of a captured text extends the tokens just to the end of that
   text, however deep captured texts are scanned within it. No group of a match lies behind the end
   of the text that is searched, so nothing inside can get out.
2. `takes_reaches`: after any match, be it of a rule without a region, of the begin or the end of a
   region or of its continuation, the tokens end where the last of three ends: the tokens before,
   the match, the captures (`captureReach`). Where no captured group ends behind the match, the
   captures do not count.
3. `ahead_swallows_next`: a captured group that does end behind the match takes the text of the
   match after it.
-/

namespace Highlight

/-! ## Where groups lie -/

/-- The groups that took part in a match lie in the text up to a position. -/
def Match.GroupsWithin (stop : Nat) (m : Match) : Prop :=
  ∀ span, some span ∈ m.groups → span.start ≤ span.stop ∧ span.stop ≤ stop

namespace Regex

variable {r : Regex} {m : Match}

theorem span?_within {slots : Slots} {stop i : Nat} {span : Span}
    (h : span? slots stop i = some span) : span.start ≤ span.stop ∧ span.stop ≤ stop := by
  unfold span? at h
  split at h
  · split at h
    · next hin =>
      cases h
      simpa only [Bool.and_eq_true, decide_eq_true_eq] using hin
    · cases h
  · cases h

theorem match?_groupsWithin {stop p : Nat} {a : Attempt} (h : r.match? stop p a = some m) :
    m.GroupsWithin stop := by
  have hwithin := match?_within h
  unfold match? at h
  split at h
  · cases h
  · dsimp only at h
    split at h
    · cases h
      intro span hspan
      rcases List.mem_cons.1 hspan with heq | hspan
      · cases heq
        exact ⟨hwithin.ordered, hwithin.le_stop⟩
      · obtain ⟨i, _, hi⟩ := List.mem_map.1 hspan
        exact span?_within hi
    · cases h

theorem searchFrom_groupsWithin {w : Window} {slots : Slots} : ∀ {n p : Nat},
    r.searchFrom w slots p n = some m → m.GroupsWithin w.stop
  | 0, _, h => match?_groupsWithin h
  | n + 1, p, h => by
    unfold searchFrom at h
    split at h
    · next hfound =>
      cases h
      exact match?_groupsWithin hfound
    · exact searchFrom_groupsWithin h

theorem search_groupsWithin {chars : Array Char} {start stop : Nat}
    (h : r.search chars start stop = some m) : m.GroupsWithin stop := by
  unfold search at h
  split at h
  · exact searchFrom_groupsWithin h
  · cases h

end Regex

/-- The next match is one of a pattern that applies. -/
theorem Place.nextMatch_search {p : Place} {g : Grammar} {stack : RuleStack} {c : Candidate}
    {m : Match} (h : p.nextMatch g stack = .ok (some (c, m))) : ∃ q, p.search q = some m := by
  rw [nextMatch_eq] at h
  cases hks : g.contenders stack with
  | error e =>
    rw [hks] at h
    cases h
  | ok ks =>
    rw [hks] at h
    obtain ⟨⟨k, n⟩, hk, heq⟩ := Option.map_eq_some_iff.1 (Except.ok.inj h)
    cases heq
    exact ⟨k.pattern, (mem_foundAmong.1 (Pattern.earliest_mem hk)).2⟩

theorem TokenRun.stop_produce (run : TokenRun) (stop : Nat) (scopes : ScopePath) :
    (run.produce stop scopes).stop = max run.stop stop := by
  unfold produce
  split
  · next hle => exact (Nat.max_eq_left hle).symm
  · next hlt => exact (Nat.max_eq_right (Nat.le_of_not_le hlt)).symm

namespace Scan

variable {w : Scan} {s : ScanState} {m : Match} {owner : ScopeName}

/-! ## How far captures reach -/

/-- How far a capture extends the tokens: to its end if the rule has a name or patterns, to its
start if it has neither, and nowhere if it took no part or is empty. -/
def captureReach (w : Scan) (owner : ScopeName) (m : Match) : Option RuleId × Option Span → Nat
  | (some id, some span) =>
    if span.start = span.stop then 0
    else match w.grammar.rule? ⟨owner, id⟩ with
      | some rule =>
        if rule.children = [] ∧ w.expand m rule.name? = [] then span.start else span.stop
      | none => 0
  | _ => 0

/-- How far each capture of a match extends the tokens. -/
def reaches (w : Scan) (owner : ScopeName) (rules : CaptureRules) (m : Match) : List Nat :=
  (rules.zip m.groups).map (w.captureReach owner m)

theorem captureReach_eq {id : RuleId} {span : Span} {rule : Rule} (hspan : span.start ≠ span.stop)
    (hrule : w.grammar.rule? ⟨owner, id⟩ = some rule) :
    w.captureReach owner m (some id, some span) =
      if rule.children = [] ∧ w.expand m rule.name? = [] then span.start else span.stop := by
  rw [captureReach, if_neg hspan, hrule]

theorem captureReach_idle {pair : Option RuleId × Option Span} (h : Idle pair) :
    w.captureReach owner m pair = 0 := by
  obtain ⟨id?, span?⟩ := pair
  cases id? with
  | none => rfl
  | some id =>
    cases span? with
    | none => rfl
    | some span => exact if_pos h

/-- Where tokens that end at a position end once all open stretches are closed. -/
def front (opened : Open) (stop : Nat) : Nat := (opened.map (·.2)).foldl max stop

theorem front_max (opened : Open) (a b : Nat) :
    front opened (max a b) = max (front opened a) b := by
  rw [front, Nat.max_comm a b, List.foldl_assoc, Nat.max_comm, front]

theorem front_cons (scopes : ScopePath) (stop : Nat) (opened : Open) (n : Nat) :
    front ((scopes, stop) :: opened) n = max (front opened n) stop := front_max opened n stop

theorem closeAll_stop : ∀ (opened : Open) (run : TokenRun),
    (closeAll opened run).stop = front opened run.stop
  | [], _ => rfl
  | (scopes, stop) :: rest, run => by
    rw [closeAll, closeAll_stop rest, TokenRun.stop_produce]
    rfl

theorem front_closeBefore (start : Nat) : ∀ (opened : Open) (run : TokenRun),
    front (closeBefore start opened run).1 (closeBefore start opened run).2.stop =
      front opened run.stop
  | [], _ => rfl
  | (scopes, stop) :: rest, run => by
    rw [closeBefore]
    split
    · rw [front_closeBefore start rest, TokenRun.stop_produce]
      rfl
    · rfl

/-- The scan of a captured text extends the tokens to its end and no further. -/
def ReachesEnd (nested : NestedScan) : Prop :=
  ∀ stack start stop atStart run run', nested stack start stop atStart run = .ok run' →
    run'.stop = max run.stop stop

/-- Each capture moves the front as far as it reaches. -/
theorem resolvePairs_stop (hnested : ReachesEnd w.nested) {stack : RuleStack} {atStart : Bool} :
    ∀ {pairs : List (Option RuleId × Option Span)} {opened : Open} {run run' : TokenRun},
      (∀ span, some span ∈ pairs.map Prod.snd → span.start ≤ span.stop) →
      w.resolvePairs stack owner atStart m opened run pairs = .ok run' →
      run'.stop = (pairs.map (w.captureReach owner m)).foldl max (front opened run.stop) := by
  intro pairs
  induction pairs with
  | nil =>
    intro opened run run' _ h
    cases h
    exact closeAll_stop opened run
  | cons pair pairs ih =>
    intro opened run run' hspans h
    have hrest : ∀ span, some span ∈ pairs.map Prod.snd → span.start ≤ span.stop :=
      fun span hspan => hspans span (List.mem_cons_of_mem _ hspan)
    rw [List.map_cons, List.foldl_cons]
    rcases idle_or pair with hidle | ⟨id, span, rfl, hspan⟩
    · rw [resolvePairs_idle hidle] at h
      rw [captureReach_idle hidle, Nat.max_zero]
      exact ih hrest h
    · have hordered : span.start ≤ span.stop := hspans span List.mem_cons_self
      obtain ⟨rule, hrule⟩ := exists_rule_of_resolvePairs hspan h
      have hfront := front_closeBefore span.start opened run
      -- the gap before the capture is filled
      have hgap (scopes : ScopePath) : front (closeBefore span.start opened run).1
          ((closeBefore span.start opened run).2.produce span.start scopes).stop =
          max (front opened run.stop) span.start := by
        rw [TokenRun.stop_produce, front_max, hfront]
      have hwhole : max (max (front opened run.stop) span.start) span.stop =
          max (front opened run.stop) span.stop := by omega
      rw [captureReach_eq hspan hrule]
      by_cases hleaf : rule.children = []
      · rw [resolvePairs_plain hspan hrule hleaf] at h
        rw [ih hrest h]
        by_cases hname : w.expand m rule.name? = []
        · rw [if_pos (List.isEmpty_iff.2 hname), hgap, if_pos ⟨hleaf, hname⟩]
        · -- the capture stays open up to its end
          rw [if_neg (mt List.isEmpty_iff.1 hname), front_cons, hgap, hwhole,
            if_neg fun hboth => hname hboth.2]
      · rw [resolvePairs_inside hspan hrule hleaf] at h
        obtain ⟨inner, hinner, h⟩ := Except.bind_eq_ok.1 h
        rw [ih hrest h, if_neg fun hboth => hleaf hboth.1, hnested _ _ _ _ _ _ hinner, front_max,
          hgap, hwhole]

/-- The captures of a match and the match itself, in whatever order they end. -/
theorem Captured.stop_eq (hnested : ReachesEnd w.nested) {stack : RuleStack} {atStart : Bool}
    {rules : CaptureRules} {run run' : TokenRun} (hgroups : m.GroupsWithin w.stop)
    (h : w.Captured atStart stack owner rules m run run') :
    run'.stop = (w.reaches owner rules m).foldl max (max run.stop m.stop) := by
  obtain ⟨inner, hinner, rfl⟩ := h
  have hspans : ∀ span, some span ∈ (rules.zip m.groups).map Prod.snd →
      span.start ≤ span.stop := by
    intro span hspan
    obtain ⟨pair, hpair, heq⟩ := List.mem_map.1 hspan
    exact (hgroups span (heq ▸ (List.of_mem_zip hpair).2)).1
  calc (inner.produce m.stop stack.scopes).stop
      = max inner.stop m.stop := TokenRun.stop_produce _ _ _
    _ = max ((w.reaches owner rules m).foldl max run.stop) m.stop := by
        rw [resolvePairs_stop hnested hspans hinner]
        rfl
    _ = (w.reaches owner rules m).foldl max (max m.stop run.stop) := by
        rw [List.foldl_assoc, Nat.max_comm]
    _ = (w.reaches owner rules m).foldl max (max run.stop m.stop) := by rw [Nat.max_comm]

/-- A capture reaches no further than its end. -/
theorem le_of_mem_reaches {rules : CaptureRules} {n a : Nat} (hgroups : m.GroupsWithin w.stop)
    (h : ∀ id span, (some id, some span) ∈ rules.zip m.groups → span.stop ≤ n)
    (ha : a ∈ w.reaches owner rules m) : a ≤ n := by
  obtain ⟨pair, hpair, rfl⟩ := List.mem_map.1 ha
  unfold captureReach
  split
  · next id span =>
    have hordered := (hgroups span (List.of_mem_zip hpair).2).1
    have hle := h id span hpair
    split
    · exact Nat.zero_le n
    · split
      · split
        · exact Nat.le_trans hordered hle
        · exact hle
      · exact Nat.zero_le n
  · exact Nat.zero_le n

/-! ## Steps -/

/-- The greatest of a number and of others that some bound holds for. -/
theorem foldl_max_bounds {n : Nat} {ns : List Nat} (k : Nat) (h : ∀ a ∈ ns, a ≤ n) :
    k ≤ ns.foldl max k ∧ ns.foldl max k ≤ max k n := by
  rw [List.foldl_max]
  cases hmax : ns.max? with
  | none =>
    rw [Option.getD_none]
    omega
  | some a =>
    have ha : a ≤ n := h a (List.max?_mem hmax)
    rw [Option.getD_some]
    omega

/-- A match leaves tokens that its captures have extended from its start on. -/
theorem Applied.captured {c : Candidate} {p : Progress} (h : w.Applied s m c p) :
    ∃ stack owner rules,
      w.Captured s.atStart stack owner rules m (s.produce m.start).run p.state.run := by
  cases h with
  | ended _ _ hrun | kept _ _ hrun => exact ⟨_, _, _, hrun⟩
  | matched _ hrun | idle _ hrun => exact ⟨_, _, _, hrun⟩
  | opened _ _ hrun => exact ⟨_, _, _, hrun⟩
  | reentered _ hrun => exact ⟨_, _, _, hrun⟩

/-- The tokens never get shorter, and they get no further than the text. -/
def Extends (w : Scan) (s s' : ScanState) : Prop :=
  s.run.stop ≤ s'.run.stop ∧ s'.run.stop ≤ max s.run.stop w.stop

theorem Applied.extends (hnested : ReachesEnd w.nested) {c : Candidate} {p : Progress}
    (hmatch : (w.place s).nextMatch w.grammar s.stack = .ok (some (c, m)))
    (h : w.Applied s m c p) : w.Extends s p.state := by
  obtain ⟨found, hfound⟩ := Place.nextMatch_search hmatch
  have hgroups : m.GroupsWithin w.stop := Regex.search_groupsWithin hfound
  have hin : m.Within s.position w.stop := Place.nextMatch_within hmatch
  obtain ⟨stack, owner, rules, hcaptured⟩ := h.captured
  have hstart : (s.produce m.start).run.stop = max s.run.stop m.start := TokenRun.stop_produce _ _ _
  have hreaches : ∀ a ∈ w.reaches owner rules m, a ≤ w.stop := fun a =>
    le_of_mem_reaches hgroups fun id span hpair => (hgroups span (List.of_mem_zip hpair).2).2
  obtain ⟨hlow, hhigh⟩ := foldl_max_bounds (max (s.produce m.start).run.stop m.stop) hreaches
  obtain ⟨_, hordered, hstop⟩ := hin
  have hstop : m.stop ≤ w.stop := hstop
  rw [Extends, hcaptured.stop_eq hnested hgroups]
  omega

theorem step_extends (hnested : ReachesEnd w.nested) {q : Progress} (h : w.step s = .ok q) :
    w.Extends s q.state := by
  rcases step_cases h with ⟨_, rfl⟩ | ⟨c, m, p, hmatch, happ, rfl⟩
  · have hstop : (s.produce w.stop).run.stop = max s.run.stop w.stop := TokenRun.stop_produce _ _ _
    simp only [Extends, Progress.state, hstop]
    omega
  · have happlied := happ.extends hnested hmatch
    cases p with
    | done t =>
      have hstop : (t.produce w.stop).run.stop = max t.run.stop w.stop :=
        TokenRun.stop_produce _ _ _
      simp only [Extends, afterMatch, Progress.state, hstop] at happlied ⊢
      omega
    | more t =>
      simp only [Extends, afterMatch, Progress.state] at happlied ⊢
      split
      · exact happlied
      · exact happlied

theorem Extends.trans {t t' : ScanState} (h : w.Extends s t) (h' : w.Extends t t') :
    w.Extends s t' := by
  obtain ⟨hlow, hhigh⟩ := h
  obtain ⟨hlow', hhigh'⟩ := h'
  exact ⟨Nat.le_trans hlow hlow', by omega⟩

/-- A scan that ends has got to the end of its text and no further. -/
theorem steps_stop (hnested : ReachesEnd w.nested) {n : Nat} {s' : ScanState}
    (h : w.steps n s = .ok s') : s'.run.stop = max s.run.stop w.stop := by
  have hreach : w.stop ≤ s'.run.stop := steps_reach h
  have hextends : w.Extends s s' := by
    refine steps_keep (P := w.Extends s) ?_ ⟨Nat.le_refl _, Nat.le_max_left _ _⟩ h
    intro t q ht hq
    exact ht.trans (step_extends hnested hq)
  obtain ⟨hlow, hhigh⟩ := hextends
  omega

/-- Whatever is scanned within a captured text, the tokens get to its end and no further. -/
theorem scanCaptured_reachesEnd (g : Grammar) (text : Subject) : ∀ levels : Nat,
    ReachesEnd (g.scanCaptured text levels)
  | 0 => by
    intro stack start stop atStart run run' h
    cases h
  | levels + 1 => by
    intro stack start stop atStart run run' h
    simp only [Grammar.scanCaptured] at h
    obtain ⟨s, hs, h⟩ := Except.bind_eq_ok.1 h
    cases h
    exact steps_stop (scanCaptured_reachesEnd g text levels) hs

/-! ## Matches that are applied -/

/-- The match that a state comes to is applied with the captures of a rule, and the tokens are a run
after it. -/
inductive Takes (w : Scan) (s : ScanState) :
    Task → RuleRef → CaptureRules → Match → TokenRun → Prop
  | matching {stack : RuleStack} {owner : RuleRef} {rules : CaptureRules} {m : Match}
      {c : Candidate} {p : Progress} (hr : w.Resolves s .matching stack owner rules m)
      (hm : (w.place s).nextMatch w.grammar s.stack = .ok (some (c, m)))
      (hp : w.applyCandidate s m c = .ok p) : Takes w s .matching owner rules m p.state.run
  | lasting {cs : List Continued} {stack : RuleStack} {owner : RuleRef} {rules : CaptureRules}
      {m : Match} {s' : ScanState} (hr : w.Resolves s (.lasting cs) stack owner rules m)
      (hp : w.resolveCaptures { s with run := s.run.produce m.start stack.scopes } stack
        owner.grammar rules m = .ok s') : Takes w s (.lasting cs) owner rules m s'.run

/-- The match that a state comes to is what the search for some pattern finds. -/
theorem Resolves.search {task : Task} {stack : RuleStack} {owner : RuleRef} {rules : CaptureRules}
    (h : w.Resolves s task stack owner rules m) : ∃ q, (w.place s).search q = some m := by
  cases h with
  | lasting _ hm => exact ⟨_, hm⟩
  | ending hm => exact Place.nextMatch_search hm
  | matched hm => exact Place.nextMatch_search hm
  | opening hm => exact Place.nextMatch_search hm

/-- The captures that a match is applied with are those of its rule. -/
theorem Applied.captured_of_resolves {stack : RuleStack} {owner : RuleRef} {rules : CaptureRules}
    {c : Candidate} {p : Progress} (hr : w.Resolves s .matching stack owner rules m)
    (hm : (w.place s).nextMatch w.grammar s.stack = .ok (some (c, m))) (h : w.Applied s m c p) :
    w.Captured s.atStart stack owner.grammar rules m (s.produce m.start).run p.state.run := by
  cases hr with
  | ending hm' hstack hrule =>
    cases hm.symm.trans hm'
    cases h with
    | ended hstack' hrule' hrun | kept hstack' hrule' hrun =>
      cases hstack.symm.trans hstack'
      cases hrule.symm.trans hrule'
      exact hrun
  | matched hm' hrule =>
    cases hm.symm.trans hm'
    cases h with
    | matched hrule' hrun | idle hrule' hrun =>
      cases hrule.symm.trans hrule'
      exact hrun
    | opened hregion _ _ | reentered hregion _ =>
      rw [Grammar.region?, hrule] at hregion
      cases hregion
  | opening hm' hregion =>
    cases hm.symm.trans hm'
    cases h with
    | matched hrule _ | idle hrule _ =>
      rw [Grammar.region?, hrule] at hregion
      cases hregion
    | opened hregion' _ hrun =>
      cases hregion.symm.trans hregion'
      exact hrun
    | reentered hregion' hrun =>
      cases hregion.symm.trans hregion'
      exact hrun

/-- A match that is applied extends the tokens to its start, with its captures, and to its end. -/
theorem Takes.captured {task : Task} {owner : RuleRef} {rules : CaptureRules} {run : TokenRun}
    (h : w.Takes s task owner rules m run) : ∃ stack scopes,
      w.Captured s.atStart stack owner.grammar rules m (s.run.produce m.start scopes) run := by
  cases h with
  | @matching stack _ _ _ c p hr hm hp =>
    refine ⟨stack, s.stack.scopes, Applied.captured_of_resolves hr hm ?_⟩
    cases c with
    | rule r => exact applyRule_cases hp
    | ending =>
      cases hstack : s.stack with
      | nil => simp [hstack, Place.nextMatch] at hm
      | cons f below => exact applyEnd_cases hstack hp
  | @lasting _ stack _ _ _ s' hr hp =>
    obtain ⟨run, hrun, rfl⟩ := resolveCaptures_eq_ok.1 hp
    exact ⟨stack, stack.scopes, hrun⟩

theorem Takes.search {task : Task} {owner : RuleRef} {rules : CaptureRules} {run : TokenRun}
    (h : w.Takes s task owner rules m run) : ∃ q, (w.place s).search q = some m := by
  cases h with
  | matching hr => exact hr.search
  | lasting hr => exact hr.search

/-- After a match is applied in the scan of a line or of a captured text, the tokens end where the
last of the tokens before, the match and its captures ends. If no group with a rule ends behind the
match, that is where the last of the tokens before and the match ends. -/
theorem takes_reaches {levels : Nat} {task : Task} {owner : RuleRef} {rules : CaptureRules}
    {run : TokenRun} (hw : w.nested = w.grammar.scanCaptured w.text levels)
    (h : w.Takes s task owner rules m run) :
    run.stop = (w.reaches owner.grammar rules m).foldl max (max s.run.stop m.stop) ∧
    ((∀ id span, (some id, some span) ∈ rules.zip m.groups → span.stop ≤ m.stop) →
      run.stop = max s.run.stop m.stop) := by
  have hnested : ReachesEnd w.nested := hw ▸ scanCaptured_reachesEnd w.grammar w.text levels
  obtain ⟨q, hq⟩ := h.search
  have hgroups : m.GroupsWithin w.stop := Regex.search_groupsWithin hq
  have hordered : m.start ≤ m.stop := (Regex.search_within hq).ordered
  obtain ⟨stack, scopes, hcaptured⟩ := h.captured
  have hstart : max (s.run.produce m.start scopes).stop m.stop = max s.run.stop m.stop := by
    rw [TokenRun.stop_produce]
    omega
  have hstop : run.stop =
      (w.reaches owner.grammar rules m).foldl max (max s.run.stop m.stop) := by
    rw [hcaptured.stop_eq hnested hgroups, hstart]
  refine ⟨hstop, fun hinside => ?_⟩
  have hreaches : ∀ a ∈ w.reaches owner.grammar rules m, a ≤ m.stop := fun a =>
    le_of_mem_reaches hgroups hinside
  obtain ⟨hlow, hhigh⟩ := foldl_max_bounds (max s.run.stop m.stop) hreaches
  omega

end Scan

namespace Grammar

open Scan

/-! ### A group in a look-ahead -/

/-- A letter that is matched where another one follows, which the match captures, and that other
letter. -/
def aheadSource : RawGrammar :=
  { (default : RawGrammar) with
    scopeName := "source.t"
    patterns := [
      { (default : RawRule) with
        matchSource := some "a(?=(b))"
        captures := some [(1, { (default : RawRule) with name := some "ahead" })] },
      { (default : RawRule) with
        matchSource := some "(b)"
        name := some "letter"
        captures := some [(1, { (default : RawRule) with name := some "inner" })] }] }

theorem aheadSource_links : (ofSource aheadSource).toOption.isSome := by decide +kernel

/-- The grammar of the two letters. -/
def ahead : Grammar := (ofSource aheadSource).toOption.get aheadSource_links

/-- The state at the start of a text. -/
def aheadStart : ScanState :=
  ⟨ahead.rootStack.toOption.get (by decide +kernel), 0, none, true, .empty⟩

/-- The rule at a place, where it has a pattern and no region. -/
def matching? (g : Grammar) (r : RuleRef) : Option MatchRule :=
  match g.rule? r with
  | some (.matching rule) => some rule
  | _ => none

/-- The match of a rule without a region comes next and is applied. -/
theorem takes_of_matching? {g : Grammar} {w : Scan} {s : ScanState} {r : RuleRef}
    {rule : MatchRule} {m : Match} {p : Progress} (hg : w.grammar = g)
    (hrule : g.matching? r = some rule)
    (hm : ((w.place s).nextMatch w.grammar s.stack).toOption = some (some (.rule r, m)))
    (hp : (w.applyCandidate s m (.rule r)).toOption = some p) :
    w.Takes s .matching r rule.captures m p.state.run := by
  have hm := Except.eq_ok_of_toOption hm
  refine .matching (.matched hm ?_) hm (Except.eq_ok_of_toOption hp)
  rw [hg]
  unfold matching? at hrule
  split at hrule
  · next heq =>
    cases hrule
    exact heq
  · cases hrule

/-- A line with the second letter alone. -/
def loneLine : Scan := ahead.lineScan 1 "b"

/-- The match of the second letter, which is its one group. -/
def loneMatch : Match := ⟨0, 1, [some ⟨0, 1⟩, some ⟨0, 1⟩]⟩

/-- The rule of the second letter. -/
def loneRule : MatchRule := (ahead.matching? ⟨"source.t", 3⟩).get (by decide +kernel)

/-- The state after the second letter. -/
def loneTaken : Progress :=
  (loneLine.applyCandidate aheadStart loneMatch (.rule ⟨"source.t", 3⟩)).toOption.get
    (by decide +kernel)

/-- After the letter, whose group ends with it, the tokens end with the letter. -/
theorem takes_reaches_letter :
    loneLine.nested = loneLine.grammar.scanCaptured loneLine.text 1 ∧
    loneLine.Takes aheadStart .matching ⟨"source.t", 3⟩ loneRule.captures loneMatch
      loneTaken.state.run ∧
    loneTaken.state.run.stop = 1 := by
  have htakes : loneLine.Takes aheadStart .matching ⟨"source.t", 3⟩ loneRule.captures
      loneMatch loneTaken.state.run :=
    takes_of_matching? (by rw [loneLine, lineScan]) (Option.some_get _).symm (by decide +kernel)
      (Option.some_get _).symm
  have hnested : loneLine.nested = loneLine.grammar.scanCaptured loneLine.text 1 := by
    rw [loneLine, lineScan]
  refine ⟨hnested, htakes, (takes_reaches hnested htakes).2 ?_⟩
  intro id span hpair
  have hspan : some span ∈ loneMatch.groups := (List.of_mem_zip hpair).2
  simp only [loneMatch, List.mem_cons, Option.some.injEq, List.not_mem_nil, or_false, or_self]
    at hspan
  rw [hspan]
  exact Nat.le_refl 1

/-- A line with both letters. -/
def aheadLine : Scan := ahead.lineScan 1 "ab"

/-- The match of the first letter, and the group behind it. -/
def aheadMatch : Match := ⟨0, 1, [some ⟨0, 1⟩, some ⟨1, 2⟩]⟩

/-- The rule of the first letter. -/
def aheadRule : MatchRule := (ahead.matching? ⟨"source.t", 1⟩).get (by decide +kernel)

/-- The state after the first letter. -/
def aheadTaken : Progress :=
  (aheadLine.applyCandidate aheadStart aheadMatch (.rule ⟨"source.t", 1⟩)).toOption.get
    (by decide +kernel)

/-- After the first letter the tokens end behind the second one, which the match does not take in.
So the match of the second letter, which comes next, has no token. -/
theorem ahead_swallows_next :
    aheadLine.Takes aheadStart .matching ⟨"source.t", 1⟩ aheadRule.captures aheadMatch
      aheadTaken.state.run ∧
    max aheadStart.run.stop aheadMatch.stop = 1 ∧ aheadTaken.state.run.stop = 2 ∧
    (ahead.tokenizeLineWithin 1 "ab" []).tokens =
      [⟨0, 1, ["source.t"]⟩, ⟨1, 2, ["source.t", "ahead"]⟩] ∧
    (ahead.tokenizeLineWithin 1 "b" []).tokens = [⟨0, 1, ["source.t", "letter", "inner"]⟩] := by
  have htakes : aheadLine.Takes aheadStart .matching ⟨"source.t", 1⟩ aheadRule.captures aheadMatch
      aheadTaken.state.run :=
    takes_of_matching? (by rw [aheadLine, lineScan]) (Option.some_get _).symm (by decide +kernel)
      (Option.some_get _).symm
  exact ⟨htakes, by decide +kernel, by decide +kernel, by decide +kernel, by decide +kernel⟩

end Grammar

end Highlight
