import Highlight.Proofs.LinkedGrammar
import Highlight.Proofs.LineTiling

/-!
# The regions open at the end of a line

What one line hands to the next is a stack that a scan has built frame by frame. `Opened` says how
such a stack looks: the root of the grammar lies at the bottom, and every other frame fits the
frames below it (`Frame.OpenedOn`). The root is never left, because a group has no end
(`Over.leave`).

Positions are cleared from the top of the stack down to the first frame that has none. That clears
the whole stack, because frames below a clean frame are clean (`Settled`): a frame that is pushed
holds the position it is pushed at, and no other step touches a position. `Applied.scanned` is the
step for both properties, `scanLine_scanned` the run, `Reached.atLineEnd` the induction over lines.

The scopes of tokens need less of the stack, and need it also where captured text is scanned on a
frame of its own: `stackLaw_based`.
-/

namespace Highlight

/-- What a region holds of its end: a pattern with captured text in it, where its rule refers to
such text. -/
def EndPattern.Resolved : EndPattern → Option Pattern → Prop
  | .fixed _, p => p = none
  | .dynamic source, p => ∃ text groups q, p = some q ∧
      Pattern.compile (resolveReferences source text groups) = .ok q

namespace Frame

/-- The frame that a text starts on. -/
structure IsRoot (g : Grammar) (f : Frame) : Prop where
  depth : f.depth = 1
  rule : g.root? g.scopeName = some f.rule
  endPattern : f.endPattern = none
  nameScopes : f.nameScopes = [g.scopeName]
  contentScopes : f.contentScopes = [g.scopeName]

/-- A frame that a begin match can have put on top of the frames below it. -/
structure OpenedOn (g : Grammar) (below : RuleStack) (f : Frame) : Prop where
  depth : f.depth = below.length + 1
  region : ∃ region, g.region? f.rule = some region ∧ region.close.Resolved f.endPattern
  outer : below.scopes <+: f.nameScopes
  inner : f.nameScopes <+: f.contentScopes

end Frame

namespace RuleStack

variable {g : Grammar} {fits : RuleStack → Frame → Prop} {s below : RuleStack} {f : Frame}

/-- The root of the grammar lies at the bottom, and each other frame fits the frames below it. -/
def Over (g : Grammar) (fits : RuleStack → Frame → Prop) : RuleStack → Prop
  | [] => False
  | [f] => f.IsRoot g
  | f :: f' :: below => fits (f' :: below) f ∧ Over g fits (f' :: below)

/-- A stack of regions, each opened inside the one below it. -/
def Opened (g : Grammar) : RuleStack → Prop := Over g (Frame.OpenedOn g)

/-- Frames below a frame without positions have none either. -/
def Settled : RuleStack → Prop
  | [] => True
  | f :: below => (f.isClean → ∀ f' ∈ below, f'.isClean) ∧ Settled below

/-- A stack in the middle of a line. -/
structure Scanned (g : Grammar) (s : RuleStack) : Prop where
  opened : s.Opened g
  settled : s.Settled

/-- A stack at the end of a line. -/
structure AtLineEnd (g : Grammar) (s : RuleStack) : Prop where
  opened : s.Opened g
  clean : ∀ f ∈ s, f.enterPos = none ∧ f.anchorPos = none

/-! ## Stacks over a root -/

theorem Over.ne_nil (h : Over g fits s) : s ≠ [] := by
  rintro rfl
  exact h

theorem Over.cons (hfit : fits s f) (h : Over g fits s) : Over g fits (f :: s) := by
  cases s with
  | nil => exact h.elim
  | cons f' below => exact ⟨hfit, h⟩

theorem Over.cases (h : Over g fits (f :: below)) :
    (below = [] ∧ f.IsRoot g) ∨ (fits below f ∧ Over g fits below) := by
  cases below with
  | nil => exact .inl ⟨rfl, h⟩
  | cons f' below => exact .inr h

theorem Over.suffix (hsuffix : f :: below <:+ s) (h : Over g fits s) :
    Over g fits (f :: below) := by
  induction s with
  | nil => exact h.elim
  | cons f' s ih =>
    rcases List.suffix_cons_iff.1 hsuffix with heq | hsuffix
    · rwa [heq]
    · -- there is nothing below the root
      rcases h.cases with ⟨rfl, _⟩ | ⟨_, h⟩
      · simp at hsuffix
      · exact ih hsuffix h

/-- The frame of a region is not the root, so there are frames below it. -/
theorem Over.leave (hg : g.Linked) {region : Rule.Region} (h : Over g fits (f :: below))
    (hregion : g.region? f.rule = some region) : Over g fits below := by
  rcases h.cases with ⟨_, hroot⟩ | ⟨_, h⟩
  · -- the root of a linked grammar is a group, which opens no region
    obtain ⟨r, rule, hr, hrule⟩ := hg.root
    have heq : f.rule = r := Option.some.inj (hroot.rule.symm.trans hr)
    rw [heq, Grammar.region?, hrule] at hregion
    cases hregion
  · exact h

theorem Over.safePop (h : Over g fits s) : Over g fits s.safePop := by
  cases s with
  | nil => exact h.elim
  | cons f below =>
    rcases h.cases with ⟨rfl, hroot⟩ | ⟨_, hbelow⟩
    · have hdepth : ¬1 < depth [f] := by
        rw [depth, hroot.depth]
        exact Nat.lt_irrefl 1
      rwa [RuleStack.safePop, if_neg hdepth]
    · unfold RuleStack.safePop
      split
      · exact hbelow
      · exact h

theorem Over.atEnd (hfits : fits below f → fits below f.atEnd) (h : Over g fits (f :: below)) :
    Over g fits (f.atEnd :: below) := by
  rcases h.cases with ⟨rfl, hroot⟩ | ⟨hfit, h⟩
  · exact ⟨hroot.depth, hroot.rule, hroot.endPattern, hroot.nameScopes, hroot.nameScopes⟩
  · exact h.cons (hfits hfit)

/-! ## Opened stacks -/

theorem Opened.depth_eq (h : s.Opened g) : s.depth = s.length := by
  cases s with
  | nil => exact h.elim
  | cons f below =>
    rcases Over.cases h with ⟨rfl, hroot⟩ | ⟨hfit, _⟩
    · exact hroot.depth
    · exact hfit.depth

theorem Opened.push {region : Rule.Region} (h : s.Opened g)
    (hregion : g.region? f.rule = some region) (hclose : region.close.Resolved f.endPattern)
    (houter : s.scopes <+: f.nameScopes) (hinner : f.nameScopes <+: f.contentScopes) :
    (s.push f).Opened g := by
  refine Over.cons ⟨?_, ⟨region, hregion, hclose⟩, houter, hinner⟩ h
  rw [h.depth_eq]

theorem Opened.atEnd (h : Opened g (f :: below)) : Opened g (f.atEnd :: below) := by
  refine Over.atEnd (fun hfit => ?_) h
  exact ⟨hfit.depth, hfit.region, hfit.outer, List.prefix_rfl⟩

theorem cleared_opened (h : Opened g s) : Opened g s.clearPositions := by
  -- the frames above see the same scopes and the same number of frames below them
  have hscopes : ∀ s : RuleStack, s.clearPositions.scopes = s.scopes ∧
      s.clearPositions.length = s.length := by
    intro s
    induction s with
    | nil => exact ⟨rfl, rfl⟩
    | cons f below ih =>
      unfold clearPositions
      split
      · exact ⟨rfl, rfl⟩
      · exact ⟨rfl, congrArg (· + 1) ih.2⟩
  induction s with
  | nil => exact h
  | cons f below ih =>
    unfold clearPositions
    split
    · exact h
    · rcases Over.cases h with ⟨rfl, hroot⟩ | ⟨hfit, hbelow⟩
      · exact ⟨hroot.depth, hroot.rule, hroot.endPattern, hroot.nameScopes, hroot.contentScopes⟩
      · refine Over.cons ⟨?_, hfit.region, ?_, hfit.inner⟩ (ih hbelow)
        · rw [(hscopes below).2]
          exact hfit.depth
        · rw [(hscopes below).1]
          exact hfit.outer

/-! ## Positions -/

theorem settled_of_clean : ∀ {s : RuleStack}, (∀ f ∈ s, f.isClean) → s.Settled
  | [], _ => trivial
  | f :: _, h =>
    have hbelow := fun f' hf' => h f' (List.mem_cons_of_mem f hf')
    ⟨fun _ => hbelow, settled_of_clean hbelow⟩

theorem Settled.suffix {t : RuleStack} (hsuffix : t <:+ s) (h : s.Settled) : t.Settled := by
  induction s with
  | nil => rwa [List.suffix_nil.1 hsuffix]
  | cons f below ih =>
    rcases List.suffix_cons_iff.1 hsuffix with rfl | hsuffix
    · exact h
    · exact ih hsuffix h.2

/-- A frame that holds the position it is pushed at makes no demand on the frames below. -/
theorem Settled.push {position : Nat} (henter : f.enterPos = some position) (h : s.Settled) :
    (s.push f).Settled := by
  refine ⟨fun hclean => ?_, h⟩
  simp [Frame.isClean, henter] at hclean

theorem safePop_suffix (s : RuleStack) : s.safePop <:+ s := by
  unfold safePop
  split
  · exact List.tail_suffix s
  · exact List.suffix_rfl

/-- Clearing stops at the first clean frame, and leaves no position behind. -/
theorem clearPositions_clean (h : s.Settled) :
    ∀ f ∈ s.clearPositions, f.enterPos = none ∧ f.anchorPos = none := by
  induction s with
  | nil => simp [clearPositions]
  | cons f below ih =>
    unfold clearPositions
    split
    · -- clearing stops here: the frames below are clean because this one is
      rename_i hclean
      intro f' hf'
      have hf'clean : f'.isClean := by
        rcases List.mem_cons.1 hf' with rfl | hf'
        · exact hclean
        · exact h.1 hclean f' hf'
      simpa [Frame.isClean] using hf'clean
    · intro f' hf'
      rcases List.mem_cons.1 hf' with rfl | hf'
      · exact ⟨rfl, rfl⟩
      · exact ih h.2 f' hf'

theorem Scanned.atLineEnd (h : s.Scanned g) : s.clearPositions.AtLineEnd g :=
  ⟨cleared_opened h.opened, clearPositions_clean h.settled⟩

theorem AtLineEnd.scanned (h : s.AtLineEnd g) : s.Scanned g := by
  refine ⟨h.opened, settled_of_clean fun f hf => ?_⟩
  obtain ⟨henter, hanchor⟩ := h.clean f hf
  simp [Frame.isClean, henter, hanchor]

end RuleStack
/-! ## Scans -/

namespace Scan

open RuleStack (Scanned)

variable {w : Scan} {s s' : ScanState} {m : Match}

theorem resolveEnd_resolved {e : EndPattern} {p : Option Pattern} (h : w.resolveEnd m e = .ok p) :
    e.Resolved p := by
  unfold resolveEnd at h
  split at h
  · cases h
    rfl
  · split at h
    · rename_i q hq
      cases h
      exact ⟨w.text, m.groups, q, rfl, hq⟩
    · cases h

/-- A match leads from a stack of regions to a stack of regions. -/
theorem Applied.scanned (hg : w.grammar.Linked) {c : Candidate} {p : Progress}
    (h : w.Applied s m c p) (hs : s.stack.Scanned w.grammar) : p.state.stack.Scanned w.grammar := by
  obtain ⟨hopened, hsettled⟩ := hs
  cases h with
  | ended hstack hrule =>
    rw [hstack] at hopened hsettled
    exact ⟨hopened.leave hg (Grammar.region?_beginEnd hrule), hsettled.2⟩
  | kept hstack =>
    rw [hstack] at hopened hsettled
    exact ⟨hopened.atEnd, hsettled⟩
  | matched => exact ⟨hopened, hsettled⟩
  | idle => exact ⟨hopened.safePop, hsettled.suffix (RuleStack.safePop_suffix _)⟩
  | opened hregion hclose =>
    refine ⟨hopened.push hregion (resolveEnd_resolved hclose) ?_ ?_, hsettled.push rfl⟩
    · exact List.prefix_append _ _
    · exact List.prefix_append _ _
  | reentered => exact ⟨hopened, hsettled⟩

theorem step_scanned (hg : w.grammar.Linked) {q : Progress} (hs : s.stack.Scanned w.grammar)
    (h : w.step s = .ok q) : q.state.stack.Scanned w.grammar := by
  rcases step_cases h with ⟨_, rfl⟩ | ⟨c, m, p, _, happ, rfl⟩
  · exact hs
  · rw [afterMatch_stack]
    exact happ.scanned hg hs

theorem steps_scanned (hg : w.grammar.Linked) {n : Nat} (hs : s.stack.Scanned w.grammar)
    (h : w.steps n s = .ok s') : s'.stack.Scanned w.grammar := by
  refine steps_keep (P := (·.stack.Scanned w.grammar)) ?_ hs h
  intro t q ht hstep
  exact step_scanned hg ht hstep

theorem enterLine_scanned (hg : w.grammar.Linked) (hs : s.stack.Scanned w.grammar)
    (h : w.enterLine s = .ok s') : s'.stack.Scanned w.grammar := by
  rcases enterLine_stack h with heq | ⟨f, below, region, hsuffix, hregion, heq⟩
  · rwa [heq]
  · rw [heq]
    refine ⟨(hs.opened.suffix hsuffix).leave hg hregion, hs.settled.suffix ?_⟩
    exact (List.suffix_cons f below).trans hsuffix

end Scan

namespace Grammar

variable {g : Grammar} {s t : RuleStack}

theorem scanLine_scanned (hg : g.Linked) {levels : Nat} {text : Subject} {atStart : Bool}
    {s' : ScanState} (hs : s.Scanned g) (h : g.scanLine levels text s atStart = .ok s') :
    s'.stack.Scanned g := by
  simp only [scanLine] at h
  obtain ⟨t, ht, h⟩ := Except.bind_eq_ok.1 h
  have htstack := Scan.enterLine_scanned hg hs ht
  exact Scan.steps_scanned hg htstack h

/-! ## Lines -/

/-- The stacks that the lines of texts lead to, whatever the texts are and however deep captured
texts may be scanned. -/
inductive Reached (g : Grammar) : RuleStack → Prop
  | initial : Reached g .initial
  | line {s : RuleStack} (levels : Nat) (line : String) (h : Reached g s) :
      Reached g (g.tokenizeLineWithin levels line s).stack

theorem rootStack_atLineEnd (h : g.rootStack = .ok s) : s.AtLineEnd g := by
  unfold rootStack at h
  split at h
  · cases h
  · rename_i r hr
    cases h
    refine ⟨⟨rfl, hr, rfl, rfl, rfl⟩, ?_⟩
    intro f hf
    cases List.mem_singleton.1 hf
    exact ⟨rfl, rfl⟩

theorem startStack_atLineEnd (hs : s = [] ∨ s.AtLineEnd g) (h : g.startStack s = .ok t) :
    t.AtLineEnd g := by
  unfold startStack at h
  split at h
  · exact rootStack_atLineEnd h
  · rename_i hne
    cases h
    rcases hs with rfl | hs
    · exact absurd rfl hne
    · exact hs

theorem tryTokenizeLine_atLineEnd (hg : g.Linked) (hs : s = [] ∨ s.AtLineEnd g) {levels : Nat}
    {line : String} {t : LineTokens} (h : g.tryTokenizeLine levels line s = .ok t) :
    t.stack.AtLineEnd g := by
  obtain ⟨start, s', hstart, hscan, rfl⟩ := tryTokenizeLine_eq_ok.1 h
  have hscanned := scanLine_scanned hg (startStack_atLineEnd hs hstart).scanned hscan
  exact hscanned.atLineEnd

/-- A line that cannot be scanned leaves the stack as it was, which is empty before the first line
that can. -/
theorem Reached.atLineEnd (hg : g.Linked) (h : g.Reached s) : s = [] ∨ s.AtLineEnd g := by
  induction h with
  | initial => exact .inl rfl
  | line levels line _ ih =>
    unfold tokenizeLineWithin
    split
    · rename_i t ht
      exact .inr (tryTokenizeLine_atLineEnd hg ih ht)
    · exact ih

/-! ## Scopes -/

/-- A stack over the root with scopes that begin with the name of the grammar. -/
def Based (g : Grammar) : RuleStack → Prop :=
  RuleStack.Over g fun _ f => [g.scopeName] <+: f.nameScopes ∧ [g.scopeName] <+: f.contentScopes

theorem Based.top {f : Frame} (h : g.Based (f :: s)) :
    [g.scopeName] <+: f.nameScopes ∧ [g.scopeName] <+: f.contentScopes := by
  rcases RuleStack.Over.cases h with ⟨_, hroot⟩ | ⟨hfit, _⟩
  · rw [hroot.nameScopes, hroot.contentScopes]
    exact ⟨List.prefix_rfl, List.prefix_rfl⟩
  · exact hfit

theorem Based.scopes (h : g.Based s) : [g.scopeName] <+: s.scopes := by
  cases s with
  | nil => exact h.elim
  | cons f below => exact h.top.2

theorem stackLaw_based (hg : g.Linked) : StackLaw g ([g.scopeName] <+: ·) g.Based where
  scopes h := h.scopes
  extend h := h.trans (List.prefix_append _ _)
  push h hname hcontent := RuleStack.Over.cons ⟨hname, hcontent⟩ h
  atEnd h := RuleStack.Over.atEnd (fun hfit => ⟨hfit.1, hfit.1⟩) h
  leave h hregion := RuleStack.Over.leave hg h hregion
  safePop h := RuleStack.Over.safePop h
  suffix h hsuffix := RuleStack.Over.suffix hsuffix h

theorem based_of_opened : ∀ {s : RuleStack}, s.Opened g → g.Based s
  | [], h => h
  | [_], h => h
  | _ :: _ :: _, ⟨hfit, h⟩ => by
    have hbelow := based_of_opened h
    have hname := hbelow.scopes.trans hfit.outer
    exact RuleStack.Over.cons ⟨hname, hname.trans hfit.inner⟩ hbelow

theorem tryTokenizeLine_based (hg : g.Linked) (hs : s = [] ∨ s.AtLineEnd g) {levels : Nat}
    {line : String} {t : LineTokens} (h : g.tryTokenizeLine levels line s = .ok t) :
    ∀ u ∈ t.tokens, [g.scopeName] <+: u.scopes := by
  obtain ⟨start, s', hstart, hscan, rfl⟩ := tryTokenizeLine_eq_ok.1 h
  have hbased := based_of_opened (startStack_atLineEnd hs hstart).opened
  have hgood := (scanLine_lawful (stackLaw_based hg) hbased hscan).2.good (by simp [TokenRun.Good,
    TokenRun.empty])
  intro u hu
  obtain ⟨v, hv, rfl⟩ := List.mem_map.1 hu
  exact TokenRun.finish_good hgood (scanLine_tokens_ne_nil hscan (by simp [Subject.ofList,
    Subject.size])) v hv

theorem wholeLine_based (hs : s = [] ∨ s.AtLineEnd g) {line : String} :
    ∀ u ∈ (g.wholeLine line s).tokens, [g.scopeName] <+: u.scopes := by
  intro u hu
  cases List.mem_singleton.1 hu
  rcases hs with rfl | hs
  · exact List.prefix_rfl
  · have hne : s.isEmpty = false := by
      rw [List.isEmpty_eq_false_iff]
      exact hs.opened.ne_nil
    simp only [hne]
    exact (based_of_opened hs.opened).scopes

/-- After a line that can be scanned, the stack is one of regions opened inside each other over the
root of the grammar, without positions. All tokens have scopes that begin with the name of the
grammar, also those of a line that cannot be scanned. -/
theorem reached_line_regions (hg : g.Linked) (hs : g.Reached s) (levels : Nat) (line : String) :
    (∀ t, g.tryTokenizeLine levels line s = .ok t → t.stack.AtLineEnd g) ∧
      ∀ u ∈ (g.tokenizeLineWithin levels line s).tokens, [g.scopeName] <+: u.scopes := by
  have hs := hs.atLineEnd hg
  refine ⟨fun t ht => tryTokenizeLine_atLineEnd hg hs ht, ?_⟩
  unfold tokenizeLineWithin
  split
  · rename_i t ht
    exact tryTokenizeLine_based hg hs ht
  · exact wholeLine_based hs

/-- The stack after a line in which a string opens and does not end. -/
def stringOpen : RuleStack := (quotes.tokenizeLineWithin 1 "a\"b" []).stack

theorem reached_stringOpen : quotes.Reached stringOpen := Reached.initial.line 1 "a\"b"

/-- A string that goes on to the next line, which its other kind of mark does not end. -/
theorem reached_line_regions_stringOpen : stringOpen.length = 2 ∧
    (∃ t, quotes.tryTokenizeLine 1 "c'd" stringOpen = .ok t ∧ t.stack.length = 2 ∧
      t.stack.AtLineEnd quotes) ∧
    ∀ u ∈ (quotes.tokenizeLineWithin 1 "c'd" stringOpen).tokens,
      [quotes.scopeName] <+: u.scopes := by
  obtain ⟨hstack, htokens⟩ := reached_line_regions quotes_linked reached_stringOpen 1 "c'd"
  have hline : (quotes.tryTokenizeLine 1 "c'd" stringOpen).toOption.any (·.stack.length = 2) := by
    decide +kernel
  refine ⟨by decide +kernel, ?_, htokens⟩
  cases ht : quotes.tryTokenizeLine 1 "c'd" stringOpen with
  | error e =>
    rw [ht] at hline
    cases hline
  | ok t =>
    rw [ht] at hline
    exact ⟨t, rfl, of_decide_eq_true hline, hstack t ht⟩

end Grammar

end Highlight
