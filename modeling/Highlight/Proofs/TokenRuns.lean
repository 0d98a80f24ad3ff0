import Highlight.Proofs.ScanSteps

/-!
# How runs of tokens grow

All that a scan does to the tokens of a line is to extend them, stretch by stretch, to a further
position. `Grows good` says so of two runs, where the scopes of each stretch are `good`. Which
scopes a scan can give is a matter of the stacks it works on: a `StackLaw` is a property of stacks
that opening, ending and leaving regions keeps, together with what it says of the scopes at the top.
A scan on a lawful stack ends with a lawful stack and extends the tokens by good scopes only
(`scanLine_lawful`), through captures at any depth.
-/

namespace Highlight

namespace TokenRun

/-- `run'` is `run` extended any number of times, each time with good scopes. -/
inductive Grows (good : ScopePath → Prop) (run : TokenRun) : TokenRun → Prop
  | refl : Grows good run run
  | produce {run' : TokenRun} {stop : Nat} {scopes : ScopePath} (hgrow : Grows good run run')
      (hgood : good scopes) : Grows good run (run'.produce stop scopes)

namespace Grows

variable {good : ScopePath → Prop} {a b c : TokenRun}

theorem trans (hab : Grows good a b) (hbc : Grows good b c) : Grows good a c := by
  induction hbc with
  | refl => exact hab
  | produce _ hgood ih => exact ih.produce hgood

theorem single {stop : Nat} {scopes : ScopePath} (hgood : good scopes) :
    Grows good a (a.produce stop scopes) := Grows.refl.produce hgood

/-- A property of runs that every extension keeps. -/
theorem keeps {P : TokenRun → Prop}
    (hstep : ∀ run stop scopes, good scopes → P run → P (run.produce stop scopes))
    (h : Grows good a b) (ha : P a) : P b := by
  induction h with
  | refl => exact ha
  | produce _ hgood ih => exact hstep _ _ _ hgood ih

end Grows

/-- The scopes of the tokens in a run are good. -/
def Good (good : ScopePath → Prop) (run : TokenRun) : Prop := ∀ t ∈ run.tokens, good t.scopes

theorem Grows.good {good : ScopePath → Prop} {run run' : TokenRun} (h : Grows good run run')
    (hrun : run.Good good) : run'.Good good := by
  refine h.keeps ?_ hrun
  intro run stop scopes hscopes hrun
  unfold TokenRun.produce
  split
  · exact hrun
  · intro t ht
    rcases List.mem_cons.1 ht with rfl | ht
    · exact hscopes
    · exact hrun t ht

/-- The tokens of a line have scopes of tokens in the run, also the token of an empty line. -/
theorem finish_good {good : ScopePath → Prop} {run : TokenRun} {size : Nat} (hrun : run.Good good)
    (hne : run.tokens ≠ []) : ∀ t ∈ run.finish size, good t.scopes := by
  obtain ⟨last, before, htokens⟩ := List.exists_cons_of_ne_nil hne
  have hkept : ∀ t ∈ run.tokens.filter (·.start < size), good t.scopes := fun t ht =>
    hrun t (List.mem_filter.1 ht).1
  unfold finish
  generalize run.tokens.filter (·.start < size) = kept at hkept
  intro t ht
  cases kept with
  | nil =>
    rw [htokens] at ht
    cases List.mem_singleton.1 ht
    exact hrun last (htokens ▸ List.mem_cons_self)
  | cons u us =>
    rcases List.mem_cons.1 (List.mem_reverse.1 ht) with rfl | ht
    · exact hkept u List.mem_cons_self
    · exact hkept t (List.mem_cons_of_mem u ht)

end TokenRun

/-- A property of stacks that scanning keeps, and what it makes sure of for the scopes at the top.
Good scopes stay good when names are added to them. -/
structure StackLaw (g : Grammar) (good : ScopePath → Prop) (lawful : RuleStack → Prop) : Prop where
  scopes : ∀ {s : RuleStack}, lawful s → good s.scopes
  extend : ∀ {a b : ScopePath}, good a → good (a ++ b)
  push : ∀ {s : RuleStack} {f : Frame}, lawful s → good f.nameScopes → good f.contentScopes →
    lawful (s.push f)
  atEnd : ∀ {f : Frame} {below : RuleStack}, lawful (f :: below) → lawful (f.atEnd :: below)
  /-- A frame can be left by its end or its continuation. -/
  leave : ∀ {f : Frame} {below : RuleStack} {region : Rule.Region}, lawful (f :: below) →
    g.region? f.rule = some region → lawful below
  safePop : ∀ {s : RuleStack}, lawful s → lawful s.safePop
  /-- The frames inside some frame can be left together. -/
  suffix : ∀ {f : Frame} {s below : RuleStack}, lawful s → f :: below <:+ s → lawful (f :: below)

namespace Scan

open TokenRun (Grows)

variable {w : Scan} {good : ScopePath → Prop} {lawful : RuleStack → Prop}

/-- Nested scans on lawful stacks extend the tokens by good scopes. -/
def NestedGrows (good : ScopePath → Prop) (lawful : RuleStack → Prop) (nested : NestedScan) :
    Prop :=
  ∀ (stack : RuleStack) (start stop : Nat) (atStart : Bool) (run run' : TokenRun), lawful stack →
    nested stack start stop atStart run = .ok run' → Grows good run run'

/-! ## Captures -/

theorem closeBefore_grows (start : Nat) : ∀ {opened : Open} (run : TokenRun),
    (∀ e ∈ opened, good e.1) → Grows good run (closeBefore start opened run).2 ∧
      ∀ e ∈ (closeBefore start opened run).1, good e.1
  | [], _, h => ⟨.refl, h⟩
  | (scopes, stop) :: rest, run, h => by
    have hrest : ∀ e ∈ rest, good e.1 := fun e he => h e (List.mem_cons_of_mem _ he)
    simp only [closeBefore]
    split
    · obtain ⟨hgrow, hopen⟩ := closeBefore_grows start (run.produce stop scopes) hrest
      exact ⟨(Grows.single (h _ List.mem_cons_self)).trans hgrow, hopen⟩
    · exact ⟨.refl, h⟩

theorem closeAll_grows : ∀ {opened : Open} {run : TokenRun}, (∀ e ∈ opened, good e.1) →
    Grows good run (closeAll opened run)
  | [], _, _ => .refl
  | (scopes, stop) :: rest, run, h => by
    have hrest : ∀ e ∈ rest, good e.1 := fun e he => h e (List.mem_cons_of_mem _ he)
    exact (Grows.single (h _ List.mem_cons_self)).trans (closeAll_grows hrest)

theorem base_good {stack : RuleStack} {opened : Open} (hstack : good stack.scopes)
    (hopen : ∀ e ∈ opened, good e.1) : good (base stack opened) := by
  cases opened with
  | nil => exact hstack
  | cons e rest => exact hopen e List.mem_cons_self

theorem resolvePairs_grows (law : StackLaw w.grammar good lawful)
    (hnested : NestedGrows good lawful w.nested) {stack : RuleStack} {owner : ScopeName}
    {atStart : Bool} {m : Match} (hstack : lawful stack) :
    ∀ {pairs : List (Option RuleId × Option Span)} {opened : Open} {run run' : TokenRun},
      (∀ e ∈ opened, good e.1) →
      w.resolvePairs stack owner atStart m opened run pairs = .ok run' → Grows good run run' := by
  intro pairs
  induction pairs with
  | nil =>
    intro opened run run' hopen h
    cases h
    exact closeAll_grows hopen
  | cons pair pairs ih =>
    intro opened run run' hopen h
    rcases idle_or pair with hidle | ⟨id, span, rfl, hspan⟩
    · rw [resolvePairs_idle hidle] at h
      exact ih hopen h
    · obtain ⟨rule, hrule⟩ := exists_rule_of_resolvePairs hspan h
      obtain ⟨hclosed, hopen'⟩ := closeBefore_grows span.start run hopen
      have hbase := base_good (law.scopes hstack) hopen'
      have hgap : Grows good run ((closeBefore span.start opened run).2.produce span.start
          (base stack (closeBefore span.start opened run).1)) := hclosed.produce hbase
      by_cases hleaf : rule.children = []
      · -- the captured text has a name only: its scopes stay open
        rw [resolvePairs_plain hspan hrule hleaf] at h
        refine hgap.trans (ih ?_ h)
        split
        · exact hopen'
        · intro e he
          rcases List.mem_cons.1 he with rfl | he
          · exact law.extend hbase
          · exact hopen' e he
      · -- the captured text is scanned as a region of its own
        rw [resolvePairs_inside hspan hrule hleaf] at h
        obtain ⟨inner, hinner, h⟩ := Except.bind_eq_ok.1 h
        have hname := law.extend (b := w.expand m rule.name?) (law.scopes hstack)
        have hpush := law.push (f := w.captureFrame stack m ⟨owner, id⟩ rule span.start) hstack
          hname (law.extend hname)
        exact (hgap.trans (hnested _ _ _ _ _ _ hpush hinner)).trans (ih hopen' h)

theorem Captured.grows (law : StackLaw w.grammar good lawful)
    (hnested : NestedGrows good lawful w.nested) {stack : RuleStack} {owner : ScopeName}
    {rules : CaptureRules} {atStart : Bool} {m : Match} {run run' : TokenRun}
    (hstack : lawful stack) (h : w.Captured atStart stack owner rules m run run') :
    Grows good run run' := by
  obtain ⟨inner, hinner, rfl⟩ := h
  exact (resolvePairs_grows law hnested hstack (by simp) hinner).produce (law.scopes hstack)

/-! ## Steps -/

/-- A match leads from a lawful stack to a lawful stack. -/
theorem Applied.lawful_stack (law : StackLaw w.grammar good lawful) {s : ScanState} {m : Match}
    {c : Candidate} {p : Progress} (h : w.Applied s m c p) (hs : lawful s.stack) :
    lawful p.state.stack := by
  cases h with
  | ended hstack hrule =>
    rw [hstack] at hs
    exact law.leave hs (Grammar.region?_beginEnd hrule)
  | kept hstack =>
    rw [hstack] at hs
    exact law.atEnd hs
  | matched => exact hs
  | idle => exact law.safePop hs
  | opened =>
    exact law.push hs (law.extend (law.scopes hs)) (law.extend (law.extend (law.scopes hs)))
  | reentered => exact hs

theorem Applied.grows (law : StackLaw w.grammar good lawful)
    (hnested : NestedGrows good lawful w.nested) {s : ScanState} {m : Match} {c : Candidate}
    {p : Progress} (h : w.Applied s m c p) (hs : lawful s.stack) :
    Grows good s.run p.state.run := by
  have hstart : Grows good s.run (s.produce m.start).run := .single (law.scopes hs)
  have hopened : ∀ r name, lawful (s.stack.push (w.openedFrame s r name m)) := by
    intro r name
    exact law.push hs (law.extend (law.scopes hs)) (law.extend (law.scopes hs))
  cases h with
  | ended hstack _ hrun =>
    rw [hstack] at hs
    exact hstart.trans (hrun.grows law hnested (law.atEnd hs))
  | kept hstack _ hrun =>
    rw [hstack] at hs
    exact hstart.trans (hrun.grows law hnested (law.atEnd hs))
  | matched _ hrun => exact hstart.trans (hrun.grows law hnested (hopened _ _))
  | idle _ hrun => exact hstart.trans (hrun.grows law hnested (hopened _ _))
  | opened _ _ hrun => exact hstart.trans (hrun.grows law hnested (hopened _ _))
  | reentered _ hrun => exact hstart.trans (hrun.grows law hnested (hopened _ _))

/-- What a scan makes of a state: a lawful stack, and tokens that good scopes extend. -/
def Kept (good : ScopePath → Prop) (lawful : RuleStack → Prop) (s s' : ScanState) : Prop :=
  lawful s'.stack ∧ Grows good s.run s'.run

theorem step_kept (law : StackLaw w.grammar good lawful)
    (hnested : NestedGrows good lawful w.nested) {s : ScanState} {q : Progress}
    (hs : lawful s.stack) (h : w.step s = .ok q) : Kept good lawful s q.state := by
  rcases step_cases h with ⟨_, rfl⟩ | ⟨c, m, p, _, happ, rfl⟩
  · exact ⟨hs, .single (law.scopes hs)⟩
  · have hstack := happ.lawful_stack law hs
    have hgrow := happ.grows law hnested hs
    refine ⟨(afterMatch_stack w s m p).symm ▸ hstack, ?_⟩
    cases p with
    | done t => exact hgrow.trans (.single (law.scopes hstack))
    | more t =>
      simp only [afterMatch]
      split
      · exact hgrow
      · exact hgrow

theorem steps_kept (law : StackLaw w.grammar good lawful)
    (hnested : NestedGrows good lawful w.nested) {s s' : ScanState} {n : Nat}
    (hs : lawful s.stack) (h : w.steps n s = .ok s') : Kept good lawful s s' := by
  refine steps_keep (P := Kept good lawful s) ?_ ⟨hs, .refl⟩ h
  intro t q ht hq
  obtain ⟨hstack, hgrow⟩ := step_kept law hnested ht.1 hq
  exact ⟨hstack, ht.2.trans hgrow⟩

/-! ## Continued regions -/

theorem continueRegions_grows (law : StackLaw w.grammar good lawful)
    (hnested : NestedGrows good lawful w.nested) : ∀ {cs : List Continued} {s s' : ScanState},
      (∀ c ∈ cs, lawful (c.frame :: c.below)) → w.continueRegions s cs = .ok s' →
      Grows good s.run s'.run
  | [], s, s', _, h => by
    cases h
    exact .refl
  | c :: cs, s, s', hcs, h => by
    have hc := hcs c List.mem_cons_self
    rcases continueRegions_cases h with rfl | ⟨m, run, t, hrun, _, rfl, h⟩
    · exact .refl
    · have hgrow := (Grows.single (law.scopes hc)).trans (hrun.grows law hnested hc)
      have hrest := fun d hd => hcs d (List.mem_cons_of_mem c hd)
      exact hgrow.trans (continueRegions_grows law hnested hrest h)

theorem enterLine_kept (law : StackLaw w.grammar good lawful)
    (hnested : NestedGrows good lawful w.nested) {s s' : ScanState} (hs : lawful s.stack)
    (h : w.enterLine s = .ok s') : Kept good lawful s s' := by
  constructor
  · rcases enterLine_stack h with heq | ⟨f, below, region, hsuffix, hregion, heq⟩
    · rwa [heq]
    · rw [heq]
      exact law.leave (law.suffix hs hsuffix) hregion
  · simp only [enterLine] at h
    obtain ⟨cs, hcs, h⟩ := Except.bind_eq_ok.1 h
    have hlawful : ∀ c ∈ cs, lawful (c.frame :: c.below) := fun c hc =>
      law.suffix hs (mem_continued hcs c hc).1
    have hgrow := continueRegions_grows law hnested hlawful h
    exact hgrow

end Scan

namespace Grammar

variable {g : Grammar} {good : ScopePath → Prop} {lawful : RuleStack → Prop}

theorem scanCaptured_grows (law : StackLaw g good lawful) (text : Subject) : ∀ levels : Nat,
    Scan.NestedGrows good lawful (g.scanCaptured text levels)
  | 0 => by
    intro stack start stop atStart run run' _ h
    cases h
  | levels + 1 => by
    intro stack start stop atStart run run' hstack h
    simp only [scanCaptured] at h
    obtain ⟨s, hs, h⟩ := Except.bind_eq_ok.1 h
    cases h
    exact (Scan.steps_kept law (scanCaptured_grows law text levels) hstack hs).2

/-- A line that is scanned on a lawful stack ends with one, and its tokens have good scopes. -/
theorem scanLine_lawful (law : StackLaw g good lawful) {levels : Nat} {text : Subject}
    {stack : RuleStack} {atStart : Bool} {s : ScanState} (hstack : lawful stack)
    (h : g.scanLine levels text stack atStart = .ok s) :
    lawful s.stack ∧ TokenRun.Grows good .empty s.run := by
  simp only [scanLine] at h
  obtain ⟨t, ht, h⟩ := Except.bind_eq_ok.1 h
  have hnested := scanCaptured_grows law text levels
  obtain ⟨htstack, htgrow⟩ := Scan.enterLine_kept law hnested hstack ht
  obtain ⟨hsstack, hsgrow⟩ := Scan.steps_kept law hnested htstack h
  exact ⟨hsstack, htgrow.trans hsgrow⟩

end Grammar

end Highlight
