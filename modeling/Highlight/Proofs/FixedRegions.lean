import Highlight.Proofs.NestedRegions

/-!
# What a region keeps

From its begin match until it is left, a region keeps its rule, the pattern that ends it and the
scopes of its name, and all text scanned meanwhile has the scopes of its frame among its own. The
scopes of its content are another matter. Where the end of a region matches at the very place that
the region was opened at, and neither match consumes anything, the region is not left, but what
remains of it goes on as if its end had begun (`Grammar.GivesUp`). That is the only way for them to
change (`region_kept`), and `lookahead_loses_content` is a region where they do.

The frame of a region is followed by its height. A step of a scan or of a run over lines leaves a
frame as it is, clears its positions or gives it up; positions are cleared at the end of every line,
so a region that has got over one can no longer be given up.
-/

namespace Highlight

open Relation (ReflTransGen)

namespace RuleStack

/-- The frame lies on so many others. -/
def At (height : Nat) (f : Frame) (s : RuleStack) : Prop :=
  ∃ below : RuleStack, below.length = height ∧ f :: below <:+ s

variable {g : Grammar} {height : Nat} {f top : Frame} {s t below : RuleStack}

theorem At.mem (h : s.At height f) : f ∈ s := by
  obtain ⟨below, _, hsuffix⟩ := h
  exact hsuffix.subset List.mem_cons_self

theorem At.cons (h : s.At height f) (top : Frame) : At height f (top :: s) := by
  obtain ⟨below, hlength, hsuffix⟩ := h
  exact ⟨below, hlength, hsuffix.trans (List.suffix_cons top s)⟩

/-- Where frames are left, those stay that are low enough. -/
theorem At.suffix (h : s.At height f) (hsuffix : t <:+ s) (hheight : height < t.length) :
    t.At height f := by
  obtain ⟨below, rfl, hbelow⟩ := h
  exact ⟨below, rfl, List.suffix_of_suffix_length_le hbelow hsuffix hheight⟩

/-- A frame is the top of the stack, or lies in what is below it. -/
theorem At.cases (h : At height f (top :: below)) :
    (f = top ∧ below.length = height) ∨ below.At height f := by
  obtain ⟨lower, hlength, hsuffix⟩ := h
  rcases List.suffix_cons_iff.1 hsuffix with heq | hsuffix
  · cases heq
    exact .inl ⟨rfl, hlength⟩
  · exact .inr ⟨lower, hlength, hsuffix⟩

/-- The top lies on all others. -/
theorem at_top (h : s ≠ []) : ∃ f, s.At (s.length - 1) f ∧ f.contentScopes = s.scopes := by
  obtain ⟨top, below, rfl⟩ := List.exists_cons_of_ne_nil h
  exact ⟨top, ⟨below, rfl, List.suffix_rfl⟩, rfl⟩

theorem At.clearPositions (h : s.At height f) :
    s.clearPositions.At height f ∨ s.clearPositions.At height f.cleared := by
  induction s with
  | nil =>
    obtain ⟨_, _, hsuffix⟩ := h
    cases List.suffix_nil.1 hsuffix
  | cons top below ih =>
    unfold RuleStack.clearPositions
    split
    · exact .inl h
    · rcases h.cases with ⟨rfl, hlength⟩ | h
      · refine .inr ⟨_, ?_, List.suffix_rfl⟩
        rw [length_eq_of_same (clearPositions_same below), hlength]
      · rcases ih h with ⟨lower, hlength, hsuffix⟩ | ⟨lower, hlength, hsuffix⟩
        · exact .inl ⟨lower, hlength, hsuffix.trans (List.suffix_cons _ _)⟩
        · exact .inr ⟨lower, hlength, hsuffix.trans (List.suffix_cons _ _)⟩

/-- The scopes of a frame come first in those of all frames above it. -/
theorem Opened.scopes_of_at (h : s.Opened g) (hat : s.At height f) :
    f.contentScopes <+: s.scopes := by
  induction s with
  | nil => exact h.elim
  | cons top below ih =>
    rcases hat.cases with ⟨rfl, _⟩ | hat
    · exact List.prefix_rfl
    · rcases Over.cases h with ⟨rfl, _⟩ | ⟨hfit, hbelow⟩
      · cases hat.mem
      · exact (ih hbelow hat).trans (hfit.outer.trans hfit.inner)

end RuleStack

/-! ## Steps of a scan -/

namespace Scan

variable {w : Scan} {s s' : ScanState}

/-- A step after which the scan goes on opens a region or leaves one, or none, and does not go
back. -/
theorem more_stack (h : w.step s = .ok (.more s')) :
    (s'.stack <:+ s.stack ∨ ∃ f, s'.stack = s.stack.push f) ∧ s.position ≤ s'.position := by
  obtain ⟨c, m, t, _, happ, heq, hstack⟩ := step_more h
  refine ⟨?_, ?_⟩
  · rw [hstack]
    cases happ with
    | ended hs =>
      rw [hs]
      exact .inl (List.suffix_cons _ _)
    | matched => exact .inl List.suffix_rfl
    | opened => exact .inr ⟨_, rfl⟩
  · rw [heq]
    split
    · next hgo => exact Nat.le_of_lt hgo
    · exact Nat.le_of_eq happ.stays.1.symm

/-- A last step leaves a region or none, or its match is the end of a region that was opened here,
which stays. -/
theorem done_stack (h : w.step s = .ok (.done s')) : s'.stack <:+ s.stack ∨
    ∃ f below m, s.stack = f :: below ∧ s'.stack = f.atEnd :: below ∧
      f.enterPos = some s.position ∧
      (w.place s).nextMatch w.grammar s.stack = .ok (some (.ending, m)) := by
  rcases step_done h with heq | ⟨c, m, t, hmatch, happ, hstack⟩
  · rw [heq]
    exact .inl List.suffix_rfl
  · rw [hstack]
    cases happ with
    | kept hs _ _ _ henter => exact .inr ⟨_, _, m, hs, rfl, henter, hmatch⟩
    | idle => exact .inl (RuleStack.safePop_suffix _)
    | reentered => exact .inl List.suffix_rfl

end Scan

namespace Grammar

variable {g : Grammar} {height : Nat} {a b : Moment}

/-- The end of the region whose frame lies on `height` frames matches, and the region is not left:
the scan stops. -/
inductive GivesUp (height : Nat) : Moment → Moment → Prop
  | stays {w : Scan} {s s' : ScanState} {m : Match} (hheight : s.stack.length = height + 1)
      (hmatch : (w.place s).nextMatch w.grammar s.stack = .ok (some (.ending, m)))
      (hstep : w.step s = .ok (.done s')) : GivesUp height (.scanning w s) (.finished s')

/-! ## Moments of a run -/

/-- The stack is one of regions opened inside each other, and between two lines one without
positions. -/
def SoundMoment (g : Grammar) : Moment → Prop
  | .between stack => stack = [] ∨ stack.AtLineEnd g
  | .entering w s => w.grammar = g ∧ s.stack.Scanned g
  | .scanning w s => w.grammar = g ∧ s.stack.Scanned g
  | .finished s => s.stack.Scanned g

theorem Next.sound (hg : g.Linked) (h : g.Next a b) (ha : g.SoundMoment a) : g.SoundMoment b := by
  cases h with
  | begin levels line hstart => exact ⟨rfl, (startStack_atLineEnd ha hstart).scanned⟩
  | enter h =>
    obtain ⟨rfl, hs⟩ := ha
    exact ⟨rfl, Scan.enterLine_scanned hg hs h⟩
  | more h =>
    obtain ⟨rfl, hs⟩ := ha
    exact ⟨rfl, Scan.step_scanned hg hs h⟩
  | done h =>
    obtain ⟨rfl, hs⟩ := ha
    exact Scan.step_scanned hg hs h
  | finish => exact .inr ha.atLineEnd
  | abandon => exact ha

theorem sound_of_run (hg : g.Linked) (hrun : ReflTransGen g.Next a b) (ha : g.SoundMoment a) :
    g.SoundMoment b := by
  induction hrun with
  | refl => exact ha
  | tail _ hnext ih => exact hnext.sound hg ih

theorem SoundMoment.opened (h : g.SoundMoment a) (hne : a.stack ≠ []) : a.stack.Opened g := by
  cases a with
  | between stack =>
    rcases h with h | h
    · exact absurd h hne
    · exact h.opened
  | entering w s => exact h.2.opened
  | scanning w s => exact h.2.opened
  | finished s => exact h.opened

/-! ## The frame of a region -/

/-- What never changes of a frame while its region is open. -/
structure Keeps (f f' : Frame) : Prop where
  rule : f'.rule = f.rule
  endPattern : f'.endPattern = f.endPattern
  nameScopes : f'.nameScopes = f.nameScopes

/-- The scan still goes on, at or behind the position, or it is over and its line is not. -/
def SameLine (w : Scan) (position : Nat) : Moment → Prop
  | .scanning w' s => w' = w ∧ position ≤ s.position
  | .finished _ => True
  | _ => False

/-- What happens to a frame from one moment to the next while its region stays open. -/
inductive FrameStep (height : Nat) (f : Frame) (a b : Moment) : Frame → Prop
  | same (hline : ∀ w position, SameLine w position a → SameLine w position b) :
      FrameStep height f a b f
  /-- The line ends. -/
  | cleared {f' : Frame} (hkeeps : Keeps f f') (hcontent : f'.contentScopes = f.contentScopes)
      (hclean : f'.enterPos = none) : FrameStep height f a b f'
  | givenUp {w : Scan} {s s' : ScanState} (ha : a = .scanning w s) (hb : b = .finished s')
      (henter : f.enterPos = some s.position) (hgives : GivesUp height a b) :
      FrameStep height f a b f.atEnd

theorem Next.frameStep {f : Frame} (h : g.Next a b) (ha : g.SoundMoment a)
    (hat : a.stack.At height f) (hheight : height < b.stack.length) :
    ∃ f', b.stack.At height f' ∧ FrameStep height f a b f' := by
  cases h with
  | @begin stack start levels line hstart =>
    have hstack : start = stack := by
      have hne : stack.isEmpty = false :=
        List.isEmpty_eq_false_iff.2 (List.ne_nil_of_mem (RuleStack.At.mem hat))
      rw [startStack, hne] at hstart
      cases hstart
      rfl
    refine ⟨f, ?_, .same fun _ _ h => h.elim⟩
    rw [Moment.stack, hstack]
    exact hat
  | @enter w s s' henter =>
    refine ⟨f, ?_, .same fun _ _ h => h.elim⟩
    rcases Scan.enterLine_stack henter with heq | ⟨top, below, _, hsuffix, _, heq⟩
    · rw [Moment.stack, heq]
      exact hat
    · have hleft : s'.stack <:+ s.stack := by
        rw [heq]
        exact (List.suffix_cons top below).trans hsuffix
      exact hat.suffix hleft hheight
  | @more w s s' hstep =>
    obtain ⟨hstack, hposition⟩ := Scan.more_stack hstep
    refine ⟨f, ?_, .same fun w' position hline => ⟨hline.1, Nat.le_trans hline.2 hposition⟩⟩
    rcases hstack with hsuffix | ⟨top, heq⟩
    · exact hat.suffix hsuffix hheight
    · rw [Moment.stack, heq]
      exact hat.cons _
  | @done w s s' hstep =>
    rcases Scan.done_stack hstep with hsuffix | ⟨top, below, m, hs, hs', henter, hmatch⟩
    · exact ⟨f, hat.suffix hsuffix hheight, .same fun _ _ _ => trivial⟩
    · have hat : RuleStack.At height f (top :: below) := hs ▸ hat
      rcases hat.cases with ⟨rfl, hlength⟩ | hat
      · have hgives : GivesUp height (.scanning w s) (.finished s') :=
          .stays (by rw [hs, List.length_cons, hlength]) hmatch hstep
        refine ⟨f.atEnd, ⟨below, hlength, ?_⟩, .givenUp rfl rfl henter hgives⟩
        rw [Moment.stack, hs']
      · refine ⟨f, ?_, .same fun _ _ _ => trivial⟩
        rw [Moment.stack, hs']
        exact hat.cons top.atEnd
  | @finish s =>
    have hclean := RuleStack.clearPositions_clean ha.settled
    rcases hat.clearPositions with hat | hat
    · exact ⟨f, hat, .cleared ⟨rfl, rfl, rfl⟩ rfl (hclean f hat.mem).1⟩
    · exact ⟨f.cleared, hat, .cleared ⟨rfl, rfl, rfl⟩ rfl rfl⟩
  | abandon => exact ⟨f, hat, .same fun _ _ h => h.elim⟩

/-- The region on `height` frames was given up in the scan, where it stood in the state. -/
def GivenUp (g : Grammar) (height : Nat) (w : Scan) (s : ScanState) (b : Moment) : Prop :=
  ∃ t t', t.position = s.position ∧
    ReflTransGen (g.NextAbove height) (.scanning w s) (.scanning w t) ∧
    GivesUp height (.scanning w t) (.finished t') ∧
    ReflTransGen (g.NextAbove height) (.finished t') b

/-- What holds of the frame of an open region: it keeps what it has kept so far, and it can be given
up only in the scan that opened it and only where nothing has been consumed since. -/
structure Held (g : Grammar) (w : Scan) (s s' : ScanState) (f : Frame) (b : Moment) (f' : Frame) :
    Prop where
  lies : b.stack.At s.stack.length f'
  keeps : Keeps f f'
  entered : f'.enterPos = none ∨ f'.enterPos = some s.position ∧ SameLine w s'.position b
  content : f'.contentScopes = f.contentScopes ∨ f'.contentScopes = f.nameScopes ∧
    s'.position = s.position ∧ g.GivenUp s.stack.length w s' b

theorem Keeps.trans {f f' f'' : Frame} (h : Keeps f f') (h' : Keeps f' f'') : Keeps f f'' :=
  ⟨h'.rule.trans h.rule, h'.endPattern.trans h.endPattern, h'.nameScopes.trans h.nameScopes⟩

theorem GivenUp.next {w : Scan} {s : ScanState} (h : g.GivenUp height w s a)
    (hnext : g.NextAbove height a b) : g.GivenUp height w s b := by
  obtain ⟨t, t', hposition, hbefore, hgives, hafter⟩ := h
  exact ⟨t, t', hposition, hbefore, hgives, hafter.tail hnext⟩

/-- What a step does to the frame leads on. -/
theorem Held.next {w : Scan} {s s' : ScanState} {f f' f'' : Frame}
    (h : g.Held w s s' f a f') (hposition : s.position ≤ s'.position)
    (hrun : ReflTransGen (g.NextAbove s.stack.length) (.scanning w s') a)
    (hnext : g.NextAbove s.stack.length a b) (hat : b.stack.At s.stack.length f'')
    (hstep : FrameStep s.stack.length f' a b f'') : g.Held w s s' f b f'' := by
  have hcontent : f'.contentScopes = f.contentScopes ∨ f'.contentScopes = f.nameScopes ∧
      s'.position = s.position ∧ g.GivenUp s.stack.length w s' b :=
    h.content.imp_right fun ⟨hname, hstay, hgiven⟩ => ⟨hname, hstay, hgiven.next hnext⟩
  cases hstep with
  | same hline => exact ⟨hat, h.keeps, h.entered.imp_right (And.imp_right (hline w _)), hcontent⟩
  | cleared hkeeps heq hclean =>
    refine ⟨hat, h.keeps.trans hkeeps, .inl hclean, ?_⟩
    rwa [heq]
  | @givenUp w' t t' ha hb henter hgives =>
    subst ha hb
    -- no line has ended since the region was opened, so the scan is the same and has not moved
    rcases h.entered with hnone | ⟨hsome, rfl, hbehind⟩
    · rw [hnone] at henter
      cases henter
    · have hhere : t.position = s.position := Option.some.inj (henter.symm.trans hsome)
      have hstay : s'.position = s.position :=
        Nat.le_antisymm (hhere ▸ hbehind) hposition
      refine ⟨hat, ⟨h.keeps.rule, h.keeps.endPattern, h.keeps.nameScopes⟩, .inr ⟨hsome, trivial⟩,
        .inr ⟨h.keeps.nameScopes, hstay, t, t', hhere.trans hstay.symm, hrun, hgives, .refl⟩⟩

/-- A frame that is pushed holds the position that it is pushed at. -/
theorem Opens.entered {w : Scan} {s s' : ScanState} {f : Frame} (h : Opens w s f s') :
    f.enterPos = some s.position := by
  obtain ⟨r, m, region, hmatch, hregion⟩ := h.begins
  obtain ⟨c, m', t, hmatch', happ, _, hstack⟩ := Scan.step_more h.step
  cases hmatch.symm.trans hmatch'
  have hpushed := h.pushed
  rw [hstack] at hpushed
  cases happ with
  | matched hrule =>
    rw [Grammar.region?, hrule] at hregion
    cases hregion
  | opened =>
    have hframe := (List.cons.inj hpushed).1
    exact (congrArg Frame.enterPos hframe).symm

theorem Held.opened {w : Scan} {s s' : ScanState} {f : Frame} (h : Opens w s f s') :
    g.Held w s s' f (.scanning w s') { f with depth := s.stack.depth + 1 } where
  lies := ⟨s.stack, rfl, by rw [Moment.stack, h.pushed]; exact List.suffix_rfl⟩
  keeps := ⟨rfl, rfl, rfl⟩
  entered := .inr ⟨h.entered, rfl, Nat.le_refl _⟩
  content := .inl rfl

theorem exists_held {w : Scan} {s s' : ScanState} {f : Frame} (hg : g.Linked)
    (hopen : Opens w s f s') (hsound : g.SoundMoment (.scanning w s'))
    (hrun : ReflTransGen (g.NextAbove s.stack.length) (.scanning w s') b) :
    g.SoundMoment b ∧ ∃ f', g.Held w s s' f b f' := by
  induction hrun with
  | refl => exact ⟨hsound, _, .opened hopen⟩
  | tail hrun hnext ih =>
    obtain ⟨hsound, f', hheld⟩ := ih
    obtain ⟨f'', hat, hstep⟩ := hnext.1.frameStep hsound hheld.lies hnext.2
    have hposition := (Scan.more_stack hopen.step).2
    exact ⟨hnext.1.sound hg hsound, f'', hheld.next hposition hrun hnext hat hstep⟩

/-- In a text that begins anew, a begin match opens a region. At every moment until it is left, the
frame of the region has the rule, the end and the name scopes that it was pushed with, and its
content scopes come first in the scopes of the stack. They are those that it was pushed with as
well, unless the begin match consumed nothing and the region has been given up on the spot: then they
are the name scopes. -/
theorem region_kept (hg : g.Linked) {w : Scan} {s s' : ScanState} {f : Frame}
    (hrun : ReflTransGen g.Next (.between .initial) (.scanning w s)) (hopen : Opens w s f s')
    (hlife : ReflTransGen (g.NextAbove s.stack.length) (.scanning w s') b) :
    ∃ f', b.stack.At s.stack.length f' ∧ Keeps f f' ∧ f'.contentScopes <+: b.stack.scopes ∧
      (f'.contentScopes = f.contentScopes ∨ f'.contentScopes = f.nameScopes ∧
        s'.position = s.position ∧ g.GivenUp s.stack.length w s' b) := by
  have hsound : g.SoundMoment (.scanning w s') :=
    (Next.more hopen.step).sound hg (sound_of_run hg hrun (.inl rfl))
  obtain ⟨hb, f', hheld⟩ := exists_held hg hopen hsound hlife
  have hopened := hb.opened (List.ne_nil_of_mem hheld.lies.mem)
  exact ⟨f', hheld.lies, hheld.keeps, hopened.scopes_of_at hheld.lies, hheld.content⟩

/-! ### Two kinds of blocks -/

/-- Blocks between parentheses, and blocks that begin and end before a letter without taking it. -/
def blocksSource : RawGrammar :=
  { (default : RawGrammar) with
    scopeName := "source.t"
    patterns := [
      { (default : RawRule) with
        name := some "block"
        contentName := some "inside"
        beginSource := some "\\("
        endSource := some "\\)" },
      { (default : RawRule) with
        name := some "n"
        contentName := some "c"
        beginSource := some "(?=a)"
        endSource := some "(?=a)" }] }

theorem blocksSource_links : (ofSource blocksSource).toOption.isSome := by decide +kernel

/-- The grammar of blocks. -/
def blocks : Grammar := (ofSource blocksSource).toOption.get blocksSource_links

theorem blocks_linked : blocks.Linked := linked_of_ofSource (Option.some_get blocksSource_links).symm

/-- The state at the start of a text, before the first step of the scan. -/
def startState? (g : Grammar) (line : String) : Option ScanState := do
  let start ← g.rootStack.toOption
  ((g.lineScan 1 line).enterLine ⟨start, 0, none, true, .empty⟩).toOption

theorem run_of_startState? {line : String} {s : ScanState} (h : g.startState? line = some s) :
    ReflTransGen g.Next (.between .initial) (.scanning (g.lineScan 1 line) s) := by
  obtain ⟨start, hstart, henter⟩ := Option.bind_eq_some_iff.1 h
  exact .head (.begin 1 line (Except.eq_ok_of_toOption hstart))
    (.single (.enter (Except.eq_ok_of_toOption henter)))

/-- From a step that does not go on to the end of the line. -/
theorem life_of_done? {w : Scan} {s s' : ScanState} (h : done? w s = some s')
    (hheight : height < s'.stack.length) :
    ReflTransGen (g.NextAbove height) (.scanning w s) (.between s'.stack.clearPositions) := by
  have hlength : height < s'.stack.clearPositions.length := by
    rwa [RuleStack.length_eq_of_same (RuleStack.clearPositions_same s'.stack)]
  exact .head ⟨.done (step_of_done? h), hheight⟩ (.single ⟨.finish, hlength⟩)

/-- A line on which a block opens. -/
def blockOpens : Scan := blocks.lineScan 1 "(x"

/-- The state before the block. -/
def beforeBlock : ScanState := (blocks.startState? "(x").get (by decide +kernel)

/-- The state after the begin match of the block. -/
def inBlock : ScanState := (more? blockOpens beforeBlock).get (by decide +kernel)

/-- The state after the line. -/
def afterBlock : ScanState := (done? blockOpens inBlock).get (by decide +kernel)

/-- The block is open at the end of the line, with the scopes of its content. -/
theorem region_kept_block : blocks.Linked ∧
    ReflTransGen blocks.Next (.between .initial) (.scanning blockOpens beforeBlock) ∧
    ReflTransGen (blocks.NextAbove beforeBlock.stack.length) (.scanning blockOpens inBlock)
      (.between afterBlock.stack.clearPositions) ∧
    ∃ f f', Opens blockOpens beforeBlock f inBlock ∧
      afterBlock.stack.clearPositions.At beforeBlock.stack.length f' ∧ Keeps f f' ∧
      f'.contentScopes = ["source.t", "block", "inside"] := by
  have hrun : ReflTransGen blocks.Next (.between .initial) (.scanning blockOpens beforeBlock) :=
    run_of_startState? (Option.some_get _).symm
  have hlife : ReflTransGen (blocks.NextAbove beforeBlock.stack.length)
      (.scanning blockOpens inBlock) (.between afterBlock.stack.clearPositions) :=
    life_of_done? (Option.some_get _).symm (by decide +kernel)
  obtain ⟨f, hopens⟩ : ∃ f, Opens blockOpens beforeBlock f inBlock :=
    opens_of_begins (by decide +kernel) (Option.some_get _).symm
  obtain ⟨f', hat, hkeeps, _, hcontent⟩ := region_kept blocks_linked hrun hopens hlife
  rw [Moment.stack] at hat
  refine ⟨blocks_linked, hrun, hlife, f, f', hopens, hat, hkeeps, ?_⟩
  rcases hcontent with hcontent | ⟨_, hstay, _⟩
  · have hpushed : f.contentScopes = inBlock.stack.scopes := by
      rw [hopens.pushed]
      rfl
    rw [hcontent, hpushed]
    decide +kernel
  · -- the parenthesis has been consumed
    exact absurd hstay (by decide +kernel)

/-- A line on which a block opens and its end matches, before the same letter. -/
def lookaheadOpens : Scan := blocks.lineScan 1 "a"

/-- The state before the letter. -/
def beforeLookahead : ScanState := (blocks.startState? "a").get (by decide +kernel)

/-- The state after the begin match. -/
def inLookahead : ScanState := (more? lookaheadOpens beforeLookahead).get (by decide +kernel)

/-- The state after the line. -/
def afterLookahead : ScanState := (done? lookaheadOpens inLookahead).get (by decide +kernel)

/-- The block stays open, without the scopes of its content. -/
theorem lookahead_loses_content : blocks.Linked ∧
    ReflTransGen blocks.Next (.between .initial) (.scanning lookaheadOpens beforeLookahead) ∧
    ReflTransGen (blocks.NextAbove beforeLookahead.stack.length)
      (.scanning lookaheadOpens inLookahead) (.between afterLookahead.stack.clearPositions) ∧
    ∃ f f', Opens lookaheadOpens beforeLookahead f inLookahead ∧
      afterLookahead.stack.clearPositions.At beforeLookahead.stack.length f' ∧
      f.contentScopes = ["source.t", "n", "c"] ∧ f'.contentScopes = ["source.t", "n"] ∧
      (blocks.tokenizeLineWithin 1 "b" afterLookahead.stack.clearPositions).tokens =
        [⟨0, 1, ["source.t", "n"]⟩] := by
  have hrun : ReflTransGen blocks.Next (.between .initial)
      (.scanning lookaheadOpens beforeLookahead) := run_of_startState? (Option.some_get _).symm
  have hlife : ReflTransGen (blocks.NextAbove beforeLookahead.stack.length)
      (.scanning lookaheadOpens inLookahead) (.between afterLookahead.stack.clearPositions) :=
    life_of_done? (Option.some_get _).symm (by decide +kernel)
  obtain ⟨f, hopens⟩ : ∃ f, Opens lookaheadOpens beforeLookahead f inLookahead :=
    opens_of_begins (by decide +kernel) (Option.some_get _).symm
  have hpushed : f.contentScopes = inLookahead.stack.scopes := by
    rw [hopens.pushed]
    rfl
  have hne : afterLookahead.stack.clearPositions ≠ [] :=
    List.isEmpty_eq_false_iff.1 (by decide +kernel)
  obtain ⟨f', hat, hcontent⟩ := RuleStack.at_top hne
  have hheight : afterLookahead.stack.clearPositions.length - 1 = beforeLookahead.stack.length := by
    decide +kernel
  rw [hheight] at hat
  refine ⟨blocks_linked, hrun, hlife, f, f', hopens, hat, ?_, ?_, by decide +kernel⟩
  · rw [hpushed]
    decide +kernel
  · rw [hcontent]
    decide +kernel

end Grammar

end Highlight
