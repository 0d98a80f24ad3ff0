import Highlight.Proofs.LineRuns
import Highlight.Proofs.LinkedDocuments

/-!
# Regions nest

A region that ends leaves the stack that it was opened on. Between its begin match and its end lie
any number of steps and lines, on which the frames below it are handed on. No step touches more than
the top of the stack, and the end of a line clears positions, which do not count
(`Changes.restsOn`). So as long as the stack stays higher than the one that the region was opened
on, it rests on frames that compare equal to those (`RuleStack.RestsOn`), and when the frame of the
region goes, these are what is left (`nested_region`). The run may begin anywhere, also in a scan of
captured text, which has a stack of its own.
-/

namespace Highlight

open Relation (ReflTransGen)

theorem Frame.same_trans {f g h : Frame} (hfg : f.same g = true) (hgh : g.same h = true) :
    f.same h = true := by
  simp only [same, Bool.and_eq_true, beq_iff_eq] at hfg hgh ⊢
  obtain ⟨⟨⟨⟨⟨hdepth, hrule⟩, hreached⟩, hend⟩, hname⟩, hcontent⟩ := hfg
  rw [hdepth, hrule, hreached, hend, hname, hcontent]
  exact hgh

theorem Frame.cleared_same (f : Frame) : f.cleared.same f = true := by simp [same, cleared]

namespace RuleStack

variable {s s' t below : RuleStack}

theorem same_trans : ∀ {s t u : RuleStack}, s.same t = true → t.same u = true → s.same u = true
  | [], [], _, _, h => h
  | f :: s, g :: t, [], _, h => by cases h
  | f :: s, g :: t, h :: u, hst, htu => by
    rw [same, Bool.and_eq_true] at hst htu ⊢
    exact ⟨Frame.same_trans hst.1 htu.1, same_trans hst.2 htu.2⟩

theorem length_eq_of_same : ∀ {s t : RuleStack}, s.same t = true → s.length = t.length
  | [], [], _ => rfl
  | f :: s, g :: t, h => by
    rw [same, Bool.and_eq_true] at h
    exact congrArg (· + 1) (length_eq_of_same h.2)

/-- Cleared positions do not count. -/
theorem clearPositions_same : ∀ s : RuleStack, s.clearPositions.same s = true
  | [] => rfl
  | f :: below => by
    unfold clearPositions
    split
    · exact same_refl _
    · rw [same, f.cleared_same, clearPositions_same below, Bool.and_self]

/-- Clearing acts on the lower part of a stack as it may on a stack of its own. -/
theorem exists_suffix_clearPositions (h : below <:+ s) :
    ∃ below' : RuleStack, below' <:+ s.clearPositions ∧ below'.same below = true := by
  induction s with
  | nil => exact ⟨[], List.suffix_rfl, by rw [List.suffix_nil.1 h]; rfl⟩
  | cons f s ih =>
    rcases List.suffix_cons_iff.1 h with rfl | h
    · exact ⟨_, List.suffix_rfl, clearPositions_same _⟩
    · unfold clearPositions
      split
      · exact ⟨below, h.trans (List.suffix_cons f s), same_refl below⟩
      · obtain ⟨below', hsuffix, hsame⟩ := ih h
        exact ⟨below', hsuffix.trans (List.suffix_cons _ _), hsame⟩

/-- The lowest frames of a stack compare equal to a stack. -/
def RestsOn (t s : RuleStack) : Prop := ∃ below : RuleStack, below <:+ s ∧ below.same t = true

theorem RestsOn.length_le (h : t.RestsOn s) : t.length ≤ s.length := by
  obtain ⟨below, hsuffix, hsame⟩ := h
  rw [← length_eq_of_same hsame]
  exact hsuffix.length_le

theorem RestsOn.push (h : t.RestsOn s) (f : Frame) : t.RestsOn (s.push f) := by
  obtain ⟨below, hsuffix, hsame⟩ := h
  exact ⟨below, hsuffix.trans (List.suffix_cons _ s), hsame⟩

/-- Where frames are left, those stay that are too low to be among them. -/
theorem RestsOn.suffix (h : t.RestsOn s) (hsuffix : s' <:+ s) (hlength : t.length ≤ s'.length) :
    t.RestsOn s' := by
  obtain ⟨below, hbelow, hsame⟩ := h
  rw [← length_eq_of_same hsame] at hlength
  exact ⟨below, List.suffix_of_suffix_length_le hbelow hsuffix hlength, hsame⟩

/-- A stack that rests on one of its height compares equal to it. -/
theorem RestsOn.same_of_length (h : t.RestsOn s) (hlength : s.length = t.length) :
    s.same t = true := by
  obtain ⟨below, hsuffix, hsame⟩ := h
  have heq : below = s :=
    hsuffix.eq_of_length ((length_eq_of_same hsame).trans hlength.symm)
  rwa [heq] at hsame

/-- What a moment does to the stack has no effect on the frames below its top, as long as these are
not left. -/
theorem Changes.restsOn (hchange : s.Changes s') (h : t.RestsOn s) (hbefore : t.length < s.length)
    (hafter : t.length ≤ s'.length) : t.RestsOn s' := by
  cases hchange with
  | rooted => exact absurd hbefore (Nat.not_lt_zero _)
  | opened f => exact h.push f
  | @closing f below =>
    have hbelow : t.RestsOn below :=
      h.suffix (List.suffix_cons f below) (Nat.le_of_lt_succ hbefore)
    obtain ⟨low, hsuffix, hsame⟩ := hbelow
    exact ⟨low, hsuffix.trans (List.suffix_cons _ below), hsame⟩
  | left hsuffix => exact h.suffix hsuffix hafter
  | cleared =>
    obtain ⟨below, hsuffix, hsame⟩ := h
    obtain ⟨below', hsuffix', hsame'⟩ := exists_suffix_clearPositions hsuffix
    exact ⟨below', hsuffix', same_trans hsame' hsame⟩

end RuleStack

namespace Grammar

variable {g : Grammar}

/-- A begin match opens a region: its frame is pushed. -/
structure Opens (w : Scan) (s : ScanState) (f : Frame) (s' : ScanState) : Prop where
  begins : ∃ r m region, (w.place s).nextMatch w.grammar s.stack = .ok (some (.rule r, m)) ∧
    w.grammar.region? r = some region
  step : w.step s = .ok (.more s')
  pushed : s'.stack = s.stack.push f

/-- The region whose frame lies on `height` frames is left: its end matches, or at the start of a
line its pattern is not found. -/
inductive Leaves (height : Nat) : Moment → Moment → Prop
  | ended {w : Scan} {s s' : ScanState} {m : Match} (hheight : s.stack.length = height + 1)
      (hmatch : (w.place s).nextMatch w.grammar s.stack = .ok (some (.ending, m)))
      (hstep : w.step s = .ok (.more s')) : Leaves height (.scanning w s) (.scanning w s')
  | failed {w : Scan} {s s' : ScanState} (hheight : height < s.stack.length)
      (henter : w.enterLine s = .ok s') (hleft : s'.stack.length = height) :
      Leaves height (.entering w s) (.scanning w s')

/-- From one moment to the next, with more than `height` regions open after it. -/
def NextAbove (g : Grammar) (height : Nat) (a b : Moment) : Prop :=
  g.Next a b ∧ height < b.stack.length

/-- Wherever the scan goes on after a begin match of a region, a frame has been pushed. -/
theorem exists_opens {w : Scan} {s s' : ScanState} {r : RuleRef} {m : Match}
    {region : Rule.Region}
    (hmatch : (w.place s).nextMatch w.grammar s.stack = .ok (some (.rule r, m)))
    (hregion : w.grammar.region? r = some region) (hstep : w.step s = .ok (.more s')) :
    ∃ f, Opens w s f s' := by
  have hpushed : ∃ f, s'.stack = s.stack.push f := by
    obtain ⟨c, m', t, hmatch', happ, _, hstack⟩ := Scan.step_more hstep
    cases hmatch.symm.trans hmatch'
    cases happ with
    | matched hrule =>
      rw [Grammar.region?, hrule] at hregion
      cases hregion
    | opened => exact ⟨_, hstack⟩
  obtain ⟨f, hpushed⟩ := hpushed
  exact ⟨f, ⟨r, m, region, hmatch, hregion⟩, hstep, hpushed⟩

/-- Wherever the scan goes on after an end match, the innermost region has been left. -/
theorem exists_left {w : Scan} {s s' : ScanState} {m : Match}
    (hmatch : (w.place s).nextMatch w.grammar s.stack = .ok (some (.ending, m)))
    (hstep : w.step s = .ok (.more s')) : ∃ f, s.stack = f :: s'.stack := by
  obtain ⟨c, m', t, hmatch', happ, _, hstack⟩ := Scan.step_more hstep
  cases hmatch.symm.trans hmatch'
  cases happ with
  | @ended f _ _ _ hbelow =>
    rw [hstack]
    exact ⟨f, hbelow⟩

/-- Where a region is left, the stack loses its frame and all above it. -/
theorem Leaves.suffix {height : Nat} {a b : Moment} (h : Leaves height a b) :
    b.stack <:+ a.stack ∧ b.stack.length = height := by
  cases h with
  | @ended w s s' m hheight hmatch hstep =>
    obtain ⟨f, hf⟩ := exists_left hmatch hstep
    have hlength : (f :: s'.stack).length = height + 1 := hf ▸ hheight
    show s'.stack <:+ s.stack ∧ s'.stack.length = height
    rw [hf]
    exact ⟨List.suffix_cons f _, Nat.succ.inj hlength⟩
  | @failed w s s' hheight henter hleft =>
    show s'.stack <:+ s.stack ∧ s'.stack.length = height
    refine ⟨?_, hleft⟩
    rcases Scan.enterLine_stack henter with heq | ⟨f, below, _, hsuffix, _, heq⟩
    · rw [heq]
    · rw [heq]
      exact (List.suffix_cons f below).trans hsuffix

/-- As long as more regions are open than a stack has, the stack at each moment of a run goes on to
rest on it. -/
theorem restsOn_of_run {t : RuleStack} {a b : Moment} (h : t.RestsOn a.stack)
    (habove : t.length < a.stack.length)
    (hrun : ReflTransGen (g.NextAbove t.length) a b) :
    t.RestsOn b.stack ∧ t.length < b.stack.length := by
  induction hrun with
  | refl => exact ⟨h, habove⟩
  | tail _ hnext ih =>
    obtain ⟨hnext, hafter⟩ := hnext
    exact ⟨hnext.changes.restsOn ih.1 ih.2 (Nat.le_of_lt hafter), hafter⟩

/-- A begin match opens a region on a stack. However many steps and lines later the region is left,
as long as none of the regions below it is left before, the stack compares equal to the one that it
was opened on. -/
theorem nested_region {w : Scan} {s s' : ScanState} {f : Frame} {a b : Moment}
    (hopen : Opens w s f s')
    (hrun : ReflTransGen (g.NextAbove s.stack.length) (.scanning w s') a)
    (hleave : Leaves s.stack.length a b) : b.stack.same s.stack = true := by
  have hrests : s.stack.RestsOn s'.stack :=
    ⟨s.stack, by rw [hopen.pushed]; exact List.suffix_cons _ _, RuleStack.same_refl _⟩
  have habove : s.stack.length < s'.stack.length := by
    rw [hopen.pushed]
    exact Nat.lt_succ_self _
  obtain ⟨hrests, _⟩ := restsOn_of_run (a := .scanning w s') hrests habove hrun
  obtain ⟨hsuffix, hlength⟩ := hleave.suffix
  exact (hrests.suffix hsuffix (Nat.le_of_eq hlength.symm)).same_of_length hlength

/-! ### A string over two lines -/

/-- Whether a begin match of a region comes next. -/
def beginsNext (w : Scan) (s : ScanState) : Bool :=
  match (w.place s).nextMatch w.grammar s.stack with
  | .ok (some (.rule r, _)) => (w.grammar.region? r).isSome
  | _ => false

/-- Whether the end of the innermost region comes next. -/
def endsNext (w : Scan) (s : ScanState) : Bool :=
  match (w.place s).nextMatch w.grammar s.stack with
  | .ok (some (.ending, _)) => true
  | _ => false

/-- The state that a step goes on with. -/
def more? (w : Scan) (s : ScanState) : Option ScanState :=
  match w.step s with
  | .ok (.more s') => some s'
  | _ => none

/-- The state that a last step ends with. -/
def done? (w : Scan) (s : ScanState) : Option ScanState :=
  match w.step s with
  | .ok (.done s') => some s'
  | _ => none

section

variable {w : Scan} {s s' : ScanState}

theorem step_of_more? (h : more? w s = some s') : w.step s = .ok (.more s') := by
  unfold more? at h
  split at h
  · next heq =>
    cases h
    exact heq
  · cases h

theorem step_of_done? (h : done? w s = some s') : w.step s = .ok (.done s') := by
  unfold done? at h
  split at h
  · next heq =>
    cases h
    exact heq
  · cases h

theorem opens_of_begins (hbegins : beginsNext w s = true) (hmore : more? w s = some s') :
    ∃ f, Opens w s f s' := by
  unfold beginsNext at hbegins
  split at hbegins
  · next hmatch =>
    obtain ⟨region, hregion⟩ := Option.isSome_iff_exists.1 hbegins
    exact exists_opens hmatch hregion (step_of_more? hmore)
  · cases hbegins

theorem leaves_of_ends {height : Nat} (hheight : s.stack.length = height + 1)
    (hends : endsNext w s = true) (hmore : more? w s = some s') :
    Leaves height (.scanning w s) (.scanning w s') := by
  unfold endsNext at hends
  split at hends
  · next hmatch => exact .ended hheight hmatch (step_of_more? hmore)
  · cases hends

end

/-- The first line of a string that goes on to the next line. -/
def stringBegins : Scan := quotes.lineScan 1 "a\"b"

/-- The line that ends it. -/
def stringEnds : Scan := quotes.lineScan 1 "c\"d"

/-- The state at the start of the first line. -/
def beforeString : ScanState := ⟨quotes.rootStack.toOption.getD [], 0, none, true, .empty⟩

/-- The state after the begin match of the string. -/
def inString : ScanState := (more? stringBegins beforeString).get (by decide +kernel)

/-- The state after the first line. -/
def afterString : ScanState := (done? stringBegins inString).get (by decide +kernel)

/-- The state at the start of the second line. -/
def beforeStringEnds : ScanState := ⟨afterString.stack.clearPositions, 0, none, false, .empty⟩

/-- The state after the patterns of continued regions, of which there are none. -/
def againInString : ScanState :=
  (stringEnds.enterLine beforeStringEnds).toOption.get (by decide +kernel)

/-- The state after the end match of the string. -/
def behindString : ScanState := (more? stringEnds againInString).get (by decide +kernel)

theorem string_run : ReflTransGen (quotes.NextAbove beforeString.stack.length)
    (.scanning stringBegins inString) (.scanning stringEnds againInString) := by
  have hdone : quotes.Next (.scanning stringBegins inString) (.finished afterString) :=
    .done (step_of_done? (Option.some_get _).symm)
  have hempty : afterString.stack.clearPositions.isEmpty = false := by decide +kernel
  have hstart : quotes.startStack afterString.stack.clearPositions =
      .ok afterString.stack.clearPositions := by
    rw [startStack, hempty]
    rfl
  have hbegin : quotes.Next (.between afterString.stack.clearPositions)
      (.entering stringEnds beforeStringEnds) := by
    have h := Next.begin 1 "c\"d" hstart
    rwa [hempty] at h
  have henter : quotes.Next (.entering stringEnds beforeStringEnds)
      (.scanning stringEnds againInString) :=
    .enter (Except.eq_ok_of_toOption (Option.some_get _).symm)
  refine .head ⟨hdone, ?_⟩ (.head ⟨.finish, ?_⟩ (.head ⟨hbegin, ?_⟩ (.single ⟨henter, ?_⟩)))
  · decide +kernel
  · decide +kernel
  · decide +kernel
  · decide +kernel

/-- A string opens on the root, goes on to the next line and ends there: the root is left. -/
theorem nested_region_string : (∃ f, Opens stringBegins beforeString f inString) ∧
    ReflTransGen (quotes.NextAbove beforeString.stack.length) (.scanning stringBegins inString)
      (.scanning stringEnds againInString) ∧
    Leaves beforeString.stack.length (.scanning stringEnds againInString)
      (.scanning stringEnds behindString) ∧
    behindString.stack.same beforeString.stack = true := by
  obtain ⟨f, hopens⟩ : ∃ f, Opens stringBegins beforeString f inString :=
    opens_of_begins (by decide +kernel) (Option.some_get _).symm
  have hheight : againInString.stack.length = beforeString.stack.length + 1 := by decide +kernel
  have hends : endsNext stringEnds againInString = true := by decide +kernel
  have hleaves : Leaves beforeString.stack.length (.scanning stringEnds againInString)
      (.scanning stringEnds behindString) :=
    leaves_of_ends hheight hends (Option.some_get _).symm
  have hsame := nested_region hopens string_run hleaves
  exact ⟨⟨f, hopens⟩, string_run, hleaves, hsame⟩

end Grammar

end Highlight
