import Highlight.Proofs.CaptureReach

/-!
# The scopes of captured text

The captures of a match give names to stretches of it, and where these lie inside each other, so do
their scopes. The code walks over the captures once, with a stack of stretches that are open, and
writes a token whenever it knows the scopes of the text up to some position. Here the scopes are
described position by position: those around the match, then the names of all captures that hold the
position (`namesAt`). What is proved, for captures that nest and have no patterns:

1. `Paints`: tokens are added to a run so that each position has the scopes that are due to it.
   Tokens that are added one after another paint what they paint together.
2. `Sweep` is the invariant of the walk: behind the tokens, the innermost open stretch that goes
   beyond a position has the scopes that the captures so far give to it. There is one lemma for each
   thing that the code does: closing a stretch, filling a gap, opening a stretch.
3. `resolvePairs_paints` puts these together along the list of captures, and
   `resolveCaptures_scopes` says it of the match, byte by byte.
-/

namespace Highlight

/-! ## Marks -/

/-- A captured stretch with the names that its rule gives to it. -/
structure Mark where
  names : ScopePath
  span : Span
  deriving DecidableEq

namespace Mark

variable {c : Mark} {marks : List Mark} {p : Nat}

/-- The stretch holds the position. -/
def Holds (c : Mark) (p : Nat) : Prop := c.span.start ≤ p ∧ p < c.span.stop

instance (c : Mark) (p : Nat) : Decidable (c.Holds p) := inferInstanceAs (Decidable (_ ∧ _))

/-- The names of all stretches that hold a position, in the order of the stretches. -/
def namesAt (marks : List Mark) (p : Nat) : ScopePath :=
  (marks.filter fun c => c.Holds p).flatMap (·.names)

/-- The stretch with byte offsets into a text in place of positions. -/
def inBytes (text : Subject) (c : Mark) : Mark :=
  { c with span := ⟨text.byteOffset c.span.start, text.byteOffset c.span.stop⟩ }

/-- The stretches lie in a match, they start one after another or together, and of any two the later
one lies inside the earlier one, or they have nothing in common. -/
structure Nest (m : Match) (marks : List Mark) : Prop where
  within : ∀ c ∈ marks, m.start ≤ c.span.start ∧ c.span.start < c.span.stop ∧ c.span.stop ≤ m.stop
  starts : marks.Pairwise fun a b => a.span.start ≤ b.span.start
  nest : marks.Pairwise fun a b => a.span.stop ≤ b.span.start ∨ b.span.stop ≤ a.span.start ∨
    a.span.start ≤ b.span.start ∧ b.span.stop ≤ a.span.stop

/-- Of two stretches that nest, the later one starts behind the earlier one or ends inside it. -/
theorem Nest.ordered {m : Match} (h : Nest m marks) : marks.Pairwise fun a b =>
    a.span.start ≤ b.span.start ∧
      (a.span.stop ≤ b.span.start ∨ b.span.stop ≤ a.span.stop) := by
  refine (h.starts.and h.nest).imp_of_mem ?_
  rintro a b _ hb ⟨hstarts, hbefore | hafter | hinside⟩
  · exact ⟨hstarts, .inl hbefore⟩
  · have hproper := (h.within b hb).2.1
    omega
  · exact ⟨hstarts, .inr hinside.2⟩

theorem namesAt_of_holds (h : c.Holds p) : namesAt [c] p = c.names := by
  simp [namesAt, h]

theorem namesAt_of_not_holds (h : ¬c.Holds p) : namesAt [c] p = [] := by
  simp [namesAt, h]

theorem namesAt_cons (c : Mark) (marks : List Mark) (p : Nat) :
    namesAt (c :: marks) p = namesAt [c] p ++ namesAt marks p := by
  by_cases h : c.Holds p
  · simp [namesAt, h]
  · simp [namesAt, h]

/-- Before the first stretch there are no names. -/
theorem namesAt_of_lt (h : ∀ c ∈ marks, p < c.span.start) : namesAt marks p = [] := by
  have hnone : (marks.filter fun c => c.Holds p) = [] := by
    rw [List.filter_eq_nil_iff]
    intro c hc hholds
    have hlt := h c hc
    have hle := (of_decide_eq_true hholds).1
    omega
  rw [namesAt, hnone, List.flatMap_nil]

end Mark

open Mark (namesAt)

/-! ## Painting -/

/-- `run'` is `run` with further tokens behind it, in which each position has the scopes that `path`
says. -/
def Paints (path : Nat → ScopePath) (run run' : TokenRun) : Prop :=
  ∃ added, run'.tokens = added ++ run.tokens ∧ Cover run.stop added.reverse run'.stop ∧
    ∀ t ∈ added, ∀ p, t.start ≤ p → p < t.stop → t.scopes = path p

namespace Paints

variable {path path' : Nat → ScopePath} {a b c : TokenRun}

theorem refl (path : Nat → ScopePath) (run : TokenRun) : Paints path run run :=
  ⟨[], rfl, rfl, by simp⟩

theorem trans (hab : Paints path a b) (hbc : Paints path b c) : Paints path a c := by
  obtain ⟨ts, hts, hcover, hscopes⟩ := hab
  obtain ⟨us, hus, hcover', hscopes'⟩ := hbc
  refine ⟨us ++ ts, by rw [hus, hts, List.append_assoc], ?_, ?_⟩
  · rw [List.reverse_append, cover_append]
    exact ⟨b.stop, hcover, hcover'⟩
  · intro t ht
    rcases List.mem_append.1 ht with ht | ht
    · exact hscopes' t ht
    · exact hscopes t ht

theorem congr (h : Paints path a b) (heq : ∀ p, path p = path' p) : Paints path' a b := by
  have hpath : path = path' := funext heq
  rwa [← hpath]

/-- A token paints what it covers. -/
theorem produce {run : TokenRun} {stop : Nat} {scopes : ScopePath}
    (h : ∀ p, run.stop ≤ p → p < stop → path p = scopes) :
    Paints path run (run.produce stop scopes) := by
  unfold TokenRun.produce
  split
  · exact refl path run
  · next hlt =>
    refine ⟨[⟨run.stop, stop, scopes⟩], rfl, ⟨rfl, Nat.lt_of_not_le hlt, rfl⟩, ?_⟩
    intro t ht p hle hlt
    cases List.mem_singleton.1 ht
    exact (h p hle hlt).symm

end Paints

/-! ## The walk over the captures -/

namespace Scan

variable {w : Scan} {s : ScanState} {m : Match} {owner : ScopeName} {stack : RuleStack}
  {stop start last : Nat} {before : Nat → ScopePath} {opened rest : Open} {run : TokenRun}
  {marks : List Mark} {c : Mark} {scopes : ScopePath}

/-- The scopes at a position behind the tokens: those of the innermost open stretch that goes beyond
it. -/
def openScopes (stack : RuleStack) : Open → Nat → ScopePath
  | [], _ => stack.scopes
  | (scopes, stop) :: rest, p => if p < stop then scopes else openScopes stack rest p

theorem openScopes_eq_base {p : Nat} (h : ∀ e ∈ opened.head?, p < e.2) :
    openScopes stack opened p = base stack opened := by
  cases opened with
  | nil => rfl
  | cons e rest => exact if_pos (h e rfl)

/-- The innermost stretch that is left open goes beyond the position. -/
theorem closeBefore_head (start : Nat) : ∀ (opened : Open) (run : TokenRun),
    ∀ e ∈ (closeBefore start opened run).1.head?, start < e.2
  | [], _, e, he => by cases he
  | (scopes, last) :: rest, run, e, he => by
    rw [closeBefore] at he
    split at he
    · exact closeBefore_head start rest _ e he
    · next hlt =>
      cases he
      exact Nat.lt_of_not_le hlt

/-- Between two captures: `before` says what the captures so far give to positions, and the marks
are those of the captures to come. -/
structure Sweep (stack : RuleStack) (stop : Nat) (before : Nat → ScopePath) (opened : Open)
    (run : TokenRun) (marks : List Mark) : Prop where
  shown : ∀ p, run.stop ≤ p → openScopes stack opened p = before p
  run_le : run.stop ≤ stop
  open_le : ∀ e ∈ opened, e.2 ≤ stop
  ahead : ∀ c ∈ marks, run.stop ≤ c.span.start
  within : ∀ c ∈ marks, c.span.start < c.span.stop ∧ c.span.stop ≤ stop
  nests : ∀ e ∈ opened, ∀ c ∈ marks, e.2 ≤ c.span.start ∨ c.span.stop ≤ e.2
  ordered : marks.Pairwise fun a b =>
    a.span.start ≤ b.span.start ∧ (a.span.stop ≤ b.span.start ∨ b.span.stop ≤ a.span.stop)

namespace Sweep

/-- The scopes of a position once all captures are taken into account. -/
def path (before : Nat → ScopePath) (marks : List Mark) (p : Nat) : ScopePath :=
  before p ++ namesAt marks p

/-- Tokens up to some position, where no capture to come starts before it, keep the invariant if the
open stretches that remain say the same behind that position. -/
theorem produce (h : Sweep stack stop before opened run marks) (hstop : last ≤ stop)
    (hmarks : ∀ c ∈ marks, last ≤ c.span.start) (hrest : ∀ e ∈ rest, e ∈ opened)
    (hshown : ∀ p, last ≤ p → openScopes stack rest p = openScopes stack opened p)
    (hscopes : ∀ p, p < last → openScopes stack opened p = scopes) :
    Sweep stack stop before rest (run.produce last scopes) marks ∧
      Paints (path before marks) run (run.produce last scopes) := by
  have hmax : (run.produce last scopes).stop = max run.stop last := TokenRun.stop_produce _ _ _
  refine ⟨⟨?_, ?_, ?_, ?_, h.within, ?_, h.ordered⟩, .produce ?_⟩
  · intro p hp
    rw [hshown p (by omega)]
    exact h.shown p (by omega)
  · have := h.run_le
    omega
  · exact fun e he => h.open_le e (hrest e he)
  · intro c hc
    have := h.ahead c hc
    have := hmarks c hc
    omega
  · exact fun e he => h.nests e (hrest e he)
  · intro p hle hlt
    have hnone : namesAt marks p = [] :=
      Mark.namesAt_of_lt fun c hc => Nat.lt_of_lt_of_le hlt (hmarks c hc)
    rw [path, hnone, List.append_nil, ← h.shown p hle, hscopes p hlt]

/-- The innermost open stretch is closed. -/
theorem pop (h : Sweep stack stop before ((scopes, last) :: rest) run marks)
    (hmarks : ∀ c ∈ marks, last ≤ c.span.start) :
    Sweep stack stop before rest (run.produce last scopes) marks ∧
      Paints (path before marks) run (run.produce last scopes) := by
  refine h.produce (h.open_le _ List.mem_cons_self) hmarks
    (fun e he => List.mem_cons_of_mem _ he) ?_ ?_
  · intro p hp
    exact (if_neg (Nat.not_lt.2 hp)).symm
  · intro p hp
    exact if_pos hp

/-- The gap before a capture is filled. -/
theorem fill (h : Sweep stack stop before opened run marks) (hstop : start ≤ stop)
    (hmarks : ∀ c ∈ marks, start ≤ c.span.start) (hhead : ∀ e ∈ opened.head?, start ≤ e.2) :
    Sweep stack stop before opened (run.produce start (base stack opened)) marks ∧
      Paints (path before marks) run (run.produce start (base stack opened)) := by
  refine h.produce hstop hmarks (fun e he => he) (fun p _ => rfl) ?_
  intro p hp
  exact openScopes_eq_base fun e he => Nat.lt_of_lt_of_le hp (hhead e he)

/-- All stretches that end before the next capture are closed. -/
theorem closeBefore (hmarks : ∀ c ∈ marks, start ≤ c.span.start) : ∀ {opened : Open}
    {run : TokenRun}, Sweep stack stop before opened run marks →
      Sweep stack stop before (closeBefore start opened run).1 (closeBefore start opened run).2
        marks ∧
      Paints (path before marks) run (Scan.closeBefore start opened run).2
  | [], run, h => ⟨h, .refl _ run⟩
  | (scopes, last) :: rest, run, h => by
    rw [Scan.closeBefore]
    split
    · next hle =>
      obtain ⟨hpop, hpaint⟩ := h.pop fun c hc => Nat.le_trans hle (hmarks c hc)
      obtain ⟨hclosed, hpaint'⟩ := closeBefore hmarks hpop
      exact ⟨hclosed, hpaint.trans hpaint'⟩
    · exact ⟨h, .refl _ run⟩

/-- After the last capture all stretches are closed. -/
theorem closeAll : ∀ {opened : Open} {run : TokenRun}, Sweep stack stop before opened run [] →
    Sweep stack stop before [] (closeAll opened run) [] ∧
      Paints (path before []) run (Scan.closeAll opened run)
  | [], run, h => ⟨h, .refl _ run⟩
  | (scopes, last) :: rest, run, h => by
    obtain ⟨hpop, hpaint⟩ := h.pop (by simp)
    obtain ⟨hclosed, hpaint'⟩ := closeAll hpop
    exact ⟨hclosed, hpaint.trans hpaint'⟩

/-- A capture is opened where the tokens end. Without names nothing needs to be kept of it. -/
theorem push (h : Sweep stack stop before opened run (c :: marks))
    (hstart : c.span.start ≤ run.stop) (hhead : ∀ e ∈ opened.head?, c.span.start < e.2) :
    Sweep stack stop (path before [c])
      (if c.names.isEmpty then opened else (base stack opened ++ c.names, c.span.stop) :: opened)
      run marks := by
  obtain ⟨hordered, hrest⟩ := List.pairwise_cons.1 h.ordered
  have hmarks : ∀ d ∈ marks, d ∈ c :: marks := fun d hd => List.mem_cons_of_mem c hd
  split
  · next hempty =>
    have hsame : path before [c] = before := by
      funext p
      have hnone : c.names = [] := List.isEmpty_iff.1 hempty
      by_cases hin : c.Holds p
      · rw [path, Mark.namesAt_of_holds hin, hnone, List.append_nil]
      · rw [path, Mark.namesAt_of_not_holds hin, List.append_nil]
    rw [hsame]
    exact ⟨h.shown, h.run_le, h.open_le, fun d hd => h.ahead d (hmarks d hd),
      fun d hd => h.within d (hmarks d hd), fun e he d hd => h.nests e he d (hmarks d hd), hrest⟩
  · refine ⟨?_, h.run_le, ?_, fun d hd => h.ahead d (hmarks d hd),
      fun d hd => h.within d (hmarks d hd), ?_, hrest⟩
    · intro p hp
      by_cases hin : p < c.span.stop
      · -- the capture lies inside the stretch around it, which therefore goes beyond the position
        have haround : openScopes stack opened p = base stack opened := by
          refine openScopes_eq_base fun e he => ?_
          have hlt := hhead e he
          rcases h.nests e (List.mem_of_mem_head? he) c List.mem_cons_self with hends | hinside
          · omega
          · omega
        have hholds : c.Holds p := ⟨Nat.le_trans hstart hp, hin⟩
        rw [openScopes, if_pos hin, path, Mark.namesAt_of_holds hholds, ← h.shown p hp, haround]
      · have hbehind : ¬c.Holds p := fun hholds => hin hholds.2
        rw [openScopes, if_neg hin, path, Mark.namesAt_of_not_holds hbehind, List.append_nil,
          h.shown p hp]
    · intro e he
      rcases List.mem_cons.1 he with rfl | he
      · exact (h.within c List.mem_cons_self).2
      · exact h.open_le e he
    · intro e he d hd
      rcases List.mem_cons.1 he with rfl | he
      · exact (hordered d hd).2
      · exact h.nests e he d (hmarks d hd)

/-- The names of one capture come before those of the captures after it. -/
theorem path_cons (before : Nat → ScopePath) (c : Mark) (marks : List Mark) :
    path (path before [c]) marks = path before (c :: marks) := by
  funext p
  rw [path, path, path, Mark.namesAt_cons c marks, List.append_assoc]

/-- What the code does for one capture: it closes stretches, fills the gap and opens the stretch. -/
theorem capture (h : Sweep stack stop before opened run (c :: marks)) {closed : Open × TokenRun}
    (hclosed : Scan.closeBefore c.span.start opened run = closed) :
    Sweep stack stop (path before [c])
        (if c.names.isEmpty then closed.1
          else (base stack closed.1 ++ c.names, c.span.stop) :: closed.1)
        (closed.2.produce c.span.start (base stack closed.1)) marks ∧
      Paints (path before (c :: marks)) run
        (closed.2.produce c.span.start (base stack closed.1)) := by
  subst hclosed
  have hwithin := h.within c List.mem_cons_self
  have hstop : c.span.start ≤ stop := Nat.le_trans (Nat.le_of_lt hwithin.1) hwithin.2
  have hstarts : ∀ d ∈ c :: marks, c.span.start ≤ d.span.start := by
    intro d hd
    rcases List.mem_cons.1 hd with rfl | hd
    · exact Nat.le_refl _
    · exact ((List.pairwise_cons.1 h.ordered).1 d hd).1
  have hhead := closeBefore_head c.span.start opened run
  obtain ⟨hopen, hpaint⟩ := h.closeBefore hstarts
  obtain ⟨hfilled, hpaint'⟩ := hopen.fill hstop hstarts fun e he => Nat.le_of_lt (hhead e he)
  exact ⟨hfilled.push (TokenRun.le_stop_produce _ _ _) hhead, hpaint.trans hpaint'⟩

end Sweep

/-- The names that the rule of a capture gives to it. -/
def captureNames (w : Scan) (owner : ScopeName) (m : Match) (id : RuleId) : ScopePath :=
  match w.grammar.rule? ⟨owner, id⟩ with
  | some rule => w.expand m rule.name?
  | none => []

/-- The captures that have a rule, took part and are not empty. -/
def captureMarks (w : Scan) (owner : ScopeName) (m : Match)
    (pairs : List (Option RuleId × Option Span)) : List Mark :=
  pairs.filterMap fun
    | (some id, some span) =>
      if span.start = span.stop then none else some ⟨w.captureNames owner m id, span⟩
    | _ => none

theorem captureMarks_idle {pair : Option RuleId × Option Span}
    {pairs : List (Option RuleId × Option Span)} (h : Idle pair) :
    w.captureMarks owner m (pair :: pairs) = w.captureMarks owner m pairs := by
  obtain ⟨id?, span?⟩ := pair
  cases id? with
  | none => rfl
  | some id =>
    cases span? with
    | none => rfl
    | some span =>
      have hempty : span.start = span.stop := h
      simp [captureMarks, hempty]

theorem captureMarks_cons {id : RuleId} {span : Span} {rule : Rule}
    {pairs : List (Option RuleId × Option Span)} (hspan : span.start ≠ span.stop)
    (hrule : w.grammar.rule? ⟨owner, id⟩ = some rule) :
    w.captureMarks owner m ((some id, some span) :: pairs) =
      ⟨w.expand m rule.name?, span⟩ :: w.captureMarks owner m pairs := by
  simp [captureMarks, captureNames, hspan, hrule]

/-- The walk over captures without patterns of their own goes through, and it paints the names of
all of them. -/
theorem resolvePairs_paints (atStart : Bool) : ∀ {pairs : List (Option RuleId × Option Span)}
    {before : Nat → ScopePath} {opened : Open} {run : TokenRun},
    (∀ id, some id ∈ pairs.map Prod.fst →
      ∃ rule, w.grammar.rule? ⟨owner, id⟩ = some rule ∧ rule.children = []) →
    Sweep stack stop before opened run (w.captureMarks owner m pairs) →
    ∃ run', w.resolvePairs stack owner atStart m opened run pairs = .ok run' ∧
      Sweep stack stop (Sweep.path before (w.captureMarks owner m pairs)) [] run' [] ∧
      Paints (Sweep.path before (w.captureMarks owner m pairs)) run run' := by
  intro pairs
  induction pairs with
  | nil =>
    intro before opened run _ h
    obtain ⟨hclosed, hpaint⟩ := h.closeAll
    have hpath : Sweep.path before [] = before := funext fun p => List.append_nil _
    refine ⟨_, rfl, ?_, hpaint⟩
    have hmarks : w.captureMarks owner m [] = [] := rfl
    rwa [hmarks, hpath]
  | cons pair pairs ih =>
    intro before opened run hrules h
    have hrest : ∀ id, some id ∈ pairs.map Prod.fst →
        ∃ rule, w.grammar.rule? ⟨owner, id⟩ = some rule ∧ rule.children = [] :=
      fun id hid => hrules id (List.mem_cons_of_mem _ hid)
    rcases idle_or pair with hidle | ⟨id, span, rfl, hspan⟩
    · rw [captureMarks_idle hidle] at h ⊢
      rw [resolvePairs_idle hidle]
      exact ih hrest h
    · obtain ⟨rule, hrule, hleaf⟩ := hrules id List.mem_cons_self
      rw [captureMarks_cons hspan hrule] at h ⊢
      rw [resolvePairs_plain hspan hrule hleaf]
      obtain ⟨hnext, hpaint⟩ := h.capture rfl
      obtain ⟨run', hrun, hend, hpaint'⟩ := ih hrest hnext
      rw [Sweep.path_cons] at hend hpaint'
      exact ⟨run', hrun, hend, hpaint.trans hpaint'⟩

/-- Captures that nest and have no patterns go through, and each position of the match comes to have
the scopes around the match and the names of all captures that hold it. -/
theorem resolveCaptures_paints (stack : RuleStack) {rules : CaptureRules}
    (hentry : s.run.stop ≤ m.start) (hmatch : m.start ≤ m.stop)
    (hrules : ∀ id, some id ∈ rules →
      ∃ rule, w.grammar.rule? ⟨owner, id⟩ = some rule ∧ rule.children = [])
    (hnest : Mark.Nest m (w.captureMarks owner m (rules.zip m.groups))) :
    ∃ run, w.resolveCaptures s stack owner rules m = .ok { s with run := run } ∧
      run.stop = m.stop ∧
      Paints (fun p => stack.scopes ++ namesAt (w.captureMarks owner m (rules.zip m.groups)) p)
        s.run run := by
  have hpairs : ∀ id, some id ∈ (rules.zip m.groups).map Prod.fst →
      ∃ rule, w.grammar.rule? ⟨owner, id⟩ = some rule ∧ rule.children = [] := by
    intro id hid
    obtain ⟨pair, hpair, heq⟩ := List.mem_map.1 hid
    exact hrules id (heq ▸ (List.of_mem_zip hpair).1)
  have hsweep : Sweep stack m.stop (fun _ => stack.scopes) [] s.run
      (w.captureMarks owner m (rules.zip m.groups)) :=
    { shown := fun _ _ => rfl
      run_le := Nat.le_trans hentry hmatch
      open_le := by simp
      ahead := fun c hc => Nat.le_trans hentry (hnest.within c hc).1
      within := fun c hc => (hnest.within c hc).2
      nests := by simp
      ordered := hnest.ordered }
  obtain ⟨inner, hinner, hend, hpaint⟩ := resolvePairs_paints s.atStart hpairs hsweep
  obtain ⟨hdone, hpaint'⟩ := hend.fill (Nat.le_refl m.stop) (by simp) (by simp)
  refine ⟨inner.produce m.stop stack.scopes, ?_, ?_, hpaint.trans (hpaint'.congr ?_)⟩
  · rw [resolveCaptures, hinner]
    rfl
  · have hle := hdone.run_le
    have hge := TokenRun.le_stop_produce inner m.stop stack.scopes
    exact Nat.le_antisymm hle hge
  · intro p
    exact List.append_nil _

end Scan

/-! ## Bytes -/

namespace Subject

/-- Offsets do not decrease from one position to a later one, wherever the text ends. -/
theorem byteOffset_mono (cs : List Char) {p q : Nat} (h : p ≤ q) :
    (ofList cs).byteOffset p ≤ (ofList cs).byteOffset q := by
  have hclamp (n : Nat) : (ofList cs).byteOffset n =
      (String.ofList (cs.take (min n cs.length))).utf8ByteSize := by
    rw [← byteOffset_ofList (Nat.min_le_right n cs.length)]
    simp [byteOffset, size, ofList]
  rw [hclamp, hclamp]
  have hle : min p cs.length ≤ min q cs.length := by omega
  rcases Nat.lt_or_eq_of_le hle with hlt | heq
  · exact Nat.le_of_lt (utf8ByteSize_take_lt hlt (Nat.min_le_right _ _))
  · rw [heq]

/-- A byte between the offsets of two positions belongs to the character at some position. -/
theorem exists_position {f : Nat → Nat} {a b n : Nat} (hab : a ≤ b) (ha : f a ≤ n) (hb : n < f b) :
    ∃ p, a ≤ p ∧ p < b ∧ f p ≤ n ∧ n < f (p + 1) := by
  induction hab with
  | refl => omega
  | @step b hab ih =>
    by_cases hlt : n < f b
    · obtain ⟨p, hap, hpb, hp⟩ := ih hlt
      exact ⟨p, hap, Nat.lt_succ_of_lt hpb, hp⟩
    · exact ⟨b, hab, Nat.lt_succ_self b, Nat.le_of_not_lt hlt, hb⟩

/-- The bytes of the character at a position lie in a range of positions if the position does. -/
theorem byteOffset_le_and_lt_iff {cs : List Char} {p n : Nat} (hp : (ofList cs).byteOffset p ≤ n)
    (hn : n < (ofList cs).byteOffset (p + 1)) (a b : Nat) :
    ((ofList cs).byteOffset a ≤ n ∧ n < (ofList cs).byteOffset b) ↔ a ≤ p ∧ p < b := by
  have hmono {x y : Nat} (h : x ≤ y) := byteOffset_mono cs h
  constructor
  · rintro ⟨ha, hb⟩
    constructor
    · by_contra hlt
      have := hmono (x := p + 1) (y := a) (by omega)
      omega
    · by_contra hge
      have := hmono (x := b) (y := p) (by omega)
      omega
  · rintro ⟨ha, hb⟩
    exact ⟨Nat.le_trans (hmono ha) hp, Nat.lt_of_lt_of_le hn (hmono hb)⟩

end Subject

/-- A byte has the names of the captures whose bytes hold it. -/
theorem Mark.namesAt_inBytes {cs : List Char} {p n : Nat}
    (hp : (Subject.ofList cs).byteOffset p ≤ n) (hn : n < (Subject.ofList cs).byteOffset (p + 1))
    (marks : List Mark) : namesAt (marks.map (·.inBytes (.ofList cs))) n = namesAt marks p := by
  induction marks with
  | nil => rfl
  | cons c marks ih =>
    have hholds : (c.inBytes (.ofList cs)).Holds n ↔ c.Holds p :=
      Subject.byteOffset_le_and_lt_iff hp hn c.span.start c.span.stop
    rw [List.map_cons, namesAt_cons, namesAt_cons c, ih]
    by_cases hin : c.Holds p
    · rw [namesAt_of_holds hin, namesAt_of_holds (hholds.2 hin)]
      rfl
    · rw [namesAt_of_not_holds hin, namesAt_of_not_holds (mt hholds.1 hin)]

namespace Scan

variable {w : Scan} {s : ScanState} {m : Match} {owner : ScopeName}

/-- A match that begins where the tokens end or later, with captures that nest and whose rules have
no patterns: the captures go through, the new tokens cover the text up to the end of the match, and
each byte of the match lies in a token that has the scopes around the match followed by the names of
just those captures that hold the byte, in the order of the groups. -/
theorem resolveCaptures_scopes (stack : RuleStack) {cs : List Char} {rules : CaptureRules}
    (htext : w.text = .ofList cs) (hentry : s.run.stop ≤ m.start) (hmatch : m.start ≤ m.stop)
    (hrules : ∀ id, some id ∈ rules →
      ∃ rule, w.grammar.rule? ⟨owner, id⟩ = some rule ∧ rule.children = [])
    (hnest : Mark.Nest m (w.captureMarks owner m (rules.zip m.groups))) :
    ∃ s' added, w.resolveCaptures s stack owner rules m = .ok s' ∧
      s'.run.tokens = added ++ s.run.tokens ∧ Cover s.run.stop added.reverse m.stop ∧
      ∀ n, w.text.byteOffset m.start ≤ n → n < w.text.byteOffset m.stop →
        ∃ t ∈ added.map (·.inBytes w.text), t.start ≤ n ∧ n < t.stop ∧
          t.scopes = stack.scopes ++
            namesAt ((w.captureMarks owner m (rules.zip m.groups)).map (·.inBytes w.text)) n := by
  obtain ⟨run, hrun, hstop, added, htokens, hcover, hscopes⟩ :=
    resolveCaptures_paints stack hentry hmatch hrules hnest
  rw [hstop] at hcover
  refine ⟨_, added, hrun, htokens, hcover, fun n hstart hend => ?_⟩
  rw [htext] at hstart hend ⊢
  obtain ⟨p, hle, hlt, hp, hn⟩ := Subject.exists_position hmatch hstart hend
  obtain ⟨t, ht, hheld⟩ := hcover.exists_mem (Nat.le_trans hentry hle) hlt
  have ht : t ∈ added := List.mem_reverse.1 ht
  have hbytes := (Subject.byteOffset_le_and_lt_iff hp hn t.start t.stop).2 hheld
  refine ⟨t.inBytes (.ofList cs), List.mem_map_of_mem ht, hbytes.1, hbytes.2, ?_⟩
  rw [Mark.namesAt_inBytes hp hn]
  exact hscopes t ht p hheld.1 hheld.2

end Scan

namespace Grammar

/-! ### Letters inside each other -/

/-- Two letters that are captured together, the second one twice by itself, first without a name. -/
def bracesSource : RawGrammar :=
  { (default : RawGrammar) with
    scopeName := "source.t"
    patterns := [
      { (default : RawRule) with
        matchSource := some "(a((b)))(c)"
        captures := some [
          (1, { (default : RawRule) with name := some "outer" }),
          (2, default),
          (3, { (default : RawRule) with name := some "inner" }),
          (4, { (default : RawRule) with name := some "last" })] }] }

theorem bracesSource_links : (ofSource bracesSource).toOption.isSome := by decide +kernel

/-- The grammar of the letters. -/
def braces : Grammar := (ofSource bracesSource).toOption.get bracesSource_links

/-- A line with the letters behind a character of two bytes. -/
def bracesLine : Scan := braces.lineScan 1 "éabc"

/-- The state at the start of the line. -/
def bracesStart : ScanState :=
  ⟨braces.rootStack.toOption.get (by decide +kernel), 0, none, true, .empty⟩

/-- The match of the letters. -/
def bracesMatch : Match :=
  ⟨1, 4, [some ⟨1, 4⟩, some ⟨1, 3⟩, some ⟨2, 3⟩, some ⟨2, 3⟩, some ⟨3, 4⟩]⟩

/-- The rule of the letters. -/
def bracesRule : MatchRule := (braces.matching? ⟨"source.t", 1⟩).get (by decide +kernel)

/-- Whether a capture has no rule, or one without patterns. -/
def plain (g : Grammar) (owner : ScopeName) (id? : Option RuleId) : Bool :=
  id?.all fun id => (g.rule? ⟨owner, id⟩).any (·.children.isEmpty)

theorem exists_rule_of_plain {g : Grammar} {owner : ScopeName} {rules : CaptureRules}
    (h : rules.all (g.plain owner) = true) (id : RuleId) (hid : some id ∈ rules) :
    ∃ rule, g.rule? ⟨owner, id⟩ = some rule ∧ rule.children = [] := by
  have hplain : (g.rule? ⟨owner, id⟩).any (·.children.isEmpty) = true :=
    List.all_eq_true.1 h (some id) hid
  cases hrule : g.rule? ⟨owner, id⟩ with
  | none =>
    rw [hrule] at hplain
    cases hplain
  | some rule =>
    rw [hrule] at hplain
    exact ⟨rule, rfl, List.isEmpty_iff.1 hplain⟩

/-- The second letter, at byte 3, has the names of the capture around it and of its own one. -/
theorem resolveCaptures_scopes_braces : bracesStart.run.stop ≤ bracesMatch.start ∧
    bracesRule.captures.all (braces.plain "source.t") = true ∧
    ∃ s' added, bracesLine.resolveCaptures bracesStart bracesStart.stack "source.t"
      bracesRule.captures bracesMatch = .ok s' ∧
      s'.run.tokens = added ++ bracesStart.run.tokens ∧
      ∃ t ∈ added.map (·.inBytes bracesLine.text), t.start ≤ 3 ∧ 3 < t.stop ∧
        t.scopes = ["source.t", "outer", "inner"] := by
  have hplain : bracesRule.captures.all (braces.plain "source.t") = true := by decide +kernel
  have hgrammar : bracesLine.grammar = braces := by rw [bracesLine, lineScan]
  have hmarks : bracesLine.captureMarks "source.t" bracesMatch
      (bracesRule.captures.zip bracesMatch.groups) =
      [⟨["outer"], ⟨1, 3⟩⟩, ⟨[], ⟨2, 3⟩⟩, ⟨["inner"], ⟨2, 3⟩⟩, ⟨["last"], ⟨3, 4⟩⟩] := by
    decide +kernel
  have hnest : Mark.Nest bracesMatch (bracesLine.captureMarks "source.t" bracesMatch
      (bracesRule.captures.zip bracesMatch.groups)) := by
    rw [hmarks]
    exact ⟨by decide, by decide, by decide⟩
  obtain ⟨s', added, hcaptures, htokens, _, hbytes⟩ :=
    Scan.resolveCaptures_scopes (s := bracesStart) bracesStart.stack
      (by rw [bracesLine, lineScan, lineText]) (by decide +kernel) (by decide)
      (fun id hid => hgrammar ▸ exists_rule_of_plain hplain id hid) hnest
  obtain ⟨t, ht, hstart, hstop, hscopes⟩ := hbytes 3 (by decide +kernel) (by decide +kernel)
  refine ⟨by decide +kernel, hplain, s', added, hcaptures, htokens, t, ht, hstart, hstop, ?_⟩
  rw [hscopes, hmarks]
  decide +kernel

/-- The whole line: the capture without a name makes no difference. -/
example : (braces.tokenizeLineWithin 1 "éabc" []).tokens =
    [⟨0, 2, ["source.t"]⟩, ⟨2, 3, ["source.t", "outer"]⟩, ⟨3, 4, ["source.t", "outer", "inner"]⟩,
      ⟨4, 5, ["source.t", "last"]⟩] := by
  decide +kernel

end Grammar

end Highlight
