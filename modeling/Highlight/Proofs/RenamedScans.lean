import Highlight.Proofs.RenamedGrammars
import Highlight.Tokenize.Line

/-!
# Scans do not look at names

A scan with a renamed grammar from a renamed stack goes as the scan with the grammar itself: both
fail, or both end with the same tokens and with stacks that differ by the renaming (`Parallel`).
Each operation of a scan keeps this; that it may compare rules, as the guard against staying in
place does, is no matter, for different rules keep different names. By induction over lines the
tokens of texts are the same (`tokenizeLinesWithin_rename`).
-/

namespace Highlight

/-! ## Parallel results -/

/-- Both results are values, of which the function makes one from the other, or both are errors. -/
inductive Parallel {α β : Type} (f : α → β) : Except ScanError α → Except ScanError β → Prop
  | ok (a : α) : Parallel f (.ok a) (.ok (f a))
  | error (e e' : ScanError) : Parallel f (.error e) (.error e')

namespace Parallel

variable {α α' β β' : Type} {f : α → α'} {k : β → β'}

theorem of_eq {a : α} {a' : α'} (h : f a = a') : Parallel f (.ok a) (.ok a') := h ▸ .ok a

theorem bind {x : Except ScanError α} {x' : Except ScanError α'} {y : α → Except ScanError β}
    {y' : α' → Except ScanError β'} (hx : Parallel f x x')
    (hy : ∀ a, Parallel k (y a) (y' (f a))) : Parallel k (x >>= y) (x' >>= y') := by
  cases hx with
  | ok a => exact hy a
  | error e e' => exact .error e e'

theorem ite {c : Prop} [Decidable c] {x y : Except ScanError α} {x' y' : Except ScanError α'}
    (hx : Parallel f x x') (hy : Parallel f y y') :
    Parallel f (if c then x else y) (if c then x' else y') := by
  split
  · exact hx
  · exact hy

theorem refl (x : Except ScanError α) : Parallel id x x := by
  cases x with
  | ok a => exact .ok a
  | error e => exact .error e e

end Parallel

/-! ## Renamed states -/

section

variable (ρ : Renaming)

/-- The region with its rule renamed. -/
def Frame.rename (f : Frame) : Frame := { f with rule := f.rule.rename ρ }

/-- The regions with their rules renamed. -/
def RuleStack.rename (stack : RuleStack) : RuleStack := stack.map (Frame.rename ρ)

/-- The candidate with its rule renamed. -/
def Candidate.rename : Candidate → Candidate
  | .ending => .ending
  | .rule r => .rule (r.rename ρ)

/-- The state with a renamed stack. -/
def ScanState.rename (s : ScanState) : ScanState := { s with stack := RuleStack.rename ρ s.stack }

/-- The progress with a renamed state. -/
def Scan.Progress.rename : Scan.Progress → Scan.Progress
  | .more s => .more (s.rename ρ)
  | .done s => .done (s.rename ρ)

/-- The continued region with renamed rules. -/
def Scan.Continued.rename (c : Scan.Continued) : Scan.Continued where
  frame := c.frame.rename ρ
  below := RuleStack.rename ρ c.below
  rule := { c.rule with
    beginCaptures := c.rule.beginCaptures.rename (ρ c.frame.rule.grammar)
    whileCaptures := c.rule.whileCaptures.rename (ρ c.frame.rule.grammar)
    patterns := c.rule.patterns.map (ρ c.frame.rule.grammar) }

/-- The tokens of a line with a renamed stack. -/
def LineTokens.rename (t : LineTokens) : LineTokens :=
  { t with stack := RuleStack.rename ρ t.stack }

variable {ρ}

namespace RuleStack

@[simp] theorem rename_nil : RuleStack.rename ρ [] = [] := rfl

@[simp] theorem rename_cons (f : Frame) (s : RuleStack) :
    RuleStack.rename ρ (f :: s) = f.rename ρ :: RuleStack.rename ρ s := rfl

@[simp] theorem depth_rename (s : RuleStack) : (RuleStack.rename ρ s).depth = s.depth := by
  cases s <;> rfl

@[simp] theorem scopes_rename (s : RuleStack) : (RuleStack.rename ρ s).scopes = s.scopes := by
  cases s <;> rfl

@[simp] theorem isEmpty_rename (s : RuleStack) : (RuleStack.rename ρ s).isEmpty = s.isEmpty := by
  cases s <;> rfl

@[simp] theorem length_rename (s : RuleStack) : (RuleStack.rename ρ s).length = s.length :=
  List.length_map ..

theorem push_rename (s : RuleStack) (f : Frame) :
    (RuleStack.rename ρ s).push (f.rename ρ) = RuleStack.rename ρ (s.push f) := by
  simp [push, Frame.rename]

theorem safePop_rename (s : RuleStack) :
    (RuleStack.rename ρ s).safePop = RuleStack.rename ρ s.safePop := by
  unfold safePop
  rw [depth_rename]
  split
  · cases s <;> rfl
  · rfl

theorem clearPositions_rename : ∀ s : RuleStack,
    (RuleStack.rename ρ s).clearPositions = RuleStack.rename ρ s.clearPositions
  | [] => rfl
  | f :: rest => by
    have hclean : (f.rename ρ).isClean = f.isClean := rfl
    rw [rename_cons, clearPositions, clearPositions, hclean]
    split
    · rfl
    · rw [clearPositions_rename rest]
      rfl

/-- Whether a rule was entered at a place can be told by its new name. -/
theorem entered_rename (s : RuleStack) (r : RuleRef) (position : Nat) :
    (RuleStack.rename ρ s).entered (r.rename ρ) position = s.entered r position := by
  unfold entered
  induction s with
  | nil => rfl
  | cons f rest ih =>
    rw [rename_cons, List.takeWhile_cons, List.takeWhile_cons]
    have henter : (f.rename ρ).enterPos = f.enterPos := rfl
    rw [henter]
    split
    · have hrule : ((f.rename ρ).rule == r.rename ρ) = (f.rule == r) :=
        RuleRef.rename_beq ρ f.rule r
      rw [List.any_cons, List.any_cons, ih, hrule]
    · rfl

end RuleStack

/-! ## Choosing a match -/

theorem Pattern.first_map {α β : Type} (f : α → β) (chars : Array Char) (start stop : Nat)
    (a : Anchors) : ∀ (ps : List (α × Pattern)) (best : Option (α × Match)),
      Pattern.first chars start stop a (best.map fun e => (f e.1, e.2))
          (ps.map fun e => (f e.1, e.2)) =
        (Pattern.first chars start stop a best ps).map fun e => (f e.1, e.2)
  | [], _ => rfl
  | (tag, p) :: ps, best => by
    have ih := Pattern.first_map f chars start stop a ps
    rw [List.map_cons, Pattern.first, Pattern.first]
    dsimp only
    cases p.search chars start stop a with
    | none => exact ih best
    | some m =>
      cases best with
      | none =>
        dsimp only [Option.map_none]
        split
        · rfl
        · exact ih (some (tag, m))
      | some old =>
        dsimp only [Option.map_some]
        split
        · split
          · rfl
          · exact ih (some (tag, m))
        · exact ih (some old)

variable {g g' : Grammar}

namespace Grammar.Renamed

theorem rule_parallel (h : g.Renamed ρ g') (r : RuleRef) :
    Parallel (Rule.rename (ρ r.grammar)) (g.rule r) (g'.rule (r.rename ρ)) := by
  unfold Grammar.rule
  rw [h.rule?]
  cases g.rule? r with
  | some rule => exact .ok rule
  | none => exact .error _ _

end Grammar.Renamed

theorem Frame.resolvedEnd_parallel (f : Frame) (e : EndPattern) :
    Parallel id (f.resolvedEnd e) ((f.rename ρ).resolvedEnd e) := by
  unfold Frame.resolvedEnd
  dsimp only [Frame.rename]
  split
  · exact .ok _
  · exact .ok _
  · exact .error _ _

namespace Grammar.Renamed

theorem regionPatterns_parallel (h : g.Renamed ρ g') (f : Frame) :
    Parallel (List.map fun e : Candidate × Pattern => (e.1.rename ρ, e.2)) (g.regionPatterns f)
      (g'.regionPatterns (f.rename ρ)) := by
  have hinside : ((g'.childPatterns (f.rename ρ).rule).map fun e => (Candidate.rule e.1, e.2)) =
      ((g.childPatterns f.rule).map fun e => (Candidate.rule e.1, e.2)).map
        fun e => (e.1.rename ρ, e.2) := by
    change (g'.childPatterns (f.rule.rename ρ)).map _ = _
    rw [h.childPatterns, List.map_map, List.map_map]
    rfl
  unfold Grammar.regionPatterns
  rw [hinside]
  refine (h.rule_parallel f.rule).bind fun rule => ?_
  cases rule with
  | beginEnd r =>
    refine (f.resolvedEnd_parallel r.endPattern).bind fun e => ?_
    -- the end keeps its place before or after the patterns inside
    dsimp only [Rule.rename]
    cases r.endLast with
    | false => exact .ok ((Candidate.ending, e) :: _)
    | true =>
      rw [if_pos rfl, if_pos rfl]
      exact .of_eq (List.map_append ..)
  | matching r => exact .ok _
  | beginWhile r => exact .ok _
  | group r => exact .ok _
  | inclusion target => exact .ok _

theorem any_start_rename (best : Option (Priority × RuleRef × Match)) (n : Nat) :
    (best.map fun e => (e.1, e.2.1.rename ρ, e.2.2)).any
        (fun (_, _, old) => decide (old.start ≤ n)) =
      best.any fun (_, _, old) => decide (old.start ≤ n) := by
  cases best <;> rfl

theorem firstInjected (h : g.Renamed ρ g') (p : Place) :
    ∀ (active : List (Priority × RuleRef)) (best : Option (Priority × RuleRef × Match)),
      p.firstInjected g' (best.map fun e => (e.1, e.2.1.rename ρ, e.2.2))
          (active.map fun e => (e.1, e.2.rename ρ)) =
        (p.firstInjected g best active).map fun e => (e.1, e.2.1.rename ρ, e.2.2)
  | [], _ => rfl
  | (priority, target) :: rest, best => by
    have ih := firstInjected h p rest
    have hfirst : p.first (g'.injectedPatterns (target.rename ρ)) =
        (p.first (g.injectedPatterns target)).map fun e => (e.1.rename ρ, e.2) := by
      rw [h.injectedPatterns]
      exact Pattern.first_map (RuleRef.rename ρ) _ _ _ _ _ none
    rw [List.map_cons, Place.firstInjected, Place.firstInjected]
    dsimp only
    rw [hfirst]
    cases p.first (g.injectedPatterns target) with
    | none => exact ih best
    | some found =>
      obtain ⟨r, m⟩ := found
      dsimp only [Option.map_some]
      rw [any_start_rename]
      split
      · exact ih best
      · split
        · rfl
        · exact ih (some (priority, r, m))

end Grammar.Renamed

theorem Place.prefer_map (own : Option (Candidate × Match))
    (injected : Option (Priority × RuleRef × Match)) :
    Place.prefer (own.map fun e => (e.1.rename ρ, e.2))
        (injected.map fun e => (e.1, e.2.1.rename ρ, e.2.2)) =
      (Place.prefer own injected).map fun e => (e.1.rename ρ, e.2) := by
  cases own with
  | none => cases injected <;> rfl
  | some own =>
    cases injected with
    | none => rfl
    | some injected =>
      dsimp only [Option.map_some, Place.prefer]
      split <;> rfl

theorem Place.nextMatch_parallel (h : g.Renamed ρ g') (p : Place) (stack : RuleStack) :
    Parallel (Option.map fun e : Candidate × Match => (e.1.rename ρ, e.2)) (p.nextMatch g stack)
      (p.nextMatch g' (RuleStack.rename ρ stack)) := by
  cases stack with
  | nil => exact .ok none
  | cons f rest =>
    refine (h.regionPatterns_parallel f).bind fun patterns => ?_
    have hown : p.first (patterns.map fun e => (e.1.rename ρ, e.2)) =
        (p.first patterns).map fun e => (e.1.rename ρ, e.2) :=
      Pattern.first_map (Candidate.rename ρ) _ _ _ _ _ none
    have hinjected : p.firstInjected g' none
        (g'.activeInjections (RuleStack.scopes (RuleStack.rename ρ (f :: rest)))) =
          (p.firstInjected g none (g.activeInjections (RuleStack.scopes (f :: rest)))).map
            fun e => (e.1, e.2.1.rename ρ, e.2.2) := by
      rw [RuleStack.scopes_rename, h.activeInjections]
      exact h.firstInjected p _ none
    dsimp only
    rw [hown, hinjected, Place.prefer_map]
    exact .ok _

/-! ## Scanning -/

namespace Scan

/-- The same text scanned with another grammar. -/
abbrev inGrammar (w : Scan) (g' : Grammar) (nested' : NestedScan) : Scan :=
  { w with grammar := g', nested := nested' }

theorem base_rename (stack : RuleStack) (opened : Open) :
    base (RuleStack.rename ρ stack) opened = base stack opened := by
  cases opened with
  | nil => exact RuleStack.scopes_rename stack
  | cons _ _ => rfl

section

variable {w : Scan} {nested' : NestedScan} (hg : w.grammar.Renamed ρ g')
  (hnested : ∀ stack start stop atStart run,
    Parallel id (w.nested stack start stop atStart run)
      (nested' (RuleStack.rename ρ stack) start stop atStart run))

variable (g' nested') in
theorem captureFrame_rename (stack : RuleStack) (m : Match) (r : RuleRef) (rule : Rule)
    (f : RuleId → RuleId) (start : Nat) :
    (w.inGrammar g' nested').captureFrame (RuleStack.rename ρ stack) m (r.rename ρ) (rule.rename f)
      start = (w.captureFrame stack m r rule start).rename ρ := by
  simp [captureFrame, Frame.rename, expand]

variable (g' nested') in
theorem openedFrame_rename (s : ScanState) (r : RuleRef) (name : Option String) (m : Match) :
    (w.inGrammar g' nested').openedFrame (s.rename ρ) (r.rename ρ) name m =
      (w.openedFrame s r name m).rename ρ := by
  simp [openedFrame, Frame.rename, ScanState.rename, expand]

include hg hnested

theorem resolvePairs_parallel (stack : RuleStack) (owner : ScopeName) (atStart : Bool) (m : Match) :
    ∀ (pairs : List (Option RuleId × Option Span)) (opened : Open) (run : TokenRun),
      Parallel id (w.resolvePairs stack owner atStart m opened run pairs)
        ((w.inGrammar g' nested').resolvePairs (RuleStack.rename ρ stack) owner atStart m opened run
          (pairs.map fun e => (e.1.map (ρ owner), e.2))) := by
  intro pairs
  induction pairs with
  | nil => exact fun _ _ => .ok _
  | cons pair pairs ih =>
    intro opened run
    obtain ⟨rule?, span?⟩ := pair
    cases rule? with
    | none => exact ih opened run
    | some place =>
      cases span? with
      | none => exact ih opened run
      | some span =>
        rw [List.map_cons]
        simp only [resolvePairs, Option.map_some]
        split
        · exact ih opened run
        · refine (hg.rule_parallel ⟨owner, place⟩).bind fun rule => ?_
          simp only [Rule.children_rename, List.isEmpty_map, Rule.name?_rename, base_rename]
          split
          · exact ih _ _
          · -- the region of the capture is pushed under its new name
            let f := w.captureFrame stack m ⟨owner, place⟩ rule span.start
            have hframe := captureFrame_rename (ρ := ρ) (w := w) g' nested' stack m
              ⟨owner, place⟩ rule (ρ owner) span.start
            have hpush := RuleStack.push_rename (ρ := ρ) stack f
            have hrun := hnested (stack.push f) span.start span.stop (atStart && span.start == 0)
            rw [← hpush, ← hframe] at hrun
            exact (hrun _).bind fun run => ih _ run

theorem resolveCaptures_parallel (s : ScanState) (stack : RuleStack) (owner : ScopeName)
    (rules : CaptureRules) (m : Match) :
    Parallel (ScanState.rename ρ) (w.resolveCaptures s stack owner rules m)
      ((w.inGrammar g' nested').resolveCaptures (s.rename ρ) (RuleStack.rename ρ stack) owner
        (rules.rename (ρ owner)) m) := by
  have hpairs : (rules.rename (ρ owner)).zip m.groups =
      (rules.zip m.groups).map fun e => (e.1.map (ρ owner), e.2) := List.zip_map_left ..
  unfold resolveCaptures
  rw [hpairs]
  refine (resolvePairs_parallel hg hnested stack owner s.atStart m _ _ _).bind fun run => ?_
  rw [RuleStack.scopes_rename]
  exact .ok { s with run := run.produce m.stop stack.scopes }

omit hg hnested in
theorem produce_rename (s : ScanState) (stop : Nat) :
    (s.rename ρ).produce stop = (s.produce stop).rename ρ := by
  simp [ScanState.produce, ScanState.rename]

theorem applyEnd_parallel (s : ScanState) (m : Match) :
    Parallel (Progress.rename ρ) (w.applyEnd s m)
      ((w.inGrammar g' nested').applyEnd (s.rename ρ) m) := by
  obtain ⟨stack, position, anchor, atStart, run⟩ := s
  cases stack with
  | nil => exact .ok _
  | cons f below =>
    refine (hg.rule_parallel f.rule).bind fun rule => ?_
    cases rule with
    | beginEnd r =>
      let s : ScanState := ⟨f :: below, position, anchor, atStart, run⟩
      have hcaptures := resolveCaptures_parallel hg hnested (s.produce m.start)
        (f.atEnd :: below) f.rule.grammar r.endCaptures m
      rw [← produce_rename] at hcaptures
      refine hcaptures.bind fun t => ?_
      have hdone := Parallel.ok (f := Progress.rename ρ)
        (.done { t with anchor := f.anchorPos, stack := f.atEnd :: below })
      exact hdone.ite (.ok (Progress.more { t with anchor := f.anchorPos, stack := below }))
    | matching r => exact .error _ _
    | beginWhile r => exact .error _ _
    | group r => exact .error _ _
    | inclusion target => exact .error _ _

theorem applyMatch_parallel (s : ScanState) (r : RuleRef) (rule : MatchRule) (m : Match) :
    Parallel (Progress.rename ρ) (w.applyMatch s r rule m)
      ((w.inGrammar g' nested').applyMatch (s.rename ρ) (r.rename ρ)
        { rule with captures := rule.captures.rename (ρ r.grammar) } m) := by
  have hcaptures := resolveCaptures_parallel hg hnested (s.produce m.start)
    (s.stack.push (w.openedFrame s r rule.name m)) r.grammar rule.captures m
  rw [← produce_rename, ← RuleStack.push_rename, ← openedFrame_rename g' nested'] at hcaptures
  refine hcaptures.bind fun t => Parallel.ite (.ok (Progress.more t)) (.of_eq ?_)
  rw [Progress.rename, ScanState.rename, ← RuleStack.safePop_rename]
  rfl

theorem applyBegin_parallel (s : ScanState) (r : RuleRef) (name contentName : Option String)
    (captures : CaptureRules) (e : EndPattern) (m : Match) :
    Parallel (Progress.rename ρ) (w.applyBegin s r name contentName captures e m)
      ((w.inGrammar g' nested').applyBegin (s.rename ρ) (r.rename ρ) name contentName
        (captures.rename (ρ r.grammar)) e m) := by
  have hend : (w.inGrammar g' nested').resolveEnd m e = w.resolveEnd m e := by
    cases e <;> rfl
  have hcaptures := resolveCaptures_parallel hg hnested (s.produce m.start)
    (s.stack.push (w.openedFrame s r name m)) r.grammar captures m
  rw [← produce_rename, ← RuleStack.push_rename, ← openedFrame_rename g' nested'] at hcaptures
  refine hcaptures.bind fun t => ?_
  rw [hend]
  refine (Parallel.refl _).bind fun p => ?_
  let f : Frame := { w.openedFrame s r name m with
    contentScopes := (w.openedFrame s r name m).contentScopes ++ w.expand m contentName
    endPattern := p }
  have hmore := Parallel.ok (f := Progress.rename ρ)
    (.more { t with anchor := some m.stop, stack := s.stack.push f })
  rw [Progress.rename, ScanState.rename, ← RuleStack.push_rename] at hmore
  have hentered : (s.rename ρ).stack.entered (r.rename ρ) (s.rename ρ).position =
    s.stack.entered r s.position := RuleStack.entered_rename s.stack r s.position
  simp only [openedFrame_rename, hentered]
  exact Parallel.ite (.ok (Progress.done { t with anchor := some m.stop })) hmore

theorem applyRule_parallel (s : ScanState) (r : RuleRef) (m : Match) :
    Parallel (Progress.rename ρ) (w.applyRule s r m)
      ((w.inGrammar g' nested').applyRule (s.rename ρ) (r.rename ρ) m) := by
  refine (hg.rule_parallel r).bind fun rule => ?_
  cases rule with
  | matching rule => exact applyMatch_parallel hg hnested s r rule m
  | beginEnd rule => exact applyBegin_parallel hg hnested s r _ _ _ _ m
  | beginWhile rule => exact applyBegin_parallel hg hnested s r _ _ _ _ m
  | group rule => exact .error _ _
  | inclusion target => exact .error _ _

variable (g' nested') in
omit hg hnested in
theorem afterMatch_rename (s : ScanState) (m : Match) (q : Progress) :
    (w.inGrammar g' nested').afterMatch (s.rename ρ) m (q.rename ρ) =
      (w.afterMatch s m q).rename ρ := by
  cases q with
  | done t => exact congrArg Progress.done (produce_rename t w.stop)
  | more t =>
    change Progress.more (if s.position < m.stop then _ else _) =
      Progress.more (ScanState.rename ρ (if s.position < m.stop then _ else _))
    split <;> rfl

theorem step_parallel (s : ScanState) :
    Parallel (Progress.rename ρ) (w.step s) ((w.inGrammar g' nested').step (s.rename ρ)) := by
  refine ((w.place s).nextMatch_parallel hg s.stack).bind fun found => ?_
  cases found with
  | none =>
    exact .of_eq (congrArg Progress.done (produce_rename s w.stop).symm)
  | some found =>
    obtain ⟨c, m⟩ := found
    have happly : Parallel (Progress.rename ρ) (w.applyCandidate s m c)
        ((w.inGrammar g' nested').applyCandidate (s.rename ρ) m (c.rename ρ)) := by
      cases c with
      | ending => exact applyEnd_parallel hg hnested s m
      | rule r => exact applyRule_parallel hg hnested s r m
    exact happly.bind fun q => .of_eq (afterMatch_rename g' nested' s m q).symm

theorem steps_parallel : ∀ (n : Nat) (s : ScanState),
    Parallel (ScanState.rename ρ) (w.steps n s) ((w.inGrammar g' nested').steps n (s.rename ρ))
  | 0, _ => .error _ _
  | n + 1, s => by
    refine (step_parallel hg hnested s).bind fun q => ?_
    cases q with
    | done t => exact .ok t
    | more t => exact steps_parallel n t

omit hnested in
theorem continued_parallel : ∀ stack : RuleStack,
    Parallel (List.map (Continued.rename ρ)) (continued w.grammar stack)
      (continued g' (RuleStack.rename ρ stack))
  | [] => .ok []
  | f :: below => by
    refine (continued_parallel below).bind fun outer => ?_
    refine (hg.rule_parallel f.rule).bind fun rule => ?_
    cases rule with
    | beginWhile rule => exact .of_eq (List.map_append ..)
    | beginEnd rule => exact .ok outer
    | matching rule => exact .ok outer
    | group rule => exact .ok outer
    | inclusion target => exact .ok outer

theorem continueRegions_parallel : ∀ (cs : List Continued) (s : ScanState),
    Parallel (ScanState.rename ρ) (w.continueRegions s cs)
      ((w.inGrammar g' nested').continueRegions (s.rename ρ) (cs.map (Continued.rename ρ)))
  | [], s => .ok s
  | c :: cs, s => by
    refine (c.frame.resolvedEnd_parallel c.rule.whilePattern).bind fun p => ?_
    have hsearch : (id p).search (w.inGrammar g' nested').text.chars (s.rename ρ).position
        (w.inGrammar g' nested').stop (s.rename ρ).anchors =
          p.search w.text.chars s.position w.stop s.anchors := rfl
    rw [hsearch]
    cases p.search w.text.chars s.position w.stop s.anchors with
    | none => exact .ok { s with stack := c.below }
    | some m =>
      have hcaptures := resolveCaptures_parallel hg hnested
        { s with run := s.run.produce m.start (RuleStack.scopes (c.frame :: c.below)) }
        (c.frame :: c.below) c.frame.rule.grammar c.rule.whileCaptures m
      refine hcaptures.bind fun t => Parallel.ite ?_ ?_
      · exact continueRegions_parallel cs { t with
          anchor := some m.stop, position := m.stop, atStart := false }
      · exact continueRegions_parallel cs { t with anchor := some m.stop }

theorem enterLine_parallel (s : ScanState) :
    Parallel (ScanState.rename ρ) (w.enterLine s)
      ((w.inGrammar g' nested').enterLine (s.rename ρ)) := by
  refine (continued_parallel hg s.stack).bind fun cs => ?_
  have hstart : (s.rename ρ).atLineStart = s.atLineStart.rename ρ := by
    obtain ⟨stack, position, anchor, atStart, run⟩ := s
    cases stack <;> rfl
  rw [hstart]
  exact continueRegions_parallel hg hnested cs _

omit hnested in
theorem bound_rename (s : ScanState) : (w.inGrammar g' nested').bound (s.rename ρ) = w.bound s := by
  have hcount := hg.count
  unfold Grammar.ruleCount at hcount
  simp [bound, ScanState.rename, hcount]

/-- A scan takes as many steps as it may with a renamed grammar. -/
theorem steps_bound_parallel (s : ScanState) :
    Parallel (ScanState.rename ρ) (w.steps (w.bound s) s)
      ((w.inGrammar g' nested').steps ((w.inGrammar g' nested').bound (s.rename ρ))
        (s.rename ρ)) := by
  rw [bound_rename hg]
  exact steps_parallel hg hnested (w.bound s) s

end

end Scan

namespace Grammar.Renamed

variable (h : g.Renamed ρ g')

include h

theorem scanCaptured_parallel (text : Subject) : ∀ (levels : Nat) (stack : RuleStack)
    (start stop : Nat) (atStart : Bool) (run : TokenRun),
    Parallel id (g.scanCaptured text levels stack start stop atStart run)
      (g'.scanCaptured text levels (RuleStack.rename ρ stack) start stop atStart run)
  | 0, _, _, _, _, _ => .error _ _
  | levels + 1, stack, start, stop, atStart, run => by
    let w : Scan := ⟨g, text, stop, g.scanCaptured text levels⟩
    have hsteps := Scan.steps_bound_parallel (w := w) h (scanCaptured_parallel text levels)
      ⟨stack, start, none, atStart, run⟩
    exact hsteps.bind fun t => Parallel.ok (f := id) t.run

theorem scanLine_parallel (levels : Nat) (text : Subject) (stack : RuleStack) (atStart : Bool) :
    Parallel (ScanState.rename ρ) (g.scanLine levels text stack atStart)
      (g'.scanLine levels text (RuleStack.rename ρ stack) atStart) := by
  let w : Scan := ⟨g, text, text.size, g.scanCaptured text levels⟩
  have hnested := h.scanCaptured_parallel text levels
  exact (Scan.enterLine_parallel (w := w) h hnested ⟨stack, 0, none, atStart, .empty⟩).bind fun s =>
    Scan.steps_bound_parallel (w := w) h hnested s

theorem startStack_parallel (stack : RuleStack) :
    Parallel (RuleStack.rename ρ) (g.startStack stack)
      (g'.startStack (RuleStack.rename ρ stack)) := by
  unfold startStack
  rw [RuleStack.isEmpty_rename]
  refine Parallel.ite ?_ (.ok stack)
  unfold rootStack
  rw [h.scopeName, h.root?]
  cases g.root? g.scopeName with
  | none => exact .error _ _
  | some r => exact .ok _

theorem tryTokenizeLine_parallel (levels : Nat) (line : String) (stack : RuleStack) :
    Parallel (LineTokens.rename ρ) (g.tryTokenizeLine levels line stack)
      (g'.tryTokenizeLine levels line (RuleStack.rename ρ stack)) := by
  refine (h.startStack_parallel stack).bind fun start => ?_
  rw [RuleStack.isEmpty_rename]
  refine (h.scanLine_parallel levels _ start stack.isEmpty).bind fun s => .of_eq ?_
  rw [LineTokens.rename, ← RuleStack.clearPositions_rename]
  rfl

theorem tokenizeLineWithin_rename (levels : Nat) (line : String) (stack : RuleStack) :
    g'.tokenizeLineWithin levels line (RuleStack.rename ρ stack) =
      (g.tokenizeLineWithin levels line stack).rename ρ := by
  unfold tokenizeLineWithin
  have hline := h.tryTokenizeLine_parallel levels line stack
  generalize g.tryTokenizeLine levels line stack = x at hline ⊢
  generalize g'.tryTokenizeLine levels line (RuleStack.rename ρ stack) = x' at hline ⊢
  cases hline with
  | ok t => rfl
  | error e e' =>
    simp [wholeLine, LineTokens.rename, h.scopeName]

/-- The tokens of lines are the same, and the stacks after them differ by the renaming. -/
theorem tokenizeLinesWithin_rename (levels : Nat) : ∀ (lines : List String) (stack : RuleStack),
    g'.tokenizeLinesWithin levels (RuleStack.rename ρ stack) lines =
      (g.tokenizeLinesWithin levels stack lines).map (LineTokens.rename ρ)
  | [], _ => rfl
  | line :: lines, stack => by
    rw [tokenizeLinesWithin, tokenizeLinesWithin, h.tokenizeLineWithin_rename, List.map_cons]
    congr 1
    exact tokenizeLinesWithin_rename levels lines _

end Grammar.Renamed

end

end Highlight
