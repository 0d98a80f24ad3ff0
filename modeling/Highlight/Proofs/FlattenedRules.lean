import Mathlib.Logic.Relation
import Highlight.Proofs.MatchSelection
import Highlight.Proofs.ScanFailures

/-!
# Flattened rules

The patterns of a region are those of its rules, where groups and references are replaced by what
they stand for. Rules may stand for each other in circles, so the walk that lists the patterns goes
through each group and reference once. It leaves out more than circles: a group that the walk has
been through is left out wherever it is referred to again.

`Grammar.expansion` leaves out no more than circles need: it cuts a group or reference only inside
itself. What is proved:

1. an expansion has the patterns of exactly those rules that can be reached through groups and
   references (`mem_expansion`), because a way that goes through a group twice can be shortened;
2. the list of the walk is the expansion without some of its repeats (`flatten_omitsRepeats`). A
   group that is left out has either been walked through to its end, and then all it stands for is
   listed, or it is open, and then the expansion cuts it too;
3. repeats never win: the first of the earliest matches is the same without them
   (`OmitsRepeats.first_eq`).

`patterns_exact` puts these together for the patterns of a region and of an injected rule.
-/

namespace Highlight

open Relation (ReflTransGen)

/-! ## Lists without repeats -/

theorem Pattern.found_cons {α : Type} {chars : Array Char} {start stop : Nat} {anchors : Anchors}
    (e : α × Pattern) (es : List (α × Pattern)) : found chars start stop anchors (e :: es) =
      ((e.2.search chars start stop anchors).map fun m => (e.1, m)).toList ++
        found chars start stop anchors es := by
  obtain ⟨tag, p⟩ := e
  cases hm : p.search chars start stop anchors with
  | none => simp [found, hm]
  | some m => simp [found, hm]

/-- The short list is the long one without some of the elements that were seen before: that occur in
`seen` or earlier in the list. -/
inductive OmitsRepeats {α : Type} : (seen short long : List α) → Prop
  | nil {seen : List α} : OmitsRepeats seen [] []
  | keep {seen short long : List α} {a : α} (h : OmitsRepeats (a :: seen) short long) :
      OmitsRepeats seen (a :: short) (a :: long)
  | skip {seen short long : List α} {a : α} (hseen : a ∈ seen) (h : OmitsRepeats seen short long) :
      OmitsRepeats seen short (a :: long)

namespace OmitsRepeats

variable {α : Type} {seen short long : List α}

theorem omitAll (h : OmitsRepeats seen short long) :
    ∀ {as : List α}, (∀ a ∈ as, a ∈ seen) → OmitsRepeats seen short (as ++ long)
  | [], _ => h
  | a :: as, hall => by
    have hrest : ∀ b ∈ as, b ∈ seen := fun b hb => hall b (List.mem_cons_of_mem a hb)
    exact .skip (hall a List.mem_cons_self) (omitAll h hrest)

/-- No element is lost. -/
theorem mem_iff (h : OmitsRepeats seen short long) {b : α} (hb : b ∉ seen) :
    b ∈ short ↔ b ∈ long := by
  induction h with
  | nil => exact Iff.rfl
  | @keep seen short long a _ ih =>
    rw [List.mem_cons, List.mem_cons]
    by_cases hba : b = a
    · simp only [hba, true_or]
    · have hseen : b ∉ a :: seen := by
        intro hmem
        rcases List.mem_cons.1 hmem with heq | hmem
        · exact hba heq
        · exact hb hmem
      rw [ih hseen]
  | @skip seen short long a hseen _ ih =>
    have hba : b ≠ a := by
      rintro rfl
      exact hb hseen
    rw [ih hb, List.mem_cons]
    simp only [hba, false_or]

/-- Where the best match so far starts no later than those of the patterns that were seen, repeats
of these change nothing. -/
theorem earlier_eq {β : Type} {chars : Array Char} {start stop : Nat} {anchors : Anchors}
    {seen short long : List (β × Pattern)} (h : OmitsRepeats seen short long)
    {best : Option (β × Match)}
    (hbest : ∀ e ∈ seen, ∀ m, e.2.search chars start stop anchors = some m →
      ∃ b, best = some b ∧ b.2.start ≤ m.start) :
    Pattern.earlier best (Pattern.earliest (Pattern.found chars start stop anchors short)) =
      Pattern.earlier best (Pattern.earliest (Pattern.found chars start stop anchors long)) := by
  induction h generalizing best with
  | nil => rfl
  | @keep seen short long e _ ih =>
    rw [Pattern.found_cons, Pattern.found_cons]
    cases hm : e.2.search chars start stop anchors with
    | none =>
      simp only [Option.map_none, Option.toList_none, List.nil_append]
      apply ih
      intro d hd n hn
      rcases List.mem_cons.1 hd with rfl | hd
      · rw [hm] at hn
        cases hn
      · exact hbest d hd n hn
    | some m =>
      simp only [Option.map_some, Option.toList_some, List.singleton_append, Pattern.earliest]
      rw [← Pattern.earlier_assoc, ← Pattern.earlier_assoc]
      apply ih
      -- the better of the two starts no later than either
      obtain ⟨b, hb, hle⟩ := Pattern.exists_earlier_right best (e.1, m)
      intro d hd n hn
      refine ⟨b, hb, ?_⟩
      rcases List.mem_cons.1 hd with rfl | hd
      · rw [hm] at hn
        cases hn
        exact hle
      · obtain ⟨c, rfl, hc⟩ := hbest d hd n hn
        obtain ⟨b', hb', hle'⟩ := Pattern.exists_earlier_left c (some (e.1, m))
        rw [hb] at hb'
        cases hb'
        omega
  | @skip seen short long e hseen _ ih =>
    rw [Pattern.found_cons]
    cases hm : e.2.search chars start stop anchors with
    | none => exact ih hbest
    | some m =>
      simp only [Option.map_some, Option.toList_some, List.singleton_append, Pattern.earliest]
      rw [← Pattern.earlier_assoc]
      obtain ⟨b, rfl, hle⟩ := hbest e hseen m hm
      have hstays : Pattern.earlier (some b) (some (e.1, m)) = some b := by
        apply Pattern.earlier_of_le
        intro d hd
        cases hd
        exact hle
      rw [hstays]
      exact ih hbest

/-- A search finds the same match of the same pattern without repeats. -/
theorem first_eq {β : Type} {short long : List (β × Pattern)} (h : OmitsRepeats [] short long)
    (chars : Array Char) (start stop : Nat) (anchors : Anchors) :
    Pattern.first chars start stop anchors none short =
      Pattern.first chars start stop anchors none long := by
  rw [Pattern.first_eq, Pattern.first_eq]
  exact h.earlier_eq (by simp)

end OmitsRepeats

namespace Grammar

variable {g : Grammar} {r m : RuleRef} {rule : Rule} {e : RuleRef × Pattern}

/-! ## What rules stand for -/

/-- What a group or a reference stands for, in one step. -/
inductive StandsFor (g : Grammar) (r : RuleRef) : RuleRef → Prop
  /-- A member of a group. -/
  | member {group : GroupRule} {child : RuleId} (hrule : g.rule? r = some (.group group))
      (hchild : child ∈ group.patterns) : StandsFor g r ⟨r.grammar, child⟩
  /-- A rule of the grammar that the reference is written in. -/
  | named {target : RuleId} (hrule : g.rule? r = some (.inclusion (.rule target))) :
      StandsFor g r ⟨r.grammar, target⟩
  /-- The root of the grammar that the reference is written in. -/
  | ownRoot {d : CompiledGrammar} (hrule : g.rule? r = some (.inclusion .ownRoot))
      (hd : g.document? r.grammar = some d) : StandsFor g r ⟨r.grammar, d.root⟩
  /-- The root of the grammar that texts are tokenized with. -/
  | baseRoot {d : CompiledGrammar} (hrule : g.rule? r = some (.inclusion .baseRoot))
      (hd : g.document? g.scopeName = some d) : StandsFor g r ⟨g.scopeName, d.root⟩
  /-- The root of another grammar. -/
  | otherRoot {scope : ScopeName} {d : CompiledGrammar}
      (hrule : g.rule? r = some (.inclusion (.grammar scope none)))
      (hd : g.document? scope = some d) : StandsFor g r ⟨scope, d.root⟩
  /-- An entry of the repository of another grammar. -/
  | otherEntry {scope : ScopeName} {name : String} {d : CompiledGrammar} {target : RuleId}
      (hrule : g.rule? r = some (.inclusion (.grammar scope (some name))))
      (hd : g.document? scope = some d) (hentry : d.entry? name = some target) :
      StandsFor g r ⟨scope, target⟩

theorem mem_includeTarget_iff {target : IncludeTarget}
    (h : g.rule? r = some (.inclusion target)) :
    g.includeTarget? r.grammar target = some m ↔ g.StandsFor r m := by
  constructor
  · intro hm
    cases target with
    | rule id =>
      cases hm
      exact .named h
    | ownRoot =>
      obtain ⟨d, hd, rfl⟩ := Option.map_eq_some_iff.1 hm
      exact .ownRoot h hd
    | baseRoot =>
      obtain ⟨d, hd, rfl⟩ := Option.map_eq_some_iff.1 hm
      exact .baseRoot h hd
    | grammar scope entry =>
      cases entry with
      | none =>
        obtain ⟨d, hd, rfl⟩ := Option.map_eq_some_iff.1 hm
        exact .otherRoot h hd
      | some name =>
        obtain ⟨d, hd, hm⟩ := Option.bind_eq_some_iff.1 hm
        obtain ⟨id, hid, rfl⟩ := Option.map_eq_some_iff.1 hm
        exact .otherEntry h hd hid
  · intro hm
    cases hm with
    | member hrule => cases h.symm.trans hrule
    | named hrule =>
      cases h.symm.trans hrule
      rfl
    | ownRoot hrule hd | baseRoot hrule hd | otherRoot hrule hd =>
      cases h.symm.trans hrule
      simp [includeTarget?, root?, hd]
    | otherEntry hrule hd hentry =>
      cases h.symm.trans hrule
      simp [includeTarget?, hd, hentry]

theorem mem_members_iff (h : g.rule? r = some rule) :
    m ∈ g.members r.grammar rule ↔ g.StandsFor r m := by
  cases rule with
  | group group =>
    rw [members, List.mem_map]
    constructor
    · rintro ⟨child, hchild, rfl⟩
      exact .member h hchild
    · intro hm
      cases hm with
      | member hrule hchild =>
        cases h.symm.trans hrule
        exact ⟨_, hchild, rfl⟩
      | named hrule | ownRoot hrule | baseRoot hrule | otherRoot hrule | otherEntry hrule =>
        cases h.symm.trans hrule
  | inclusion target =>
    rw [members, Option.mem_toList]
    exact mem_includeTarget_iff h
  | matching _ | beginEnd _ | beginWhile _ =>
    simp only [members, List.not_mem_nil, false_iff]
    intro hm
    cases hm with
    | member hrule | named hrule | ownRoot hrule | baseRoot hrule | otherRoot hrule
    | otherEntry hrule => cases h.symm.trans hrule

/-- Only groups and references stand for other rules, and these have no pattern of their own. -/
theorem StandsFor.exists_rule (h : g.StandsFor r m) :
    ∃ rule, g.rule? r = some rule ∧ startPattern? rule = none := by
  cases h with
  | member hrule | named hrule | ownRoot hrule | baseRoot hrule | otherRoot hrule
  | otherEntry hrule => exact ⟨_, hrule, rfl⟩

/-- The rule has a pattern of its own: it gives a scope to what matches, or opens a region. -/
inductive HasPattern (g : Grammar) : RuleRef × Pattern → Prop
  | matching {r : RuleRef} {rule : MatchRule} (hrule : g.rule? r = some (.matching rule)) :
      HasPattern g (r, rule.pattern)
  | beginEnd {r : RuleRef} {rule : BeginEndRule} (hrule : g.rule? r = some (.beginEnd rule)) :
      HasPattern g (r, rule.beginPattern)
  | beginWhile {r : RuleRef} {rule : BeginWhileRule}
      (hrule : g.rule? r = some (.beginWhile rule)) : HasPattern g (r, rule.beginPattern)

theorem hasPattern_iff (h : g.rule? r = some rule) {p : Pattern} :
    g.HasPattern (r, p) ↔ startPattern? rule = some p := by
  constructor
  · intro hpattern
    cases hpattern with
    | matching hrule | beginEnd hrule | beginWhile hrule =>
      cases h.symm.trans hrule
      rfl
  · intro hp
    cases rule with
    | matching _ => cases hp; exact .matching h
    | beginEnd _ => cases hp; exact .beginEnd h
    | beginWhile _ => cases hp; exact .beginWhile h
    | group _ | inclusion _ => cases hp

theorem HasPattern.exists_rule (h : g.HasPattern e) :
    ∃ rule, g.rule? e.1 = some rule ∧ startPattern? rule = some e.2 := by
  cases h with
  | matching hrule | beginEnd hrule | beginWhile hrule => exact ⟨_, hrule, rfl⟩

theorem HasPattern.not_standsFor (h : g.HasPattern e) : ¬g.StandsFor e.1 m := by
  intro hm
  obtain ⟨rule, hrule, hp⟩ := h.exists_rule
  obtain ⟨rule', hrule', hnone⟩ := hm.exists_rule
  cases hrule.symm.trans hrule'
  rw [hp] at hnone
  cases hnone

/-! ## Expansions -/

/-- The rules with a pattern of their own that a rule stands for, with their patterns and in order.
The groups and references in `opened` are those that the rule is found in: these stand for nothing
more. -/
def expansion (g : Grammar) (opened : List RuleRef) (r : RuleRef) : List (RuleRef × Pattern) :=
  match _h : g.rule? r with
  | none => []
  | some (.matching rule) => [(r, rule.pattern)]
  | some (.beginEnd rule) => [(r, rule.beginPattern)]
  | some (.beginWhile rule) => [(r, rule.beginPattern)]
  | some (.group rule) =>
    if _fresh : opened.contains r = false then
      rule.patterns.flatMap fun id => expansion g (r :: opened) ⟨r.grammar, id⟩
    else []
  | some (.inclusion target) =>
    if _fresh : opened.contains r = false then
      (g.includeTarget? r.grammar target).toList.flatMap fun m => expansion g (r :: opened) m
    else []
termination_by g.unvisited opened
decreasing_by
  all_goals
    have le := unvisited_add_weight_le _h _fresh
    simp only [weight] at le
    omega

/-- The patterns that apply inside a rule, cut only where a group or reference is open. -/
def childExpansion (g : Grammar) (r : RuleRef) : List (RuleRef × Pattern) :=
  let inside (ids : List RuleId) := ids.flatMap fun id => g.expansion [] ⟨r.grammar, id⟩
  match g.rule? r with
  | some (.beginEnd rule) => inside rule.patterns
  | some (.beginWhile rule) => inside rule.patterns
  | some (.group rule) => inside rule.patterns
  | _ => []

section

variable {opened : List RuleRef}

theorem expansion_unknown (h : g.rule? r = none) : g.expansion opened r = [] := by
  rw [expansion]
  split <;> rename_i hrule <;> cases h.symm.trans hrule
  rfl

/-- Rules with a pattern are alike, and so are those that stand for others. -/
theorem expansion_eq (h : g.rule? r = some rule) : g.expansion opened r =
    match startPattern? rule with
    | some p => [(r, p)]
    | none =>
      if opened.contains r = false then
        (g.members r.grammar rule).flatMap fun m => g.expansion (r :: opened) m
      else [] := by
  rw [expansion]
  split <;> rename_i hrule <;> cases h.symm.trans hrule
  case h_2 | h_3 | h_4 => rfl
  case h_5 | h_6 => simp [startPattern?, members, List.flatMap_map]

theorem expansion_pattern {p : Pattern} (h : g.rule? r = some rule)
    (hp : startPattern? rule = some p) : g.expansion opened r = [(r, p)] := by
  rw [expansion_eq h, hp]

theorem expansion_fresh (h : g.rule? r = some rule) (hp : startPattern? rule = none)
    (hfresh : r ∉ opened) : g.expansion opened r =
      (g.members r.grammar rule).flatMap fun m => g.expansion (r :: opened) m := by
  have hcontains : opened.contains r = false := by simpa using hfresh
  rw [expansion_eq h, hp]
  exact if_pos hcontains

theorem expansion_opened (h : g.rule? r = some rule) (hp : startPattern? rule = none)
    (hopen : r ∈ opened) : g.expansion opened r = [] := by
  have hcontains : ¬opened.contains r = false := by simpa using hopen
  rw [expansion_eq h, hp]
  exact if_neg hcontains

/-- Induction along expansions, by whether a rule has a pattern and whether it is open. -/
@[elab_as_elim]
theorem expansion_induct {motive : List RuleRef → RuleRef → Prop}
    (unknown : ∀ opened r, g.rule? r = none → motive opened r)
    (pattern : ∀ opened r rule p, g.rule? r = some rule → startPattern? rule = some p →
      motive opened r)
    (fresh : ∀ opened r rule, g.rule? r = some rule → startPattern? rule = none → r ∉ opened →
      (∀ m ∈ g.members r.grammar rule, motive (r :: opened) m) → motive opened r)
    (stuck : ∀ opened r rule, g.rule? r = some rule → startPattern? rule = none → r ∈ opened →
      motive opened r)
    (opened : List RuleRef) (r : RuleRef) : motive opened r := by
  induction opened, r using expansion.induct g with
  | case1 opened r hrule => exact unknown opened r hrule
  | case2 opened r rule hrule | case3 opened r rule hrule | case4 opened r rule hrule =>
    exact pattern opened r _ _ hrule rfl
  | case5 opened r group hrule hfresh ih =>
    refine fresh opened r _ hrule rfl (by simpa using hfresh) fun m hm => ?_
    obtain ⟨id, _, rfl⟩ := List.mem_map.1 hm
    exact ih id
  | case7 opened r target hrule hfresh ih =>
    exact fresh opened r _ hrule rfl (by simpa using hfresh) fun m _ => ih m
  | case6 opened r _ hrule hopen | case8 opened r _ hrule hopen =>
    exact stuck opened r _ hrule rfl (by simpa using hopen)

end

/-! ### What expansions list -/

/-- A step from a group or reference that is not open. -/
def StandsOutside (g : Grammar) (opened : List RuleRef) (r m : RuleRef) : Prop :=
  r ∉ opened ∧ g.StandsFor r m

/-- A way that may go through a rule goes past it, or can be taken from where it leaves the rule for
the last time. -/
theorem exists_last_step {opened : List RuleRef} {x r' : RuleRef}
    (h : ReflTransGen (g.StandsOutside opened) x r') (r : RuleRef) :
    ReflTransGen (g.StandsOutside (r :: opened)) x r' ∨
      ∃ m, g.StandsFor r m ∧ ReflTransGen (g.StandsOutside (r :: opened)) m r' := by
  induction h using ReflTransGen.head_induction_on with
  | refl => exact .inl .refl
  | @head x y hxy _ ih =>
    rcases ih with hpast | hlast
    · by_cases hx : x = r
      · subst hx
        exact .inr ⟨y, hxy.2, hpast⟩
      · have hclosed : x ∉ r :: opened := by
          rw [List.mem_cons, not_or]
          exact ⟨hx, hxy.1⟩
        exact .inl (.head ⟨hclosed, hxy.2⟩ hpast)
    · exact .inr hlast

/-- An expansion has the patterns of exactly those rules that can be reached without going through
what is open. -/
theorem mem_expansion {opened : List RuleRef} : e ∈ g.expansion opened r ↔
    ReflTransGen (g.StandsOutside opened) r e.1 ∧ g.HasPattern e := by
  -- a rule from which no step leads on reaches itself only
  have hstuck : ∀ {opened : List RuleRef} {r : RuleRef}, (∀ m, ¬g.StandsOutside opened r m) →
      ReflTransGen (g.StandsOutside opened) r e.1 → r = e.1 := by
    intro opened r hnone h
    rcases ReflTransGen.cases_head h with heq | ⟨m, hm, _⟩
    · exact heq
    · exact absurd hm (hnone m)
  induction opened, r using expansion_induct (g := g) with
  | unknown opened r hrule =>
    rw [expansion_unknown hrule]
    simp only [List.not_mem_nil, false_iff]
    rintro ⟨hreach, hpattern⟩
    have heq : r = e.1 := by
      refine hstuck ?_ hreach
      intro m hm
      obtain ⟨_, hsome, _⟩ := hm.2.exists_rule
      cases hrule.symm.trans hsome
    obtain ⟨rule, hrule', _⟩ := hpattern.exists_rule
    rw [← heq, hrule] at hrule'
    cases hrule'
  | pattern opened r rule p hrule hp =>
    have hpattern : g.HasPattern (r, p) := (hasPattern_iff hrule).2 hp
    rw [expansion_pattern hrule hp, List.mem_singleton]
    constructor
    · rintro rfl
      exact ⟨.refl, hpattern⟩
    · rintro ⟨hreach, hpattern'⟩
      obtain ⟨r', p'⟩ := e
      have heq : r = r' := hstuck (fun m hm => hpattern.not_standsFor hm.2) hreach
      subst heq
      cases hp.symm.trans ((hasPattern_iff hrule).1 hpattern')
      rfl
  | fresh opened r rule hrule hp hfresh ih =>
    rw [expansion_fresh hrule hp hfresh, List.mem_flatMap]
    constructor
    · rintro ⟨m, hm, he⟩
      obtain ⟨hreach, hpattern⟩ := (ih m hm).1 he
      have hstep : g.StandsOutside opened r m := ⟨hfresh, (mem_members_iff hrule).1 hm⟩
      have hout : ReflTransGen (g.StandsOutside opened) m e.1 := by
        refine ReflTransGen.mono ?_ _ _ hreach
        intro a b hab
        exact ⟨fun hmem => hab.1 (List.mem_cons_of_mem r hmem), hab.2⟩
      exact ⟨.head hstep hout, hpattern⟩
    · rintro ⟨hreach, hpattern⟩
      rcases exists_last_step hreach r with hpast | ⟨m, hm, hlast⟩
      · -- the way cannot leave the rule, and the rule has no pattern
        have heq : r = e.1 := hstuck (fun m hm => hm.1 List.mem_cons_self) hpast
        subst heq
        rw [hasPattern_iff hrule, hp] at hpattern
        cases hpattern
      · have hmem := (mem_members_iff hrule).2 hm
        exact ⟨m, hmem, (ih m hmem).2 ⟨hlast, hpattern⟩⟩
  | stuck opened r rule hrule hp hopen =>
    rw [expansion_opened hrule hp hopen]
    simp only [List.not_mem_nil, false_iff]
    rintro ⟨hreach, hpattern⟩
    have heq : r = e.1 := hstuck (fun m hm => hm.1 hopen) hreach
    subst heq
    rw [hasPattern_iff hrule, hp] at hpattern
    cases hpattern

/-! ## The walk -/

/-- The walk needs the rule no more: its pattern is listed, or the walk has been there. Where there
is no such rule nothing is needed. -/
def Done (g : Grammar) (visited : List RuleRef) (listed : List (RuleRef × Pattern)) (r : RuleRef) :
    Prop :=
  ∀ rule, g.rule? r = some rule →
    match startPattern? rule with
    | some p => (r, p) ∈ listed
    | none => r ∈ visited

/-- What holds in the middle of the walk. Each rule to come is held together with the groups and
references that it is found in: the walk is inside those that the first of them is found in, and it
has come to the end of the others that it has been to. -/
structure Walking (g : Grammar) (visited : List RuleRef) (listed : List (RuleRef × Pattern))
    (todo : List (List RuleRef × RuleRef)) : Prop where
  opened : ∀ t ∈ todo, t.1 ⊆ visited
  nested : todo.Pairwise fun t u => u.1 ⊆ t.1
  members : ∀ v ∈ visited, ∀ m, g.StandsFor v m →
    g.Done visited listed m ∨ ∃ t ∈ todo, v ∈ t.1 ∧ t.2 = m

section

variable {visited : List RuleRef} {listed : List (RuleRef × Pattern)} {opened : List RuleRef}
  {todo : List (List RuleRef × RuleRef)}

theorem Done.mono {visited' : List RuleRef} {listed' : List (RuleRef × Pattern)}
    (h : g.Done visited listed r) (hvisited : visited ⊆ visited') (hlisted : listed ⊆ listed') :
    g.Done visited' listed' r := by
  intro rule hrule
  have hdone := h rule hrule
  cases hp : startPattern? rule with
  | some p =>
    rw [hp] at hdone
    exact hlisted hdone
  | none =>
    rw [hp] at hdone
    exact hvisited hdone

theorem done_of_unknown (h : g.rule? r = none) : g.Done visited listed r := by
  intro rule hrule
  cases h.symm.trans hrule

theorem done_of_pattern {p : Pattern} (hrule : g.rule? r = some rule)
    (hp : startPattern? rule = some p) (hmem : (r, p) ∈ listed) : g.Done visited listed r := by
  intro rule' hrule'
  cases hrule.symm.trans hrule'
  rwa [hp]

theorem done_of_visited (hrule : g.rule? r = some rule) (hp : startPattern? rule = none)
    (hmem : r ∈ visited) : g.Done visited listed r := by
  intro rule' hrule'
  cases hrule.symm.trans hrule'
  rwa [hp]

/-- All that a finished rule stands for is listed, as far as it is found outside of the groups and
references that the walk is still inside. -/
theorem Done.expansion_subset
    (hclosed : ∀ v ∈ visited, v ∉ opened → ∀ m, g.StandsFor v m → g.Done visited listed m)
    (h : g.Done visited listed r) : ∀ e ∈ g.expansion opened r, e ∈ listed := by
  induction opened, r using expansion_induct (g := g) with
  | unknown opened r hrule =>
    rw [expansion_unknown hrule]
    simp
  | pattern opened r rule p hrule hp =>
    have hmem := h rule hrule
    rw [hp] at hmem
    rw [expansion_pattern hrule hp]
    simpa using hmem
  | fresh opened r rule hrule hp hfresh ih =>
    have hvisited := h rule hrule
    rw [hp] at hvisited
    rw [expansion_fresh hrule hp hfresh]
    intro e he
    obtain ⟨m, hm, he⟩ := List.mem_flatMap.1 he
    have hdone : g.Done visited listed m :=
      hclosed r hvisited hfresh m ((mem_members_iff hrule).1 hm)
    refine ih m hm ?_ hdone e he
    intro v hv hout
    exact hclosed v hv fun hmem => hout (List.mem_cons_of_mem r hmem)
  | stuck opened r rule hrule hp hopen =>
    rw [expansion_opened hrule hp hopen]
    simp

/-- The first rule to come is finished with. -/
theorem Walking.next (h : g.Walking visited listed ((opened, r) :: todo))
    {listed' : List (RuleRef × Pattern)} (hlisted : listed ⊆ listed')
    (hdone : g.Done visited listed' r) : g.Walking visited listed' todo where
  opened t ht := h.opened t (List.mem_cons_of_mem _ ht)
  nested := (List.pairwise_cons.1 h.nested).2
  members v hv m hm := by
    rcases h.members v hv m hm with hm | ⟨t, ht, hvt, htm⟩
    · exact .inl (hm.mono (List.Subset.refl _) hlisted)
    · rcases List.mem_cons.1 ht with rfl | ht
      · cases htm
        exact .inl hdone
      · exact .inr ⟨t, ht, hvt, htm⟩

/-- The walk goes into the first rule to come. -/
theorem Walking.enter (h : g.Walking visited listed ((opened, r) :: todo))
    (hrule : g.rule? r = some rule) (hp : startPattern? rule = none) :
    g.Walking (r :: visited) listed
      ((g.members r.grammar rule).map (r :: opened, ·) ++ todo) := by
  have hvisited : visited ⊆ r :: visited := List.subset_cons_self r visited
  obtain ⟨hinner, hnested⟩ := List.pairwise_cons.1 h.nested
  refine ⟨?_, ?_, ?_⟩
  · intro t ht
    rcases List.mem_append.1 ht with ht | ht
    · obtain ⟨m, _, rfl⟩ := List.mem_map.1 ht
      exact List.cons_subset_cons r (h.opened _ List.mem_cons_self)
    · exact List.Subset.trans (h.opened t (List.mem_cons_of_mem _ ht)) hvisited
  · refine List.pairwise_append.2 ⟨?_, hnested, ?_⟩
    · rw [List.pairwise_map]
      exact List.pairwise_of_forall fun _ _ => List.Subset.refl _
    · intro t ht u hu
      obtain ⟨m, _, rfl⟩ := List.mem_map.1 ht
      exact List.Subset.trans (hinner u hu) (List.subset_cons_self r opened)
  · intro v hv m hm
    rcases List.mem_cons.1 hv with rfl | hv
    · refine .inr ⟨(v :: opened, m), ?_, List.mem_cons_self, rfl⟩
      exact List.mem_append_left _ (List.mem_map_of_mem ((mem_members_iff hrule).2 hm))
    · rcases h.members v hv m hm with hm | ⟨t, ht, hvt, htm⟩
      · exact .inl (hm.mono hvisited (List.Subset.refl _))
      · rcases List.mem_cons.1 ht with rfl | ht
        · cases htm
          exact .inl (done_of_visited hrule hp List.mem_cons_self)
        · exact .inr ⟨t, List.mem_append_right _ ht, hvt, htm⟩

/-- What the walk has been to and is not inside has been walked through to its end. -/
theorem Walking.closed (h : g.Walking visited listed ((opened, r) :: todo)) :
    ∀ v ∈ visited, v ∉ opened → ∀ m, g.StandsFor v m → g.Done visited listed m := by
  intro v hv hout m hm
  rcases h.members v hv m hm with hm | ⟨t, ht, hvt, _⟩
  · exact hm
  · -- a member of it that is still to come would be found in it, and so the walk inside it
    exfalso
    rcases List.mem_cons.1 ht with rfl | ht
    · exact hout hvt
    · exact hout ((List.pairwise_cons.1 h.nested).1 t ht hvt)

end

/-- The walk lists the expansions of the rules to come, without some of the repeats. -/
theorem Walking.omitsRepeats {visited : List RuleRef} {listed : List (RuleRef × Pattern)}
    {todo : List (List RuleRef × RuleRef)} (h : g.Walking visited listed todo) :
    OmitsRepeats listed (g.flatten visited (todo.map (·.2)))
      (todo.flatMap fun t => g.expansion t.1 t.2) := by
  generalize hrules : todo.map (·.2) = rules
  induction visited, rules using flatten.induct g generalizing listed todo with
  | case1 visited =>
    cases List.map_eq_nil_iff.1 hrules
    rw [flatten]
    exact .nil
  | case2 visited r rules hrule ih =>
    obtain ⟨⟨opened, r'⟩, todo, rfl, rfl, rfl⟩ := List.map_eq_cons_iff.1 hrules
    rw [flatten_unknown hrule, List.flatMap_cons, expansion_unknown hrule]
    exact ih (h.next (List.Subset.refl _) (done_of_unknown hrule)) rfl
  | case3 visited r rules rule hrule p hp ih =>
    obtain ⟨⟨opened, r'⟩, todo, rfl, rfl, rfl⟩ := List.map_eq_cons_iff.1 hrules
    rw [flatten_pattern hrule hp, List.flatMap_cons, expansion_pattern hrule hp]
    have hdone : g.Done visited ((r', p) :: listed) r' :=
      done_of_pattern hrule hp List.mem_cons_self
    exact .keep (ih (h.next (List.subset_cons_self _ _) hdone) rfl)
  | case4 visited r rules rule hrule hp hfresh ih =>
    obtain ⟨⟨opened, r'⟩, todo, rfl, rfl, rfl⟩ := List.map_eq_cons_iff.1 hrules
    have hclosed : r' ∉ opened := by
      intro hmem
      have hvisited : r' ∈ visited := h.opened _ List.mem_cons_self hmem
      simp [hvisited] at hfresh
    have hih := ih (h.enter hrule hp) (by simp [Function.comp_def])
    rw [flatten_fresh hrule hp hfresh, List.flatMap_cons, expansion_fresh hrule hp hclosed]
    rwa [List.flatMap_append, List.flatMap_map] at hih
  | case5 visited r rules rule hrule hp hseen ih =>
    obtain ⟨⟨opened, r'⟩, todo, rfl, rfl, rfl⟩ := List.map_eq_cons_iff.1 hrules
    have hvisited : r' ∈ visited := by simpa using hseen
    have hdone : g.Done visited listed r' := done_of_visited hrule hp hvisited
    rw [flatten_visited hrule hp hseen, List.flatMap_cons]
    refine OmitsRepeats.omitAll ?_ (hdone.expansion_subset h.closed)
    exact ih (h.next (List.Subset.refl _) hdone) rfl

/-- The walk through rules that are found in nothing lists their expansions without some of the
repeats. -/
theorem flatten_omitsRepeats (g : Grammar) (rules : List RuleRef) :
    OmitsRepeats [] (g.flatten [] rules) (rules.flatMap (g.expansion [])) := by
  have hstart : g.Walking [] [] (rules.map ([], ·)) := by
    refine ⟨?_, ?_, by simp⟩
    · intro t ht
      obtain ⟨r, _, rfl⟩ := List.mem_map.1 ht
      exact List.Subset.refl _
    · rw [List.pairwise_map]
      exact List.pairwise_of_forall fun _ _ => List.Subset.refl _
  have h := hstart.omitsRepeats
  rwa [List.map_map, Function.comp_def, List.map_id', List.flatMap_map] at h

/-! ## Patterns of regions and of injected rules -/

/-- The rule stands for a rule with a pattern of its own, through any number of groups and
references. -/
def Provides (g : Grammar) (r : RuleRef) (e : RuleRef × Pattern) : Prop :=
  ReflTransGen g.StandsFor r e.1 ∧ g.HasPattern e

/-- What a region or group contains. -/
inductive Contains (g : Grammar) (r : RuleRef) : RuleRef → Prop
  | beginEnd {rule : BeginEndRule} {child : RuleId} (hrule : g.rule? r = some (.beginEnd rule))
      (hchild : child ∈ rule.patterns) : Contains g r ⟨r.grammar, child⟩
  | beginWhile {rule : BeginWhileRule} {child : RuleId}
      (hrule : g.rule? r = some (.beginWhile rule)) (hchild : child ∈ rule.patterns) :
      Contains g r ⟨r.grammar, child⟩
  | group {rule : GroupRule} {child : RuleId} (hrule : g.rule? r = some (.group rule))
      (hchild : child ∈ rule.patterns) : Contains g r ⟨r.grammar, child⟩

theorem contains_iff (h : g.rule? r = some rule) :
    g.Contains r m ↔ ∃ child ∈ rule.children, ⟨r.grammar, child⟩ = m := by
  constructor
  · intro hm
    cases hm with
    | beginEnd hrule hchild | beginWhile hrule hchild | group hrule hchild =>
      cases h.symm.trans hrule
      exact ⟨_, hchild, rfl⟩
  · rintro ⟨child, hchild, rfl⟩
    cases rule with
    | beginEnd _ => exact .beginEnd h hchild
    | beginWhile _ => exact .beginWhile h hchild
    | group _ => exact .group h hchild
    | matching _ | inclusion _ => cases hchild

theorem mem_expansion_nil : e ∈ g.expansion [] r ↔ g.Provides r e := by
  rw [mem_expansion]
  constructor
  · rintro ⟨hreach, hpattern⟩
    exact ⟨ReflTransGen.mono (fun _ _ hab => hab.2) _ _ hreach, hpattern⟩
  · rintro ⟨hreach, hpattern⟩
    refine ⟨ReflTransGen.mono ?_ _ _ hreach, hpattern⟩
    intro a b hab
    exact ⟨List.not_mem_nil, hab⟩

theorem mem_flatten_nil {rules : List RuleRef} :
    e ∈ g.flatten [] rules ↔ ∃ r ∈ rules, g.Provides r e := by
  rw [(flatten_omitsRepeats g rules).mem_iff List.not_mem_nil, List.mem_flatMap]
  simp only [mem_expansion_nil]

theorem mem_childPatterns_iff :
    e ∈ g.childPatterns r ↔ ∃ child, g.Contains r child ∧ g.Provides child e := by
  unfold childPatterns
  cases hrule : g.rule? r with
  | some rule => simp [mem_flatten_nil, contains_iff hrule]
  | none =>
    simp only [List.not_mem_nil, false_iff, not_exists, not_and]
    intro child hchild
    cases hchild with
    | beginEnd hsome | beginWhile hsome | group hsome => cases hrule.symm.trans hsome

theorem childExpansion_eq (h : g.rule? r = some rule) : g.childExpansion r =
    (rule.children.map fun id => ⟨r.grammar, id⟩).flatMap (g.expansion []) := by
  simp only [childExpansion, h, List.flatMap_map]
  cases rule <;> rfl

theorem childPatterns_omitsRepeats (g : Grammar) (r : RuleRef) :
    OmitsRepeats [] (g.childPatterns r) (g.childExpansion r) := by
  unfold childPatterns
  cases hrule : g.rule? r with
  | some rule =>
    rw [childExpansion_eq hrule]
    exact flatten_omitsRepeats g _
  | none =>
    simp only [childExpansion, hrule]
    exact .nil

theorem injectedPatterns_omitsRepeats (g : Grammar) (r : RuleRef) :
    OmitsRepeats [] (g.injectedPatterns r) (g.expansion [] r) := by
  have h := flatten_omitsRepeats g [r]
  rwa [List.flatMap_singleton] at h

/-- In any grammar, whatever circles its rules form: inside a rule apply the patterns of exactly
those rules that its contents stand for, through groups and references; an injected rule contributes
those that it stands for itself; and a search finds the same match of the same rule as among the
expansions, which cut groups and references only inside themselves. -/
theorem patterns_exact (g : Grammar) (r : RuleRef) :
    (∀ e, e ∈ g.childPatterns r ↔ ∃ child, g.Contains r child ∧ g.Provides child e) ∧
    (∀ e, e ∈ g.injectedPatterns r ↔ g.Provides r e) ∧
    ∀ chars start stop anchors,
      Pattern.first chars start stop anchors none (g.childPatterns r) =
        Pattern.first chars start stop anchors none (g.childExpansion r) ∧
      Pattern.first chars start stop anchors none (g.injectedPatterns r) =
        Pattern.first chars start stop anchors none (g.expansion [] r) := by
  refine ⟨fun e => mem_childPatterns_iff, ?_, ?_⟩
  · intro e
    rw [injectedPatterns, mem_flatten_nil]
    simp
  · intro chars start stop anchors
    have hchildren := g.childPatterns_omitsRepeats r
    have hinjected := g.injectedPatterns_omitsRepeats r
    exact ⟨hchildren.first_eq chars start stop anchors,
      hinjected.first_eq chars start stop anchors⟩

end Grammar

end Highlight
