import Mathlib.Data.Prod.Lex
import Highlight.Proofs.MatchBounds

/-!
# Which match is chosen

The next match of a scan is found in two searches, one among the patterns of the innermost region
and one among the injected patterns, both of which end early with a match at the place itself; then
the better of the two results is taken. Here the choice is described in one piece: `contenders`
lists all patterns that apply, each with its class and its place in the class, and `Contender.key`
orders their matches by where they start, then by class, then by place. The patterns of the region
itself are `ownPatterns`, with the end in front or behind; that these are the ones searched is
`regionPatterns_eq`. The next match is the one with the least key (`nextMatch_least`).

On the way, `earliest` is the plain form of a search: all patterns are tried and the first of the
earliest matches is taken. Each search equals its plain form (`first_eq`, `firstInjected_eq`), and
the plain form of a search of several lists is that of the lists one after another
(`earliest_append`).
-/

namespace Highlight

/-! ## Searches without early exits -/

namespace Pattern

variable {α β : Type} {c : α × Match}

/-- The earliest of several matches, the first one where several start together. -/
def earliest : List (α × Match) → Option (α × Match)
  | [] => none
  | c :: cs => earlier (some c) (earliest cs)

/-- The matches of tagged patterns, in the order of the patterns. -/
def found (chars : Array Char) (start stop : Nat) (a : Anchors) (ps : List (α × Pattern)) :
    List (α × Match) :=
  ps.filterMap fun (tag, p) => (p.search chars start stop a).map fun m => (tag, m)

theorem earlier_none (x : Option (α × Match)) : earlier x none = x := by
  cases x <;> rfl

theorem none_earlier (x : Option (α × Match)) : earlier none x = x := by
  cases x <;> rfl

theorem earlier_some (c d : α × Match) :
    earlier (some c) (some d) = if d.2.start < c.2.start then some d else some c := rfl

theorem earlier_assoc (x y z : Option (α × Match)) :
    earlier (earlier x y) z = earlier x (earlier y z) := by
  cases x with
  | none => rw [none_earlier, none_earlier]
  | some a =>
    cases y with
    | none => rw [earlier_none, none_earlier]
    | some b =>
      cases z with
      | none => rw [earlier_none, earlier_none]
      | some c =>
        by_cases hab : b.2.start < a.2.start <;> by_cases hbc : c.2.start < b.2.start <;>
          by_cases hac : c.2.start < a.2.start <;> simp [earlier_some, *] <;> omega

/-- A match that starts no later than all others is the earliest. -/
theorem earlier_of_le {x : Option (α × Match)} (h : ∀ d ∈ x, c.2.start ≤ d.2.start) :
    earlier (some c) x = some c := by
  cases x with
  | none => rfl
  | some d => exact if_neg (Nat.not_lt.2 (h d rfl))

theorem earlier_of_lt {d : α × Match} (h : d.2.start < c.2.start) :
    earlier (some c) (some d) = some d := if_pos h

/-- The earlier of a match and another one starts no later than either. -/
theorem exists_earlier_left (c : α × Match) (x : Option (α × Match)) :
    ∃ d, earlier (some c) x = some d ∧ d.2.start ≤ c.2.start := by
  cases x with
  | none => exact ⟨c, rfl, Nat.le_refl _⟩
  | some d =>
    rw [earlier_some]
    split
    · rename_i hlt
      exact ⟨d, rfl, Nat.le_of_lt hlt⟩
    · exact ⟨c, rfl, Nat.le_refl _⟩

theorem exists_earlier_right (x : Option (α × Match)) (c : α × Match) :
    ∃ d, earlier x (some c) = some d ∧ d.2.start ≤ c.2.start := by
  cases x with
  | none => exact ⟨c, rfl, Nat.le_refl _⟩
  | some d =>
    rw [earlier_some]
    split
    · exact ⟨c, rfl, Nat.le_refl _⟩
    · rename_i hle
      exact ⟨d, rfl, Nat.le_of_not_lt hle⟩

theorem earlier_map (f : α → β) (x y : Option (α × Match)) :
    (earlier x y).map (Prod.map f id) =
      earlier (x.map (Prod.map f id)) (y.map (Prod.map f id)) := by
  cases x with
  | none => rw [none_earlier, Option.map_none, none_earlier]
  | some c =>
    cases y with
    | none => rw [earlier_none, Option.map_none, earlier_none]
    | some d =>
      rw [earlier_some, Option.map_some, Option.map_some, earlier_some]
      exact apply_ite _ _ _ _

theorem earliest_append (cs : List (α × Match)) : ∀ bs : List (α × Match),
    earliest (bs ++ cs) = earlier (earliest bs) (earliest cs)
  | [] => (none_earlier _).symm
  | b :: bs => by rw [List.cons_append, earliest, earliest, earliest_append cs bs, earlier_assoc]

theorem earliest_map (f : α → β) : ∀ cs : List (α × Match),
    earliest (cs.map (Prod.map f id)) = (earliest cs).map (Prod.map f id)
  | [] => rfl
  | c :: cs => by rw [List.map_cons, earliest, earliest, earlier_map, earliest_map f cs]; rfl

theorem earliest_mem {cs : List (α × Match)} (h : c ∈ earliest cs) : c ∈ cs := by
  induction cs generalizing c with
  | nil => cases h
  | cons d cs ih =>
    rw [earliest] at h
    cases hcs : earliest cs with
    | none =>
      rw [hcs, earlier_none] at h
      cases h
      exact List.mem_cons_self
    | some e =>
      have he : e ∈ cs := ih hcs
      rw [hcs, earlier_some] at h
      split at h
      · cases h
        exact List.mem_cons_of_mem d he
      · cases h
        exact List.mem_cons_self

theorem earliest_eq_none : ∀ {cs : List (α × Match)}, earliest cs = none ↔ cs = []
  | [] => by simp [earliest]
  | c :: cs => by
    rw [earliest]
    cases earliest cs with
    | none => simp [earlier]
    | some d =>
      rw [earlier_some]
      split <;> simp

section

variable {chars : Array Char} {start stop : Nat} {a : Anchors}

theorem mem_found {ps : List (α × Pattern)} :
    c ∈ found chars start stop a ps ↔ ∃ p, (c.1, p) ∈ ps ∧ p.search chars start stop a = some c.2 := by
  simp only [found, List.mem_filterMap, Option.map_eq_some_iff]
  constructor
  · rintro ⟨⟨tag, p⟩, hp, m, hm, rfl⟩
    exact ⟨p, hp, hm⟩
  · rintro ⟨p, hp, hm⟩
    exact ⟨(c.1, p), hp, c.2, hm, rfl⟩

/-- Nothing starts before the position searched from. -/
theorem start_le_of_mem_found {ps : List (α × Pattern)} (h : c ∈ found chars start stop a ps) :
    start ≤ c.2.start := by
  obtain ⟨p, _, hp⟩ := mem_found.1 h
  exact (Regex.search_within hp).start_le

theorem found_append (ps qs : List (α × Pattern)) :
    found chars start stop a (ps ++ qs) =
      found chars start stop a ps ++ found chars start stop a qs :=
  List.filterMap_append

theorem found_map (f : α → β) (ps : List (α × Pattern)) :
    found chars start stop a (ps.map (Prod.map f id)) =
      (found chars start stop a ps).map (Prod.map f id) := by
  rw [found, found, List.filterMap_map, List.map_filterMap]
  congr 1
  funext ⟨tag, p⟩
  simp [Function.comp_def, Prod.map, Option.map_map]

/-- The search that ends early finds what the search without early exits finds. -/
theorem first_eq (ps : List (α × Pattern)) : ∀ best : Option (α × Match),
    first chars start stop a best ps = earlier best (earliest (found chars start stop a ps)) := by
  induction ps with
  | nil =>
    intro best
    exact (earlier_none best).symm
  | cons e ps ih =>
    intro best
    obtain ⟨tag, p⟩ := e
    cases hm : p.search chars start stop a with
    | none =>
      have hfound : found chars start stop a ((tag, p) :: ps) = found chars start stop a ps := by
        simp [found, hm]
      simp only [first, hm, hfound]
      exact ih best
    | some m =>
      have hfound : found chars start stop a ((tag, p) :: ps) =
          (tag, m) :: found chars start stop a ps := by
        simp [found, hm]
      -- a match at the position itself can stand for the rest
      have hexit : m.start = start →
          earlier (some (tag, m)) (earliest (found chars start stop a ps)) = some (tag, m) := by
        intro hstart
        refine earlier_of_le fun d hd => ?_
        rw [hstart]
        exact start_le_of_mem_found (earliest_mem hd)
      have hnew : (if m.start == start then some (tag, m)
          else first chars start stop a (some (tag, m)) ps) =
          earlier (some (tag, m)) (earliest (found chars start stop a ps)) := by
        split
        · rename_i hstart
          exact (hexit (beq_iff_eq.1 hstart)).symm
        · exact ih _
      simp only [first, hm, hfound, earliest]
      rw [← earlier_assoc]
      cases best with
      | none => exact hnew
      | some b =>
        simp only [Pattern.earlier_some]
        split
        · exact hnew
        · exact ih _

end

end Pattern

/-! ## All patterns that apply -/

/-- Where a pattern comes from, in the order in which patterns win where their matches start
together. -/
inductive Standing where
  /-- Injected with priority. -/
  | before
  /-- A pattern of the innermost region. -/
  | own
  /-- Injected without priority. -/
  | normal
  /-- Injected to come last. -/
  | after
  deriving DecidableEq

/-- The number of a class in the order of classes. -/
def Standing.rank : Standing → Nat
  | before => 0
  | own => 1
  | normal => 2
  | after => 3

/-- A pattern that applies at a place. -/
structure Contender where
  standing : Standing
  /-- The place among the patterns of its class. -/
  place : Nat
  candidate : Candidate
  pattern : Pattern

namespace Contender

/-- Class and place, which no two contenders share. -/
def order (k : Contender) : Nat ×ₗ Nat := toLex (k.standing.rank, k.place)

/-- What decides between matches: where they start, then the class of the pattern, then its place in
the class. -/
def key (k : Contender) (m : Match) : Nat ×ₗ Nat ×ₗ Nat := toLex (m.start, k.order)

/-- The patterns of one class, in order. -/
def numbered (standing : Standing) (ps : List (Candidate × Pattern)) : List Contender :=
  ps.mapIdx fun i (c, p) => ⟨standing, i, c, p⟩

end Contender

namespace Grammar

/-- The patterns that injections of one priority contribute for a scope path: the injections in the
order of the grammar, the patterns that each stands for in their order. -/
def injectedAt (g : Grammar) (scopes : ScopePath) (priority : Priority) :
    List (RuleRef × Pattern) :=
  (g.injections.filter fun i => i.selector.priority? scopes == some priority).flatMap fun i =>
    g.injectedPatterns i.target

/-- The contenders of injections of one priority. -/
def injectedContenders (g : Grammar) (scopes : ScopePath) (standing : Standing)
    (priority : Priority) : List Contender :=
  Contender.numbered standing ((g.injectedAt scopes priority).map (Prod.map .rule id))

/-- The patterns inside a region with its end: in front of them, or behind them where the rule says
that it is tried last. -/
def withEnd (inside : List (Candidate × Pattern)) (r : BeginEndRule) (e : Pattern) :
    List (Candidate × Pattern) :=
  match r.endLast with
  | false => (.ending, e) :: inside
  | true => inside ++ [(.ending, e)]

/-- The patterns of a region itself: those that its rule contains, and its end if the rule has one.
The end is the one that was made when the region was opened, or else the one of the rule, which then
must not refer to captured text. -/
def ownPatterns (g : Grammar) (f : Frame) : Except ScanError (List (Candidate × Pattern)) :=
  let inside := (g.childPatterns f.rule).map (Prod.map .rule id)
  match g.rule? f.rule, f.endPattern with
  | none, _ => .error (.unknownRule f.rule)
  | some (.beginEnd r), some e => .ok (withEnd inside r e)
  | some (.beginEnd r), none =>
    match r.endPattern with
    | .fixed e => .ok (withEnd inside r e)
    | .dynamic _ => .error (.unresolvedEnd f.rule)
  | some _, _ => .ok inside

/-- All patterns that apply on a stack of open regions. Where no region is open none applies. -/
def contenders (g : Grammar) : RuleStack → Except ScanError (List Contender)
  | [] => .ok []
  | f :: _ => do
    let own ← g.ownPatterns f
    return g.injectedContenders f.contentScopes .before .before ++ Contender.numbered .own own
      ++ g.injectedContenders f.contentScopes .normal .normal
      ++ g.injectedContenders f.contentScopes .after .after

theorem withEnd_eq_ite (inside : List (Candidate × Pattern)) (r : BeginEndRule) (e : Pattern) :
    withEnd inside r e =
      if r.endLast then inside ++ [(.ending, e)] else (.ending, e) :: inside := by
  unfold withEnd
  cases r.endLast <;> rfl

theorem regionPatterns_of_beginEnd {g : Grammar} {f : Frame} {r : BeginEndRule}
    (h : g.rule? f.rule = some (.beginEnd r)) : g.regionPatterns f = do
      let e ← f.resolvedEnd r.endPattern
      return withEnd ((g.childPatterns f.rule).map (Prod.map .rule id)) r e := by
  simp only [regionPatterns, Grammar.rule, h, withEnd_eq_ite]
  rfl

/-- The patterns of a region that a scan searches are its own. -/
theorem regionPatterns_eq (g : Grammar) (f : Frame) : g.regionPatterns f = g.ownPatterns f := by
  cases hrule : g.rule? f.rule with
  | none =>
    simp only [regionPatterns, ownPatterns, Grammar.rule, hrule]
    rfl
  | some rule =>
    cases rule with
    | beginEnd r =>
      rw [regionPatterns_of_beginEnd hrule]
      cases hend : f.endPattern with
      | some e =>
        simp only [ownPatterns, hrule, Frame.resolvedEnd, hend]
        rfl
      | none =>
        cases hpattern : r.endPattern <;>
          simp only [ownPatterns, hrule, Frame.resolvedEnd, hend, hpattern] <;> rfl
    | _ =>
      simp only [regionPatterns, ownPatterns, Grammar.rule, hrule]
      rfl

end Grammar

/-! ## The search of injected patterns -/

namespace Place

open Pattern (earlier earliest)

variable {p : Place} {g : Grammar}

/-- The first match of a pattern at or after the place. -/
def search (p : Place) (q : Pattern) : Option Match :=
  q.search p.text.chars p.position p.stop p.anchors

/-- The matches of tagged patterns at or after the place. -/
def found {α : Type} (p : Place) (patterns : List (α × Pattern)) : List (α × Match) :=
  Pattern.found p.text.chars p.position p.stop p.anchors patterns

theorem first_eq_earliest {α : Type} (patterns : List (α × Pattern)) :
    p.first patterns = earliest (p.found patterns) := by
  rw [first, Pattern.first_eq, Pattern.none_earlier]
  rfl

/-- The priority and the rule of an injected match taken together. -/
def tagged (c : Priority × RuleRef × Match) : (Priority × RuleRef) × Match := ((c.1, c.2.1), c.2.2)

/-- The matches of injected patterns, injection by injection. -/
def foundInjected (p : Place) (g : Grammar) (active : List (Priority × RuleRef)) :
    List ((Priority × RuleRef) × Match) :=
  active.flatMap fun (priority, target) =>
    (p.found (g.injectedPatterns target)).map (Prod.map (priority, ·) id)

theorem position_le_of_mem_foundInjected {active : List (Priority × RuleRef)}
    {c : (Priority × RuleRef) × Match} (h : c ∈ p.foundInjected g active) :
    p.position ≤ c.2.start := by
  obtain ⟨_, _, h⟩ := List.mem_flatMap.1 h
  obtain ⟨d, hd, rfl⟩ := List.mem_map.1 h
  have hle : p.position ≤ d.2.start := Pattern.start_le_of_mem_found hd
  exact hle

theorem foundInjected_cons (priority : Priority) (target : RuleRef)
    (rest : List (Priority × RuleRef)) :
    earliest (p.foundInjected g ((priority, target) :: rest)) =
      earlier ((p.first (g.injectedPatterns target)).map (Prod.map (priority, ·) id))
        (earliest (p.foundInjected g rest)) := by
  rw [foundInjected, List.flatMap_cons, Pattern.earliest_append, Pattern.earliest_map,
    ← first_eq_earliest]
  rfl

/-- The search that ends early finds what the search of all injections finds. -/
theorem firstInjected_eq : ∀ (active : List (Priority × RuleRef))
    (best : Option (Priority × RuleRef × Match)),
    (p.firstInjected g best active).map tagged =
      earlier (best.map tagged) (earliest (p.foundInjected g active))
  | [], best => (Pattern.earlier_none _).symm
  | (priority, target) :: rest, best => by
    rw [foundInjected_cons, ← Pattern.earlier_assoc]
    simp only [firstInjected]
    cases hfirst : p.first (g.injectedPatterns target) with
    | none =>
      rw [Option.map_none, Pattern.earlier_none]
      exact firstInjected_eq rest best
    | some c =>
      obtain ⟨r, m⟩ := c
      -- a match at the place itself can stand for the rest
      have hexit : m.start = p.position → earlier (some ((priority, r), m))
          (earliest (p.foundInjected g rest)) = some ((priority, r), m) := by
        intro hstart
        refine Pattern.earlier_of_le fun d hd => ?_
        rw [hstart]
        exact position_le_of_mem_foundInjected (Pattern.earliest_mem hd)
      have hnew : (if m.start == p.position then some (priority, r, m)
          else p.firstInjected g (some (priority, r, m)) rest).map tagged =
          earlier (some ((priority, r), m)) (earliest (p.foundInjected g rest)) := by
        split
        · rename_i hstart
          exact (hexit (beq_iff_eq.1 hstart)).symm
        · exact firstInjected_eq rest _
      cases best with
      | none => exact hnew
      | some b =>
        have hbetter : earlier (some (tagged b)) (some ((priority, r), m)) =
            if m.start < b.2.2.start then some ((priority, r), m) else some (tagged b) := rfl
        change _ = earlier (earlier (some (tagged b)) (some ((priority, r), m))) _
        rw [hbetter]
        simp only [Option.any_some, decide_eq_true_eq]
        split
        · rename_i hle
          rw [if_neg (Nat.not_lt.2 hle)]
          exact firstInjected_eq rest _
        · rename_i hlt
          rw [if_pos (Nat.lt_of_not_le hlt)]
          exact hnew

/-! ## The choice in one piece -/

/-- What an injected match counts as. -/
def injectedCandidate : (Priority × RuleRef) × Match → Candidate × Match :=
  Prod.map (fun t => .rule t.2) id

/-- The matches of all contenders, in their order. -/
def foundAmong (p : Place) (ks : List Contender) : List (Contender × Match) :=
  p.found (ks.map fun k => (k, k.pattern))

/-- Injected matches with priority come before the region's own. -/
theorem prefer_before (own : Option (Candidate × Match)) (r : RuleRef) (m : Match) :
    prefer own (some (.before, r, m)) = earlier (some (.rule r, m)) own := by
  cases own with
  | none => rfl
  | some d =>
    rw [Pattern.earlier_some]
    simp only [prefer, beq_self_eq_true, Bool.and_true, Bool.or_eq_true, decide_eq_true_eq,
      beq_iff_eq, ← Nat.le_iff_lt_or_eq]
    split <;> split <;> first | rfl | omega

/-- Other injected matches come after the region's own. -/
theorem prefer_other (own : Option (Candidate × Match)) {c : (Priority × RuleRef) × Match}
    (hc : c.1.1 ≠ .before) :
    prefer own (some (c.1.1, c.1.2, c.2)) = earlier own (some (injectedCandidate c)) := by
  cases own with
  | none => rfl
  | some d =>
    have hother : (c.1.1 == Priority.before) = false := beq_eq_false_iff_ne.2 hc
    simp only [prefer, hother, Bool.and_false, Bool.or_false, decide_eq_true_eq]
    rfl

theorem map_tagged_eq_some {x : Option (Priority × RuleRef × Match)}
    {c : (Priority × RuleRef) × Match} (h : x.map tagged = some c) :
    x = some (c.1.1, c.1.2, c.2) := by
  obtain ⟨d, rfl, rfl⟩ := Option.map_eq_some_iff.1 h
  rfl

/-- The better of a match of the region's patterns and one of injected patterns is the earliest of
all, where injected matches with priority come first and the others last. -/
theorem prefer_eq (own : Option (Candidate × Match)) {b : Option (RuleRef × Match)}
    {n : Option ((Priority × RuleRef) × Match)} (hn : ∀ c ∈ n, c.1.1 ≠ .before)
    {injected : Option (Priority × RuleRef × Match)}
    (hinjected : injected.map tagged = earlier (b.map (Prod.map (Priority.before, ·) id)) n) :
    prefer own injected =
      earlier (b.map (Prod.map .rule id)) (earlier own (n.map injectedCandidate)) := by
  cases n with
  | none =>
    rw [Pattern.earlier_none] at hinjected
    rw [Option.map_none, Pattern.earlier_none]
    cases b with
    | none =>
      rw [Option.map_eq_none_iff.1 hinjected, Option.map_none, Pattern.none_earlier]
      cases own <;> rfl
    | some e =>
      rw [map_tagged_eq_some hinjected]
      exact prefer_before own e.1 e.2
  | some c =>
    have hother := prefer_other own (hn c rfl)
    cases b with
    | none =>
      rw [map_tagged_eq_some hinjected]
      exact hother
    | some e =>
      rw [Option.map_some, Pattern.earlier_some] at hinjected
      split at hinjected
      · -- what wins against the matches with priority starts before them
        rename_i hlt
        obtain ⟨d, hd, hle⟩ := Pattern.exists_earlier_right own (injectedCandidate c)
        have hd_lt : d.2.start < e.2.start := Nat.lt_of_le_of_lt hle hlt
        rw [map_tagged_eq_some hinjected, hother, Option.map_some, Option.map_some, hd]
        exact (Pattern.earlier_of_lt hd_lt).symm
      · rename_i hle
        have hle : e.2.start ≤ c.2.start := Nat.le_of_not_lt hle
        obtain ⟨d, hd, hle'⟩ := Pattern.exists_earlier_left (Candidate.rule e.1, e.2) own
        rw [map_tagged_eq_some hinjected, ← Pattern.earlier_assoc]
        refine (prefer_before own e.1 e.2).trans ?_
        rw [Option.map_some, Prod.map, id, hd]
        refine (Pattern.earlier_of_le ?_).symm
        intro d' hd'
        cases hd'
        exact Nat.le_trans hle' hle

theorem found_flatMap {α β : Type} (f : β → List (α × Pattern)) : ∀ bs : List β,
    p.found (bs.flatMap f) = bs.flatMap fun b => p.found (f b)
  | [] => rfl
  | b :: bs => by
    rw [List.flatMap_cons, List.flatMap_cons, ← found_flatMap f bs]
    exact Pattern.found_append _ _

/-- The active injections of one priority, in the order of the grammar. -/
theorem filter_active (scopes : ScopePath) (priority : Priority) : ∀ injections : List Injection,
    (injections.filterMap fun i => (i.selector.priority? scopes).map fun q => (q, i.target)).filter
      (·.1 == priority) =
    (injections.filter fun i => i.selector.priority? scopes == some priority).map fun i =>
      (priority, i.target)
  | [] => rfl
  | i :: injections => by
    have ih := filter_active scopes priority injections
    rw [List.filterMap_cons, List.filter_cons]
    cases hq : i.selector.priority? scopes with
    | none => simpa using ih
    | some q =>
      by_cases heq : q = priority
      · simp [heq, ih]
      · simp [heq, ih]

theorem foundInjected_active (scopes : ScopePath) :
    p.foundInjected g (g.activeInjections scopes) =
      (p.found (g.injectedAt scopes .before)).map (Prod.map (Priority.before, ·) id) ++
      ((p.found (g.injectedAt scopes .normal)).map (Prod.map (Priority.normal, ·) id) ++
        (p.found (g.injectedAt scopes .after)).map (Prod.map (Priority.after, ·) id)) := by
  have hclass : ∀ priority, p.foundInjected g ((g.injections.filterMap fun i =>
      (i.selector.priority? scopes).map fun q => (q, i.target)).filter (·.1 == priority)) =
        (p.found (g.injectedAt scopes priority)).map (Prod.map (priority, ·) id) := by
    intro priority
    rw [filter_active, foundInjected, List.flatMap_map, Grammar.injectedAt, found_flatMap,
      List.map_flatMap]
  simp only [Grammar.activeInjections, List.flatMap_cons, List.flatMap_nil, List.append_nil]
  rw [← hclass, ← hclass, ← hclass]
  simp only [foundInjected, List.flatMap_append]

theorem foundAmong_append (ks ls : List Contender) :
    p.foundAmong (ks ++ ls) = p.foundAmong ks ++ p.foundAmong ls := by
  rw [foundAmong, List.map_append]
  exact Pattern.found_append _ _

/-- The matches of the contenders of one class. -/
theorem foundAmong_numbered (standing : Standing) (ps : List (Candidate × Pattern)) :
    (p.foundAmong (Contender.numbered standing ps)).map (Prod.map (·.candidate) id) =
      p.found ps := by
  have hpatterns : ((Contender.numbered standing ps).map fun k => (k, k.pattern)).map
      (Prod.map (·.candidate) id) = ps := by
    apply List.ext_getElem?
    intro i
    simp [Contender.numbered, Function.comp_def]
  rw [foundAmong, found, ← Pattern.found_map, hpatterns]
  rfl

theorem foundAmong_injected (scopes : ScopePath) (standing : Standing) (priority : Priority) :
    (p.foundAmong (g.injectedContenders scopes standing priority)).map
      (Prod.map (·.candidate) id) =
      (p.found (g.injectedAt scopes priority)).map (Prod.map .rule id) := by
  rw [Grammar.injectedContenders, foundAmong_numbered]
  exact Pattern.found_map _ _

/-- The next match is the earliest of the matches of all contenders, the first one where several
start together. -/
theorem nextMatch_eq (stack : RuleStack) : p.nextMatch g stack =
    (g.contenders stack).map fun ks =>
      (earliest (p.foundAmong ks)).map (Prod.map (·.candidate) id) := by
  cases stack with
  | nil => rfl
  | cons f below =>
    simp only [nextMatch, Grammar.contenders, Grammar.regionPatterns_eq]
    cases g.ownPatterns f with
    | error e => rfl
    | ok own =>
      refine congrArg Except.ok ?_
      have hinjected := p.firstInjected_eq (g := g) (g.activeInjections f.contentScopes) none
      rw [Option.map_none, Pattern.none_earlier, foundInjected_active, Pattern.earliest_append,
        Pattern.earliest_map] at hinjected
      have hrules : ∀ (priority : Priority) (cs : List (RuleRef × Match)),
          (cs.map (Prod.map (priority, ·) id)).map injectedCandidate =
            cs.map (Prod.map .rule id) := by
        intro priority cs
        rw [List.map_map]
        rfl
      calc prefer (p.first own) (p.firstInjected g none (g.activeInjections f.contentScopes))
          = _ := prefer_eq _ ?_ hinjected
        _ = earliest ((p.found (g.injectedAt f.contentScopes .before)).map (Prod.map .rule id) ++
              p.found own ++
              (p.found (g.injectedAt f.contentScopes .normal)).map (Prod.map .rule id) ++
              (p.found (g.injectedAt f.contentScopes .after)).map (Prod.map .rule id)) := ?_
        _ = _ := ?_
      · intro c hc
        rcases List.mem_append.1 (Pattern.earliest_mem hc) with hc | hc
        · obtain ⟨d, _, rfl⟩ := List.mem_map.1 hc
          exact Priority.noConfusion
        · obtain ⟨d, _, rfl⟩ := List.mem_map.1 hc
          exact Priority.noConfusion
      · have hlater (cs : List ((Priority × RuleRef) × Match)) :
            (earliest cs).map injectedCandidate = earliest (cs.map injectedCandidate) :=
          (Pattern.earliest_map _ cs).symm
        rw [hlater, List.map_append, hrules, hrules, first_eq_earliest]
        simp only [Pattern.earliest_append, Pattern.earliest_map, Pattern.earlier_assoc]
      · refine Eq.trans ?_ (Pattern.earliest_map _ _)
        simp only [foundAmong_append, List.map_append, foundAmong_injected, foundAmong_numbered]

end Place

/-! ## The least match -/

namespace Contender

theorem numbered_pairwise (standing : Standing) (ps : List (Candidate × Pattern)) :
    (numbered standing ps).Pairwise fun k l => k.order < l.order := by
  rw [List.pairwise_iff_getElem]
  intro i j hi hj hlt
  simpa [numbered, order, Prod.Lex.toLex_lt_toLex] using hlt

theorem standing_of_mem_numbered {standing : Standing} {ps : List (Candidate × Pattern)}
    {k : Contender} (h : k ∈ numbered standing ps) : k.standing = standing := by
  obtain ⟨i, hi, rfl⟩ := List.mem_mapIdx.1 h
  rfl

theorem order_lt_of_rank_lt {k l : Contender} (h : k.standing.rank < l.standing.rank) :
    k.order < l.order :=
  Prod.Lex.toLex_lt_toLex.2 (.inl h)

end Contender

namespace Place

open Pattern (earlier earliest)

variable {p : Place} {g : Grammar}

/-- Contenders are listed in the order of class and place. -/
theorem contenders_pairwise {stack : RuleStack} {ks : List Contender}
    (h : g.contenders stack = .ok ks) : ks.Pairwise fun k l => k.order < l.order := by
  cases stack with
  | nil =>
    cases h
    exact .nil
  | cons f below =>
    obtain ⟨own, _, h⟩ := Except.bind_eq_ok.1 h
    cases h
    have hclass : ∀ {a b : Standing} {ps qs : List (Candidate × Pattern)}, a.rank < b.rank →
        ∀ k ∈ Contender.numbered a ps, ∀ l ∈ Contender.numbered b qs, k.order < l.order := by
      intro a b ps qs hrank k hk l hl
      refine Contender.order_lt_of_rank_lt ?_
      rwa [Contender.standing_of_mem_numbered hk, Contender.standing_of_mem_numbered hl]
    simp only [Grammar.injectedContenders, List.pairwise_append, Contender.numbered_pairwise,
      List.mem_append, true_and]
    refine ⟨⟨hclass (by decide), ?_⟩, ?_⟩
    · rintro k (hk | hk)
      · exact hclass (by decide) k hk
      · exact hclass (by decide) k hk
    · rintro k ((hk | hk) | hk)
      · exact hclass (by decide) k hk
      · exact hclass (by decide) k hk
      · exact hclass (by decide) k hk

theorem foundAmong_pairwise {ks : List Contender} (h : ks.Pairwise fun k l => k.order < l.order) :
    (p.foundAmong ks).Pairwise fun c d => c.1.order < d.1.order := by
  have hpatterns : (ks.map fun k => (k, k.pattern)).Pairwise fun a b => a.1.order < b.1.order :=
    List.pairwise_map.2 h
  refine List.Pairwise.filterMap _ ?_ hpatterns
  rintro ⟨k, q⟩ ⟨l, q'⟩ hlt c hc d hd
  obtain ⟨_, _, rfl⟩ := Option.map_eq_some_iff.1 hc
  obtain ⟨_, _, rfl⟩ := Option.map_eq_some_iff.1 hd
  exact hlt

theorem mem_foundAmong {ks : List Contender} {k : Contender} {m : Match} :
    (k, m) ∈ p.foundAmong ks ↔ k ∈ ks ∧ p.search k.pattern = some m := by
  simp only [foundAmong, found, Pattern.mem_found, List.mem_map, Prod.mk.injEq]
  constructor
  · rintro ⟨_, ⟨_, hk, rfl, rfl⟩, hm⟩
    exact ⟨hk, hm⟩
  · rintro ⟨hk, hm⟩
    exact ⟨_, ⟨k, hk, rfl, rfl⟩, hm⟩

/-- The first of the earliest of several matches has the least key. -/
theorem key_lt_of_earliest : ∀ {cs : List (Contender × Match)},
    cs.Pairwise (fun c d => c.1.order < d.1.order) → ∀ {c : Contender × Match},
    earliest cs = some c → ∀ d ∈ cs, d ≠ c → c.1.key c.2 < d.1.key d.2
  | b :: cs, hcs, c, h, d, hd, hne => by
    obtain ⟨hfirst, hcs⟩ := List.pairwise_cons.1 hcs
    rw [earliest] at h
    cases he : earliest cs with
    | none =>
      rw [Pattern.earliest_eq_none] at he
      subst he
      cases h
      exact absurd (List.mem_singleton.1 hd) hne
    | some e =>
      have hle := key_lt_of_earliest hcs he
      rw [he, Pattern.earlier_some] at h
      split at h
      · rename_i hlt
        cases h
        rcases List.mem_cons.1 hd with rfl | hd
        · exact Prod.Lex.toLex_lt_toLex.2 (.inl hlt)
        · exact hle d hd hne
      · rename_i hnot
        cases h
        rcases List.mem_cons.1 hd with rfl | hd
        · exact absurd rfl hne
        · -- the head comes before the earliest of the rest, which comes before all others
          have hbe : b.1.key b.2 < e.1.key e.2 := by
            refine Prod.Lex.toLex_lt_toLex.2 ?_
            rcases Nat.lt_or_eq_of_le (Nat.le_of_not_lt hnot) with hlt | heq
            · exact .inl hlt
            · exact .inr ⟨heq, hfirst e (Pattern.earliest_mem he)⟩
          by_cases hde : d = e
          · rwa [hde]
          · exact hbe.trans (hle d hd hde)

theorem earliest_eq_some_iff {cs : List (Contender × Match)}
    (hcs : cs.Pairwise fun c d => c.1.order < d.1.order) {c : Contender × Match} :
    earliest cs = some c ↔ c ∈ cs ∧ ∀ d ∈ cs, d ≠ c → c.1.key c.2 < d.1.key d.2 := by
  constructor
  · intro h
    exact ⟨Pattern.earliest_mem h, key_lt_of_earliest hcs h⟩
  · rintro ⟨hc, hleast⟩
    cases he : earliest cs with
    | none =>
      rw [Pattern.earliest_eq_none.1 he] at hc
      cases hc
    | some e =>
      by_cases heq : e = c
      · rw [heq]
      · have hec := key_lt_of_earliest hcs he c hc (Ne.symm heq)
        exact absurd hec (lt_asymm (hleast e (Pattern.earliest_mem he) heq))

theorem foundAmong_eq_nil {ks : List Contender} :
    p.foundAmong ks = [] ↔ ∀ k ∈ ks, p.search k.pattern = none := by
  constructor
  · intro hnil k hk
    cases hm : p.search k.pattern with
    | none => rfl
    | some m =>
      have hmem := mem_foundAmong.2 ⟨hk, hm⟩
      rw [hnil] at hmem
      cases hmem
  · intro hnone
    apply List.eq_nil_iff_forall_not_mem.2
    intro c hc
    obtain ⟨hk, hm⟩ := mem_foundAmong.1 hc
    rw [hnone c.1 hk] at hm
    cases hm

/-- The earliest match of the contenders is the one with the least key. -/
theorem earliest_foundAmong {ks : List Contender} (hks : ks.Pairwise fun k l => k.order < l.order)
    {k : Contender} {m : Match} :
    earliest (p.foundAmong ks) = some (k, m) ↔ k ∈ ks ∧ p.search k.pattern = some m ∧
      ∀ l ∈ ks, ∀ n, p.search l.pattern = some n → l ≠ k → k.key m < l.key n := by
  rw [earliest_eq_some_iff (foundAmong_pairwise hks), mem_foundAmong, and_assoc]
  refine and_congr_right fun _ => and_congr_right fun hm => ?_
  constructor
  · intro hleast l hl n hn hne
    exact hleast (l, n) (mem_foundAmong.2 ⟨hl, hn⟩) fun heq => hne (congrArg Prod.fst heq)
  · rintro hleast ⟨l, n⟩ hmem hne
    obtain ⟨hl, hn⟩ := mem_foundAmong.1 hmem
    refine hleast l hl n hn fun hlk => hne ?_
    -- a pattern has one match at a place
    subst hlk
    rw [hm] at hn
    cases hn
    rfl

/-- The match chosen at a place is the one of all patterns that apply there which comes first in the
order of start, class and place; there is none exactly where no pattern matches; and the choice
fails only where it cannot be said which patterns apply. -/
theorem nextMatch_least (p : Place) (g : Grammar) (stack : RuleStack) :
    (∀ e, p.nextMatch g stack = .error e ↔ g.contenders stack = .error e) ∧
    (p.nextMatch g stack = .ok none ↔
      ∃ ks, g.contenders stack = .ok ks ∧ ∀ k ∈ ks, p.search k.pattern = none) ∧
    ∀ c m, p.nextMatch g stack = .ok (some (c, m)) ↔
      ∃ ks, g.contenders stack = .ok ks ∧ ∃ k ∈ ks, k.candidate = c ∧
        p.search k.pattern = some m ∧
        ∀ l ∈ ks, ∀ n, p.search l.pattern = some n → l ≠ k → k.key m < l.key n := by
  rw [nextMatch_eq]
  cases hks : g.contenders stack with
  | error e => simp [Except.map]
  | ok ks =>
    have hearliest {k : Contender} {m : Match} :=
      p.earliest_foundAmong (contenders_pairwise hks) (k := k) (m := m)
    refine ⟨by simp [Except.map], ?_, ?_⟩
    · simp only [Except.map, Except.ok.injEq, Option.map_eq_none_iff, Pattern.earliest_eq_none,
        exists_eq_left', foundAmong_eq_nil]
    · intro c m
      simp only [Except.map, Except.ok.injEq, Option.map_eq_some_iff, exists_eq_left']
      constructor
      · rintro ⟨⟨k, m'⟩, hk, heq⟩
        cases heq
        obtain ⟨hmem, hm, hleast⟩ := hearliest.1 hk
        exact ⟨k, hmem, rfl, hm, hleast⟩
      · rintro ⟨k, hmem, rfl, hm, hleast⟩
        exact ⟨(k, m), hearliest.2 ⟨hmem, hm, hleast⟩, rfl⟩

end Place

end Highlight
