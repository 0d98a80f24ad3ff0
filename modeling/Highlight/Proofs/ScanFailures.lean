import Highlight.Proofs.MatchSelection
import Highlight.Proofs.RuleTable
import Highlight.Proofs.ScanProgress

/-!
# How a scan can fail

A match comes from a rule that has the pattern that matched (`Applicable`), so a step of a scan never
fails because a rule has no pattern or because an end matches outside of a region. `Fails` lists all
that can go wrong in a step: four cases (`step_fails`). A scan fails by a step of it
(`exists_step_eq_error`), never because it stays in place; `continued_fails` and
`continueRegions_fails` say how the start of a line can fail.
-/

namespace Highlight

namespace Grammar

variable {g : Grammar} {r : RuleRef} {e : ScanError}

theorem rule_eq_error : g.rule r = .error e ↔ g.rule? r = none ∧ e = .unknownRule r := by
  unfold rule
  cases g.rule? r with
  | none => simp [eq_comm]
  | some rule => simp

/-- The regions that the captures of a rule open: rules with patterns inside. -/
def capturedRegions (g : Grammar) (r : RuleRef) : List RuleRef :=
  match g.rule? r with
  | some rule => (rule.captured.map (RuleRef.mk r.grammar)).filter fun c =>
      (g.rule? c).any fun inner => !inner.children.isEmpty
  | none => []

theorem mem_capturedRegions {rule inner : Rule} {id : RuleId} (hrule : g.rule? r = some rule)
    (hid : id ∈ rule.captured) (hinner : g.rule? ⟨r.grammar, id⟩ = some inner)
    (hinside : inner.children ≠ []) : ⟨r.grammar, id⟩ ∈ g.capturedRegions r := by
  simp only [capturedRegions, hrule, List.mem_filter]
  refine ⟨List.mem_map.2 ⟨id, hid, rfl⟩, ?_⟩
  simpa [hinner] using hinside

theorem rules_of_mem_capturedRegions {c : RuleRef} (h : c ∈ g.capturedRegions r) :
    (∃ rule, g.rule? r = some rule) ∧ ∃ inner, g.rule? c = some inner := by
  unfold capturedRegions at h
  split at h
  · rename_i rule hrule
    obtain ⟨_, hany⟩ := List.mem_filter.1 h
    refine ⟨⟨rule, hrule⟩, ?_⟩
    cases hinner : g.rule? c with
    | none =>
      rw [hinner] at hany
      cases hany
    | some inner => exact ⟨inner, rfl⟩
  · cases h

/-- Whether the rule opens a region with an end. -/
def ends (g : Grammar) (r : RuleRef) : Bool :=
  match g.rule? r with
  | some (.beginEnd _) => true
  | _ => false

theorem ends_eq_true : g.ends r = true ↔ ∃ rule, g.rule? r = some (.beginEnd rule) := by
  unfold ends
  split
  · rename_i rule h
    exact ⟨fun _ => ⟨rule, h⟩, fun _ => rfl⟩
  · rename_i h
    exact ⟨fun hfalse => Bool.noConfusion hfalse, fun ⟨rule, hrule⟩ => absurd hrule (h rule)⟩

/-! ## Rules that match -/

/-- A rule that may match where a region is innermost. -/
inductive Applicable (g : Grammar) (f : Frame) (r : RuleRef) : Prop
  | inside {p : Pattern} (h : (r, p) ∈ g.childPatterns f.rule)
  | injected {i : Injection} {p : Pattern} (hi : i ∈ g.injections)
      (h : (r, p) ∈ g.injectedPatterns i.target)

section

variable {visited todo : List RuleRef} {rule : Rule}

theorem flatten_unknown (h : g.rule? r = none) :
    g.flatten visited (r :: todo) = g.flatten visited todo := by
  rw [flatten]
  split
  · rfl
  · rename_i hrule
    cases h.symm.trans hrule

theorem flatten_pattern {p : Pattern} (h : g.rule? r = some rule) (hp : startPattern? rule = some p) :
    g.flatten visited (r :: todo) = (r, p) :: g.flatten visited todo := by
  rw [flatten]
  split
  · rename_i hnone
    cases h.symm.trans hnone
  · rename_i hrule
    cases h.symm.trans hrule
    rw [hp]

theorem flatten_fresh (h : g.rule? r = some rule) (hp : startPattern? rule = none)
    (hfresh : visited.contains r = false) : g.flatten visited (r :: todo) =
      g.flatten (r :: visited) (g.members r.grammar rule ++ todo) := by
  rw [flatten]
  split
  · rename_i hnone
    cases h.symm.trans hnone
  · rename_i hrule
    cases h.symm.trans hrule
    rw [hp]
    exact dif_pos hfresh

theorem flatten_visited (h : g.rule? r = some rule) (hp : startPattern? rule = none)
    (hseen : ¬visited.contains r = false) :
    g.flatten visited (r :: todo) = g.flatten visited todo := by
  rw [flatten]
  split
  · rename_i hnone
    cases h.symm.trans hnone
  · rename_i hrule
    cases h.symm.trans hrule
    rw [hp]
    exact dif_neg hseen

theorem rule?_of_mem_flatten {p : Pattern} (h : (r, p) ∈ g.flatten visited todo) :
    ∃ rule, g.rule? r = some rule ∧ startPattern? rule = some p := by
  induction visited, todo using flatten.induct g with
  | case1 visited => simp [flatten] at h
  | case2 visited r' todo hnone ih =>
    rw [flatten_unknown hnone] at h
    exact ih h
  | case3 visited r' todo rule hrule q hstart ih =>
    rw [flatten_pattern hrule hstart] at h
    rcases List.mem_cons.1 h with heq | h
    · cases heq
      exact ⟨rule, hrule, hstart⟩
    · exact ih h
  | case4 visited r' todo rule hrule hstart hfresh ih =>
    rw [flatten_fresh hrule hstart hfresh] at h
    exact ih h
  | case5 visited r' todo rule hrule hstart hseen ih =>
    rw [flatten_visited hrule hstart hseen] at h
    exact ih h

end

theorem Applicable.rule? {f : Frame} (h : g.Applicable f r) :
    ∃ rule p, g.rule? r = some rule ∧ startPattern? rule = some p := by
  have hflat : ∃ p visited todo, (r, p) ∈ g.flatten visited todo := by
    cases h with
    | inside h =>
      unfold childPatterns at h
      split at h
      · exact ⟨_, _, _, h⟩
      · simp at h
    | injected _ h => exact ⟨_, _, _, h⟩
  obtain ⟨p, _, _, hmem⟩ := hflat
  obtain ⟨rule, hrule, hp⟩ := rule?_of_mem_flatten hmem
  exact ⟨rule, p, hrule, hp⟩

theorem regionPatterns_eq_error {f : Frame} (h : g.regionPatterns f = .error e) :
    (g.rule? f.rule = none ∧ e = .unknownRule f.rule) ∨
      ∃ rule, g.rule? f.rule = some (.beginEnd rule) ∧ f.resolvedEnd rule.endPattern = .error e := by
  simp only [regionPatterns] at h
  rcases Except.bind_eq_error.1 h with h | ⟨rule, hrule, h⟩
  · exact .inl (rule_eq_error.1 h)
  · rw [rule_eq_ok] at hrule
    cases rule with
    | beginEnd rule =>
      rcases Except.bind_eq_error.1 h with h | ⟨_, _, h⟩
      · exact .inr ⟨rule, hrule, h⟩
      · cases h
    | matching _ => cases h
    | beginWhile _ => cases h
    | group _ => cases h
    | inclusion _ => cases h

theorem resolvedEnd_eq_error {f : Frame} {c : EndPattern} (h : f.resolvedEnd c = .error e) :
    ∃ source, c = .dynamic source ∧ f.endPattern = none ∧ e = .unresolvedEnd f.rule := by
  unfold Frame.resolvedEnd at h
  split at h
  · cases h
  · cases h
  · rename_i source hnone
    cases h
    exact ⟨source, rfl, hnone, rfl⟩

theorem mem_regionPatterns {f : Frame} {patterns : List (Candidate × Pattern)} {c : Candidate}
    {p : Pattern} (h : g.regionPatterns f = .ok patterns) (hmem : (c, p) ∈ patterns) :
    (c = .ending ∧ g.ends f.rule = true) ∨ ∃ r, c = .rule r ∧ g.Applicable f r := by
  have hinside : ∀ {c p}, (c, p) ∈ (g.childPatterns f.rule).map (Prod.map .rule id) →
      ∃ r, c = Candidate.rule r ∧ g.Applicable f r := by
    intro c p hc
    obtain ⟨⟨r, q⟩, hq, heq⟩ := List.mem_map.1 hc
    cases heq
    exact ⟨r, rfl, .inside hq⟩
  obtain ⟨rule, hrule, h⟩ := Except.bind_eq_ok.1 h
  rw [rule_eq_ok] at hrule
  cases rule with
  | beginEnd rule =>
    obtain ⟨e, _, h⟩ := Except.bind_eq_ok.1 h
    cases h
    have hends : g.ends f.rule = true := ends_eq_true.2 ⟨rule, hrule⟩
    split at hmem
    · rcases List.mem_append.1 hmem with hmem | hmem
      · exact .inr (hinside hmem)
      · cases List.mem_singleton.1 hmem
        exact .inl ⟨rfl, hends⟩
    · rcases List.mem_cons.1 hmem with heq | hmem
      · cases heq
        exact .inl ⟨rfl, hends⟩
      · exact .inr (hinside hmem)
  | matching _ => cases h; exact .inr (hinside hmem)
  | beginWhile _ => cases h; exact .inr (hinside hmem)
  | group _ => cases h; exact .inr (hinside hmem)
  | inclusion _ => cases h; exact .inr (hinside hmem)

theorem applicable_of_mem_injectedContenders {f : Frame} {standing : Standing} {priority : Priority}
    {k : Contender} (h : k ∈ g.injectedContenders f.contentScopes standing priority) :
    ∃ r, k.candidate = .rule r ∧ g.Applicable f r := by
  obtain ⟨i, hi, rfl⟩ := List.mem_mapIdx.1 h
  obtain ⟨⟨r, p⟩, hmem, heq⟩ := List.mem_map.1 (List.getElem_mem hi)
  obtain ⟨injection, hinjection, hp⟩ := List.mem_flatMap.1 hmem
  refine ⟨r, ?_, .injected (List.mem_filter.1 hinjection).1 hp⟩
  rw [← heq]
  rfl

end Grammar

/-- A match belongs to the end of the innermost region or to a rule that may match inside it. -/
theorem Place.nextMatch_candidate {p : Place} {g : Grammar} {f : Frame} {below : RuleStack}
    {c : Candidate} {m : Match} (h : p.nextMatch g (f :: below) = .ok (some (c, m))) :
    (c = .ending ∧ g.ends f.rule = true) ∨ ∃ r, c = .rule r ∧ g.Applicable f r := by
  rw [nextMatch_eq] at h
  cases hks : g.contenders (f :: below) with
  | error e =>
    rw [hks] at h
    cases h
  | ok ks =>
    rw [hks] at h
    obtain ⟨⟨k, n⟩, hk, heq⟩ := Option.map_eq_some_iff.1 (Except.ok.inj h)
    cases heq
    obtain ⟨hk, _⟩ := mem_foundAmong.1 (Pattern.earliest_mem hk)
    obtain ⟨own, hown, hks⟩ := Except.bind_eq_ok.1 hks
    rw [← Grammar.regionPatterns_eq] at hown
    cases hks
    simp only [List.mem_append] at hk
    rcases hk with ((hk | hk) | hk) | hk
    · exact .inr (Grammar.applicable_of_mem_injectedContenders hk)
    · obtain ⟨i, hi, rfl⟩ := List.mem_mapIdx.1 hk
      exact Grammar.mem_regionPatterns hown (List.getElem_mem hi)
    · exact .inr (Grammar.applicable_of_mem_injectedContenders hk)
    · exact .inr (Grammar.applicable_of_mem_injectedContenders hk)

namespace Scan

variable {w : Scan} {s : ScanState} {m : Match} {e : ScanError}

/-! ## Why a step fails -/

/-- Why the capture with the rule at a place of a document fails, for a match that belongs on a
stack. -/
inductive CaptureFails (w : Scan) (owner : ScopeName) (stack : RuleStack) (e : ScanError)
    (id : RuleId) : Prop
  /-- There is no such rule. -/
  | unknown (hrule : w.grammar.rule? ⟨owner, id⟩ = none) (he : e = .unknownRule ⟨owner, id⟩)
  /-- The scan of the captured text fails. -/
  | nested {rule : Rule} {f : Frame} {start stop : Nat} {atStart : Bool} {run : TokenRun}
      (hrule : w.grammar.rule? ⟨owner, id⟩ = some rule) (hinside : rule.children ≠ [])
      (hf : f.rule = ⟨owner, id⟩) (h : w.nested (stack.push f) start stop atStart run = .error e)

/-- A capture of a rule fails. -/
def CapturesFail (w : Scan) (r : RuleRef) (stack : RuleStack) (e : ScanError) : Prop :=
  ∃ rule, w.grammar.rule? r = some rule ∧ ∃ id ∈ rule.captured, w.CaptureFails r.grammar stack e id

/-- Why a step fails. -/
inductive Fails (w : Scan) (s : ScanState) (e : ScanError) : Prop
  /-- The patterns of the innermost region are not known. -/
  | patterns {f : Frame} {below : RuleStack} (hstack : s.stack = f :: below)
      (h : w.grammar.regionPatterns f = .error e)
  /-- The innermost region ends and a capture of that fails. -/
  | ending {f : Frame} {below : RuleStack} (hstack : s.stack = f :: below)
      (hends : w.grammar.ends f.rule = true) (h : w.CapturesFail f.rule (f.atEnd :: below) e)
  /-- A rule matches and a capture of that fails. -/
  | starting {f f' : Frame} {below : RuleStack} {r : RuleRef} (hstack : s.stack = f :: below)
      (happ : w.grammar.Applicable f r) (hf' : f'.rule = r)
      (h : w.CapturesFail r (s.stack.push f') e)
  /-- The close of a region cannot be compiled with captured text in it. -/
  | close {r : RuleRef} {region : Rule.Region} {source : String} {text : Subject}
      {groups : List (Option Span)} {pe : PatternError} (hregion : w.grammar.region? r = some region)
      (hclose : region.close = .dynamic source)
      (h : Pattern.compile (resolveReferences source text groups) = .error pe)
      (he : e = .badEnd pe)

theorem resolvePairs_fails {stack : RuleStack} {owner : ScopeName} {atStart : Bool} :
    ∀ {pairs : List (Option RuleId × Option Span)} {opened : Open} {run : TokenRun},
      w.resolvePairs stack owner atStart m opened run pairs = .error e →
      ∃ id span, (some id, span) ∈ pairs ∧ w.CaptureFails owner stack e id := by
  intro pairs
  induction pairs with
  | nil =>
    intro opened run h
    cases h
  | cons pair pairs ih =>
    -- wherever this capture does nothing or succeeds, it is a later one that fails
    have hlater : ∀ {opened run}, w.resolvePairs stack owner atStart m opened run pairs = .error e →
        ∃ id span, (some id, span) ∈ pair :: pairs ∧ w.CaptureFails owner stack e id := by
      intro opened run h
      obtain ⟨id, span, hmem, hfails⟩ := ih h
      exact ⟨id, span, List.mem_cons_of_mem _ hmem, hfails⟩
    intro opened run h
    obtain ⟨id?, span?⟩ := pair
    cases id? with
    | none => exact hlater h
    | some id =>
      cases span? with
      | none => exact hlater h
      | some span =>
        simp only [resolvePairs] at h
        split at h
        · exact hlater h
        · generalize closeBefore span.start opened run = closed at h
          have hmem := List.mem_cons_self (a := (some id, some span)) (l := pairs)
          rcases Except.bind_eq_error.1 h with h | ⟨rule, hrule, h⟩
          · obtain ⟨hrule, he⟩ := Grammar.rule_eq_error.1 h
            exact ⟨id, _, hmem, .unknown hrule he⟩
          · rw [Grammar.rule_eq_ok] at hrule
            split at h
            · exact hlater h
            · rename_i hinside
              rcases Except.bind_eq_error.1 h with h | ⟨_, _, h⟩
              · exact ⟨id, _, hmem, .nested hrule (by simpa using hinside) rfl h⟩
              · exact hlater h

theorem resolveCaptures_fails {stack : RuleStack} {r : RuleRef} {rule : Rule} {cs : CaptureRules}
    (hrule : w.grammar.rule? r = some rule) (hcs : CaptureRules.places cs ⊆ rule.captured)
    (h : w.resolveCaptures s stack r.grammar cs m = .error e) : w.CapturesFail r stack e := by
  simp only [resolveCaptures] at h
  rcases Except.bind_eq_error.1 h with h | ⟨_, _, h⟩
  · obtain ⟨id, span, hmem, hfails⟩ := resolvePairs_fails h
    have hid : id ∈ CaptureRules.places cs := CaptureRules.mem_places.2 (List.of_mem_zip hmem).1
    exact ⟨rule, hrule, id, hcs hid, hfails⟩
  · cases h

theorem applyEnd_fails {f : Frame} {below : RuleStack} (hstack : s.stack = f :: below)
    (hends : w.grammar.ends f.rule = true) (h : w.applyEnd s m = .error e) : w.Fails s e := by
  obtain ⟨rule, hrule⟩ := Grammar.ends_eq_true.1 hends
  simp only [applyEnd, hstack, Grammar.rule_eq_ok.2 hrule] at h
  rcases Except.bind_eq_error.1 h with h | ⟨_, heq, h⟩
  · cases h
  · cases heq
    rcases Except.bind_eq_error.1 h with h | ⟨t, _, h⟩
    · have hfails := resolveCaptures_fails hrule (List.subset_append_right _ _) h
      exact .ending hstack hends hfails
    · split at h
      · cases h
      · cases h

theorem resolveEnd_eq_error {c : EndPattern} (h : w.resolveEnd m c = .error e) :
    ∃ source pe, c = .dynamic source ∧
      Pattern.compile (resolveReferences source w.text m.groups) = .error pe ∧ e = .badEnd pe := by
  unfold resolveEnd at h
  split at h
  · cases h
  · split at h
    · cases h
    · rename_i source _ pe hpe
      cases h
      exact ⟨source, pe, rfl, hpe, rfl⟩

theorem applyMatch_fails {f : Frame} {below : RuleStack} {r : RuleRef} {rule : MatchRule}
    (hstack : s.stack = f :: below) (happ : w.grammar.Applicable f r)
    (hrule : w.grammar.rule? r = some (.matching rule)) (h : w.applyMatch s r rule m = .error e) :
    w.Fails s e := by
  simp only [applyMatch] at h
  rcases Except.bind_eq_error.1 h with h | ⟨t, _, h⟩
  · have hfails := resolveCaptures_fails hrule (List.Subset.refl _) h
    have hopened : (w.openedFrame s r rule.name m).rule = r := rfl
    exact .starting hstack happ hopened hfails
  · split at h
    · cases h
    · cases h

theorem applyBegin_fails {f : Frame} {below : RuleStack} {r : RuleRef} {rule : Rule}
    {region : Rule.Region} (hstack : s.stack = f :: below) (happ : w.grammar.Applicable f r)
    (hrule : w.grammar.rule? r = some rule) (hregion : rule.region? = some region)
    (hcs : CaptureRules.places region.captures ⊆ rule.captured)
    (h : w.applyBegin s r region.name region.contentName region.captures region.close m
      = .error e) : w.Fails s e := by
  simp only [applyBegin] at h
  rcases Except.bind_eq_error.1 h with h | ⟨t, _, h⟩
  · have hfails := resolveCaptures_fails hrule hcs h
    have hopened : (w.openedFrame s r region.name m).rule = r := rfl
    exact .starting hstack happ hopened hfails
  · rcases Except.bind_eq_error.1 h with h | ⟨p, _, h⟩
    · obtain ⟨source, pe, hclose, hpe, he⟩ := resolveEnd_eq_error h
      have hregion' : w.grammar.region? r = some region := by rw [Grammar.region?, hrule]; exact hregion
      exact .close hregion' hclose hpe he
    · split at h
      · cases h
      · cases h

theorem applyRule_fails {f : Frame} {below : RuleStack} {r : RuleRef}
    (hstack : s.stack = f :: below) (happ : w.grammar.Applicable f r)
    (h : w.applyRule s r m = .error e) : w.Fails s e := by
  -- a rule that matched has a pattern, so groups and references do not come here
  obtain ⟨rule, p, hrule, hp⟩ := happ.rule?
  simp only [applyRule, Grammar.rule_eq_ok.2 hrule] at h
  cases rule with
  | matching rule => exact applyMatch_fails hstack happ hrule h
  | beginEnd rule => exact applyBegin_fails hstack happ hrule rfl (List.subset_append_left _ _) h
  | beginWhile rule => exact applyBegin_fails hstack happ hrule rfl (List.subset_append_left _ _) h
  | group _ => cases hp
  | inclusion _ => cases hp

theorem step_fails (h : w.step s = .error e) : w.Fails s e := by
  simp only [step] at h
  cases hstack : s.stack with
  | nil =>
    rw [hstack] at h
    cases h
  | cons f below =>
    rw [hstack] at h
    rcases Except.bind_eq_error.1 h with h | ⟨found, hfound, h⟩
    · rcases Except.bind_eq_error.1 h with h | ⟨_, _, h⟩
      · exact .patterns hstack h
      · cases h
    · rcases found with _ | ⟨c, m⟩
      · cases h
      · rcases Except.bind_eq_error.1 h with h | ⟨_, _, h⟩
        · rcases Place.nextMatch_candidate hfound with ⟨rfl, hends⟩ | ⟨r, rfl, happ⟩
          · exact applyEnd_fails hstack hends h
          · exact applyRule_fails hstack happ h
        · cases h

/-- A scan that fails fails in a step, where what all steps keep still holds. -/
theorem exists_step_eq_error {P : ScanState → Prop}
    (hmore : ∀ s s', P s → w.step s = .ok (.more s') → P s') (hs : P s)
    (h : w.steps (w.bound s) s = .error e) : ∃ t, P t ∧ w.step t = .error e := by
  obtain ⟨n, r, hn, hloops⟩ := w.exists_loops s
  rw [steps_of_loops hloops (Nat.le_trans hn (w.potential_lt_bound s))] at h
  subst h
  clear hn
  -- by induction on the loop without a bound, which knows no error of its own
  generalize hr : (Except.error e : Except ScanError ScanState) = r at hloops
  induction hloops with
  | error hstep =>
    cases hr
    exact ⟨_, hs, hstep⟩
  | done _ => cases hr
  | more hstep _ ih => exact ih (hmore _ _ hs hstep) hr

/-! ## Why the start of a line fails -/

theorem continued_fails {g : Grammar} : ∀ {stack : RuleStack},
    continued g stack = .error e → ∃ f ∈ stack, g.rule? f.rule = none ∧ e = .unknownRule f.rule
  | [], h => by cases h
  | f :: below, h => by
    simp only [continued] at h
    rcases Except.bind_eq_error.1 h with h | ⟨_, _, h⟩
    · obtain ⟨f', hf', hfails⟩ := continued_fails h
      exact ⟨f', List.mem_cons_of_mem f hf', hfails⟩
    · rcases Except.bind_eq_error.1 h with h | ⟨rule, _, h⟩
      · exact ⟨f, List.mem_cons_self, Grammar.rule_eq_error.1 h⟩
      · cases rule with
        | beginWhile _ => cases h
        | matching _ => cases h
        | beginEnd _ => cases h
        | group _ => cases h
        | inclusion _ => cases h

theorem continueRegions_fails : ∀ {cs : List Continued} {s : ScanState},
    (∀ c ∈ cs, w.grammar.rule? c.frame.rule = some (.beginWhile c.rule)) →
    w.continueRegions s cs = .error e →
    ∃ c ∈ cs, c.frame.resolvedEnd c.rule.whilePattern = .error e ∨
      w.CapturesFail c.frame.rule (c.frame :: c.below) e
  | [], _, _, h => by cases h
  | c :: cs, s, hcs, h => by
    have hc := hcs c List.mem_cons_self
    have hlater : ∀ {t}, w.continueRegions t cs = .error e →
        ∃ c' ∈ c :: cs, c'.frame.resolvedEnd c'.rule.whilePattern = .error e ∨
          w.CapturesFail c'.frame.rule (c'.frame :: c'.below) e := by
      intro t h
      obtain ⟨c', hc', hfails⟩ := continueRegions_fails
        (fun d hd => hcs d (List.mem_cons_of_mem c hd)) h
      exact ⟨c', List.mem_cons_of_mem c hc', hfails⟩
    simp only [continueRegions] at h
    rcases Except.bind_eq_error.1 h with h | ⟨p, _, h⟩
    · exact ⟨c, List.mem_cons_self, .inl h⟩
    · split at h
      · cases h
      · rcases Except.bind_eq_error.1 h with h | ⟨t, _, h⟩
        · have hfails := resolveCaptures_fails hc (List.subset_append_right _ _) h
          exact ⟨c, List.mem_cons_self, .inr hfails⟩
        · split at h
          · exact hlater h
          · exact hlater h

end Scan

end Highlight
