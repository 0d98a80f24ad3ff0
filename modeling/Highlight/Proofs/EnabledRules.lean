import Highlight.Proofs.FaithfulTable

/-!
# Grammars without their disabled rules

A rule of a list of patterns that is disabled leaves no trace in the compiled grammar: the grammar
compiles to the same as without it, at whatever depth the list is (`compile_enabled`). Elsewhere the
mark counts for nothing: an entry of a repository, a capture or an injection that is disabled is
compiled like any other. `RawGrammar.enabled` is what remains of a grammar as written, with no rule
marked.
-/

namespace Highlight

mutual

/-- The rule without the disabled rules of the lists inside it, and with no rule marked. -/
def RawRule.enabled : RawRule → RawRule
  | ⟨inclusion, matchSource, name, contentName, beginSource, endSource, whileSource, captures,
      beginCaptures, endCaptures, whileCaptures, patterns, repository, last, _⟩ =>
    ⟨inclusion, matchSource, name, contentName, beginSource, endSource, whileSource,
      enabledCaptures? captures, enabledCaptures? beginCaptures, enabledCaptures? endCaptures,
      enabledCaptures? whileCaptures, enabledPatterns? patterns, enabledRepository? repository, last,
      none⟩

def enabledCaptures? : Option (List (Nat × RawRule)) → Option (List (Nat × RawRule))
  | some cs => some (enabledCaptures cs)
  | none => none

def enabledPatterns? : Option (List RawRule) → Option (List RawRule)
  | some raws => some (enabledPatterns raws)
  | none => none

def enabledRepository? : Option (List (String × RawRule)) → Option (List (String × RawRule))
  | some es => some (enabledRepository es)
  | none => none

def enabledCaptures : List (Nat × RawRule) → List (Nat × RawRule)
  | [] => []
  | (n, raw) :: cs => (n, raw.enabled) :: enabledCaptures cs

/-- The rules of a list that are not disabled. -/
def enabledPatterns : List RawRule → List RawRule
  | [] => []
  | raw :: raws =>
    if raw.disabled.getD false then enabledPatterns raws else raw.enabled :: enabledPatterns raws

def enabledRepository : List (String × RawRule) → List (String × RawRule)
  | [] => []
  | (name, raw) :: es => (name, raw.enabled) :: enabledRepository es

end

/-! ## Parts of an enabled rule -/

/-- What remains of a rule in a map, at its key. -/
def RawRule.enabledAt {κ : Type} (e : κ × RawRule) : κ × RawRule := (e.1, e.2.enabled)

section

variable {κ : Type}

theorem map_fst_enabledAt (es : List (κ × RawRule)) :
    (es.map RawRule.enabledAt).map (·.1) = es.map (·.1) := by
  rw [List.map_map]
  rfl

theorem lookup_enabledAt [BEq κ] (k : κ) : ∀ es : List (κ × RawRule),
    (es.map RawRule.enabledAt).lookup k = (es.lookup k).map RawRule.enabled
  | [] => rfl
  | e :: es => by
    rw [List.map_cons, List.lookup_cons, List.lookup_cons, lookup_enabledAt k es]
    show (match k == e.1 with
      | true => some e.2.enabled
      | false => (es.lookup k).map RawRule.enabled) = _
    cases k == e.1 with
    | true => rfl
    | false => rfl

end

theorem enabledCaptures_eq (cs : List (Nat × RawRule)) :
    enabledCaptures cs = cs.map RawRule.enabledAt := by
  induction cs with
  | nil => rfl
  | cons c cs ih =>
    rw [enabledCaptures, ih, List.map_cons]
    rfl

theorem enabledRepository_eq (es : List (String × RawRule)) :
    enabledRepository es = es.map RawRule.enabledAt := by
  induction es with
  | nil => rfl
  | cons e es ih =>
    rw [enabledRepository, ih, List.map_cons]
    rfl

theorem enabledPatterns_eq (raws : List RawRule) :
    enabledPatterns raws = (RawRule.live raws).map RawRule.enabled := by
  induction raws with
  | nil => rfl
  | cons raw raws ih =>
    rw [enabledPatterns, ih]
    split
    · next hdisabled => rw [RawGrammar.live_cons_disabled hdisabled]
    · next henabled => rw [RawGrammar.live_cons henabled, List.map_cons]

namespace RawRule

theorem disabled_enabled (raw : RawRule) : raw.enabled.disabled = none := by
  cases raw
  rw [RawRule.enabled]

theorem live_enabled (raws : List RawRule) : live (enabledPatterns raws) = enabledPatterns raws := by
  rw [enabledPatterns_eq]
  refine List.filter_eq_self.2 fun raw hraw => ?_
  obtain ⟨raw', _, rfl⟩ := List.mem_map.1 hraw
  rw [disabled_enabled]
  rfl

theorem getD_enabledCaptures (captures : Option (List (Nat × RawRule))) :
    (enabledCaptures? captures).getD [] = (captures.getD []).map enabledAt := by
  cases captures with
  | none =>
    unfold enabledCaptures?
    rfl
  | some cs =>
    unfold enabledCaptures?
    exact enabledCaptures_eq cs

theorem enabledCaptures_or (captures captures' : Option (List (Nat × RawRule))) :
    (enabledCaptures? captures).or (enabledCaptures? captures') =
      enabledCaptures? (captures.or captures') := by
  cases captures with
  | none =>
    unfold enabledCaptures?
    rfl
  | some cs =>
    unfold enabledCaptures?
    rfl

theorem enabledCaptures_none : enabledCaptures? none = none := by
  unfold enabledCaptures?
  rfl

theorem openingCaptures_enabled (raw : RawRule) :
    raw.enabled.openingCaptures = enabledCaptures? raw.openingCaptures := by
  obtain ⟨inclusion, matchSource, _, _, beginSource, _, _, _, _, _, _, _, _, _, _⟩ := raw
  unfold RawRule.enabled openingCaptures
  cases inclusion <;> cases matchSource <;> cases beginSource <;>
    simp only [enabledCaptures_or, enabledCaptures_none]

theorem closingCaptures_enabled (raw : RawRule) :
    raw.enabled.closingCaptures = enabledCaptures? raw.closingCaptures := by
  obtain ⟨inclusion, matchSource, _, _, beginSource, _, whileSource, _, _, _, _, _, _, _, _⟩ := raw
  unfold RawRule.enabled closingCaptures
  cases inclusion <;> cases matchSource <;> cases beginSource <;> cases whileSource <;>
    simp [enabledCaptures_or, enabledCaptures_none]

theorem innerPatterns_enabled (raw : RawRule) :
    raw.enabled.innerPatterns = raw.innerPatterns.map RawRule.enabled := by
  obtain ⟨inclusion, matchSource, _, _, _, _, _, _, _, _, _, patterns, _, _, _⟩ := raw
  have hlive : live ((enabledPatterns? patterns).getD []) =
      (live (patterns.getD [])).map RawRule.enabled := by
    cases patterns with
    | none =>
      unfold enabledPatterns?
      rfl
    | some raws =>
      unfold enabledPatterns?
      rw [Option.getD_some, live_enabled, enabledPatterns_eq]
      rfl
  unfold RawRule.enabled innerPatterns
  cases inclusion <;> cases matchSource <;> simp [hlive]

theorem repository_enabled (raw : RawRule) :
    raw.enabled.repository.getD [] = (raw.repository.getD []).map enabledAt := by
  obtain ⟨_, _, _, _, _, _, _, _, _, _, _, _, repository, _, _⟩ := raw
  unfold RawRule.enabled
  cases repository with
  | none =>
    unfold enabledRepository?
    rfl
  | some es =>
    unfold enabledRepository?
    exact enabledRepository_eq es

theorem part?_enabled (raw : RawRule) (part : Part) :
    raw.enabled.part? part = (raw.part? part).map RawRule.enabled := by
  cases part with
  | entry name => rw [part?, part?, repository_enabled, lookup_enabledAt]
  | pattern n => rw [part?, part?, innerPatterns_enabled, List.getElem?_map]
  | opening n =>
    rw [part?, part?, openingCaptures_enabled, getD_enabledCaptures, lookup_enabledAt]
  | closing n =>
    rw [part?, part?, closingCaptures_enabled, getD_enabledCaptures, lookup_enabledAt]
  | injection n => rfl

theorem Keyed.enabled {raw : RawRule} (h : raw.Keyed) : raw.enabled.Keyed where
  repository := by
    rw [repository_enabled, map_fst_enabledAt]
    exact h.repository
  opening := by
    rw [openingCaptures_enabled, getD_enabledCaptures, map_fst_enabledAt]
    exact h.opening
  closing := by
    rw [closingCaptures_enabled, getD_enabledCaptures, map_fst_enabledAt]
    exact h.closing

end RawRule

/-! ## Compiling -/

section

variable {own : ScopeName}

mutual

theorem buildRule_enabled (chain : Chain) :
    ∀ raw : RawRule, buildRule own chain raw.enabled = buildRule own chain raw
  | ⟨_, _, _, _, _, _, _, captures, beginCaptures, endCaptures, whileCaptures, patterns, repository,
      _, _⟩ => by
    unfold RawRule.enabled buildRule
    rw [compileRepository_enabled chain repository]
    refine congrArg (_ >>= ·) (funext fun chain => ?_)
    rw [compileCaptures?_enabled chain captures, compileCaptures?_enabled chain beginCaptures,
      compileCaptures?_enabled chain endCaptures, compileCaptures?_enabled chain whileCaptures,
      compilePatterns?_enabled chain patterns]
    rfl

theorem compileRepository_enabled (chain : Chain) : ∀ repository : Option (List (String × RawRule)),
    compileRepository own chain (enabledRepository? repository) =
      compileRepository own chain repository
  | some (e :: es) => by
    have hnames : (enabledRepository es).map (·.1) = es.map (·.1) := by
      rw [enabledRepository_eq, map_fst_enabledAt]
    have hentries := fun chain => compileEntries_enabled chain (e :: es)
    obtain ⟨name, raw⟩ := e
    rw [enabledRepository] at hentries
    unfold enabledRepository? enabledRepository compileRepository
    simp only [hnames, hentries]
  | some [] => by
    unfold enabledRepository? enabledRepository
    rfl
  | none => by
    unfold enabledRepository?
    rfl

theorem compileCaptures?_enabled (chain : Chain) : ∀ captures : Option (List (Nat × RawRule)),
    compileCaptures? own chain (enabledCaptures? captures) = compileCaptures? own chain captures
  | some cs => by
    have hnumbers : (enabledCaptures cs).map (·.1) = cs.map (·.1) := by
      rw [enabledCaptures_eq, map_fst_enabledAt]
    unfold enabledCaptures? compileCaptures?
    rw [hnumbers, compileNumbered_enabled chain cs]
  | none => by
    unfold enabledCaptures?
    rfl

theorem compilePatterns?_enabled (chain : Chain) : ∀ patterns : Option (List RawRule),
    compilePatterns? own chain (enabledPatterns? patterns) = compilePatterns? own chain patterns
  | some raws => by
    unfold enabledPatterns? compilePatterns?
    exact compilePatterns_enabled chain raws
  | none => by
    unfold enabledPatterns?
    rfl

theorem compileEntries_enabled (chain : Chain) : ∀ (es : List (String × RawRule)) (ids : Repository),
    compileEntries own chain (enabledRepository es) ids = compileEntries own chain es ids
  | (_, raw) :: es, (_, _) :: ids => by
    unfold enabledRepository compileEntries
    rw [buildRule_enabled chain raw]
    simp only [compileEntries_enabled chain es ids]
  | [], _ => by
    unfold enabledRepository
    rfl
  | (_, _) :: _, [] => by
    unfold enabledRepository compileEntries
    rfl

theorem compilePatterns_enabled (chain : Chain) : ∀ raws : List RawRule,
    compilePatterns own chain (enabledPatterns raws) = compilePatterns own chain raws
  | [] => by
    unfold enabledPatterns
    rfl
  | raw :: raws => by
    have hrest := compilePatterns_enabled chain raws
    unfold enabledPatterns
    rw [compilePatterns]
    split
    · exact hrest
    · rw [compilePatterns, raw.disabled_enabled, buildRule_enabled chain raw, hrest]
      rfl

theorem compileNumbered_enabled (chain : Chain) : ∀ cs : List (Nat × RawRule),
    compileNumbered own chain (enabledCaptures cs) = compileNumbered own chain cs
  | [] => by
    unfold enabledCaptures
    rfl
  | (_, raw) :: cs => by
    unfold enabledCaptures compileNumbered
    rw [buildRule_enabled chain raw, compileNumbered_enabled chain cs]

end

theorem compileInjections_enabled (chain : Chain) : ∀ injections : List (String × RawRule),
    compileInjections own chain (enabledRepository injections) =
      compileInjections own chain injections
  | [] => by
    unfold enabledRepository
    rfl
  | (_, raw) :: rest => by
    unfold enabledRepository compileInjections
    rw [buildRule_enabled chain raw, compileInjections_enabled chain rest]

end

namespace RawGrammar

/-- The grammar without the disabled rules of lists of patterns, and with no rule marked. -/
def enabled (g : RawGrammar) : RawGrammar :=
  { g with
    patterns := enabledPatterns g.patterns
    repository := enabledRepository g.repository
    injections := enabledRepository g.injections }

/-- Disabled rules of lists of patterns leave no trace, and no other rule is told from one that is
not disabled. -/
theorem compile_enabled (g : RawGrammar) :
    CompiledGrammar.compile g.enabled = CompiledGrammar.compile g := by
  have hnames : (enabledRepository g.repository).map (·.1) = g.repository.map (·.1) := by
    rw [enabledRepository_eq, map_fst_enabledAt]
  have hall : compileAll g.enabled = compileAll g := by
    unfold compileAll enabled
    simp only [hnames, compileEntries_enabled, compilePatterns_enabled, compileInjections_enabled]
  unfold CompiledGrammar.compile
  rw [hall]
  rfl

/-! ## Sites -/

theorem rootRule_enabled (g : RawGrammar) : g.enabled.rootRule = g.rootRule.enabled := by
  unfold rootRule enabled RawRule.enabled
  simp only [RawRule.enabledCaptures_none]
  unfold enabledPatterns? enabledRepository?
  rfl

theorem part?_rootRule_enabled (g : RawGrammar) (part : Part) :
    g.enabled.rootRule.part? part = (g.rootRule.part? part).map RawRule.enabled := by
  rw [rootRule_enabled, RawRule.part?_enabled]

/-- The enabled grammar has the same sites. -/
theorem rule?_enabled (g : RawGrammar) : ∀ p : Site,
    g.enabled.rule? p = (g.rule? p).map RawRule.enabled
  | [] => congrArg some g.rootRule_enabled
  | [.injection n] => by
    have hinjections : g.enabled.injections = g.injections.map RawRule.enabledAt :=
      enabledRepository_eq g.injections
    rw [rule?, rule?, hinjections, List.getElem?_map, Option.map_map, Option.map_map]
    rfl
  | [.entry name] => g.part?_rootRule_enabled (.entry name)
  | [.pattern n] => g.part?_rootRule_enabled (.pattern n)
  | [.opening n] => g.part?_rootRule_enabled (.opening n)
  | [.closing n] => g.part?_rootRule_enabled (.closing n)
  | part :: part' :: p => by
    rw [rule?_cons, rule?_cons, rule?_enabled g (part' :: p), Option.bind_map, Option.map_bind]
    exact congrArg _ (funext fun raw => raw.part?_enabled part)

theorem Keyed.enabled {g : RawGrammar} (h : g.Keyed) : g.enabled.Keyed := by
  intro p raw hraw
  rw [rule?_enabled] at hraw
  obtain ⟨raw', hraw', rfl⟩ := Option.map_eq_some_iff.1 hraw
  exact (h p raw' hraw').enabled

/-- No rule of the enabled grammar is disabled. -/
theorem not_disabled {g : RawGrammar} {p : Site} {raw : RawRule}
    (h : g.enabled.rule? p = some raw) : raw.disabled = none := by
  rw [rule?_enabled] at h
  obtain ⟨raw', _, rfl⟩ := Option.map_eq_some_iff.1 h
  exact raw'.disabled_enabled

end RawGrammar

end Highlight
