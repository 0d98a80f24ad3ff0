import Highlight.Proofs.PlacedRules
import Highlight.Proofs.ReadGrammars

/-!
# Tables are faithful

The recursion of compilation meets the contracts of its parts: an entry of a repository is compiled
at a place that was taken before (`FillsEntries`), all other rules at the next place, so a grammar
fills the places of all its sites (`compileAll_lays`). Hence a compiled grammar renders the grammar
as written (`CompiledGrammar.Renders`), and compilation fails if and only if something is wrong with
a rule (`exists_compile_eq_ok_iff`).
-/

namespace Highlight

namespace RawGrammar

variable {β : Type} {g : RawGrammar} {q : Site}

/-! ## Repositories -/

/-- The sites inside the entries of a repository. -/
def insideEntries (q : Site) (es : List (String × RawRule)) : List Site :=
  es.flatMap fun e => e.2.layout (.entry e.1 :: q)

/-- What compiling the entries of a repository does to the table: their own places are taken
already. -/
structure Fills (g : RawGrammar) (q : Site) (es : List (String × RawRule)) (d d' : Draft) :
    Prop where
  size : d'.rules.size = d.rules.size + (insideEntries q es).length
  kept : ∀ i < d.rules.size, (∀ e ∈ es, i ≠ g.place (.entry e.1 :: q)) → d'.rules[i]? = d.rules[i]?
  filled : ∀ q' ∈ insideEntries q es, g.Filled d' q'
  entries : ∀ e ∈ es, g.Filled d' (.entry e.1 :: q)
  embedded : d.embedded ⊆ d'.embedded
  mentions : ∀ s ∈ d'.embedded, s ∈ d.embedded ∨ g.Mentions s

/-- From a table that has the places of the entries, a part of compilation fills them, or something
is wrong with a rule of the grammar. -/
def FillsEntries (g : RawGrammar) (q : Site) (es : List (String × RawRule)) (x : Compiling Unit) :
    Prop :=
  ∀ before after d, g.layout = before ++ insideEntries q es ++ after →
    d.rules.size = before.length → (∀ e ∈ es, .entry e.1 :: q ∈ before) →
    (∀ d', x d = .ok ((), d') → g.Fills q es d d') ∧ ∀ e, x d = .error e → g.Blames e

theorem reserveAll_ends (hg : g.Keyed) {E : GrammarError → Prop} :
    ∀ (names : List String) (before after : List Site) (d : Draft),
      g.layout = before ++ names.map (fun n => .entry n :: q) ++ after →
      d.rules.size = before.length →
      Compiling.Ends (Compiling.reserveAll names) d (fun ids d' =>
        ids = (names.map fun n => (n, g.place (.entry n :: q))) ∧
          d'.rules.size = d.rules.size + names.length ∧
          (∀ i < d.rules.size, d'.rules[i]? = d.rules[i]?) ∧ d'.embedded = d.embedded) E
  | [], _, _, d, _, _ => Compiling.Ends.pure ⟨rfl, rfl, fun _ _ => rfl, rfl⟩
  | n :: names, before, after, d, hlayout, hsize => by
    have hlayout' : g.layout =
        before ++ [.entry n :: q] ++ names.map (fun n => .entry n :: q) ++ after := by
      rw [hlayout]
      simp only [List.map_cons, List.append_assoc, List.cons_append, List.nil_append]
    have hplace : g.place (.entry n :: q) = d.rules.size := by
      rw [hsize]
      exact place_eq_length hg (by rw [hlayout, List.append_assoc, List.map_cons, List.cons_append])
    apply Compiling.Ends.bind Compiling.Ends.reserve
    rintro _ d₀ ⟨rfl, rfl⟩
    apply Compiling.Ends.bind (reserveAll_ends hg names (before ++ [.entry n :: q]) after _ hlayout'
      (by simp [hsize]))
    rintro _ d' ⟨rfl, hsize', hkept, hembedded⟩
    rw [Array.size_push] at hsize'
    refine Compiling.Ends.pure ⟨?_, ?_, ?_, hembedded⟩
    · rw [List.map_cons, hplace]
    · rw [hsize', List.length_cons]
      omega
    · intro i hi
      rw [hkept i (by simp only [Array.size_push]; omega), Array.getElem?_push_lt hi,
        Array.getElem?_eq_getElem hi]

/-- The places of the entries are taken, then filled together with those inside the entries. -/
theorem Fills.laid (hg : g.Keyed) {es : List (String × RawRule)} {before after : List Site}
    {d d₁ d₂ : Draft} (hlayout : g.layout =
      before ++ es.map (fun e => .entry e.1 :: q) ++ insideEntries q es ++ after)
    (hsize : d.rules.size = before.length) (hsize₁ : d₁.rules.size = d.rules.size + es.length)
    (hkept₁ : ∀ i < d.rules.size, d₁.rules[i]? = d.rules[i]?)
    (hembedded₁ : d₁.embedded = d.embedded)
    (h : g.Fills q es d₁ d₂) :
    g.Laid d (es.map (fun e => .entry e.1 :: q) ++ insideEntries q es) d₂ := by
  refine ⟨?_, ?_, ?_, hembedded₁ ▸ h.embedded, hembedded₁ ▸ h.mentions⟩
  · rw [h.size, hsize₁, List.length_append, List.length_map]
    omega
  · intro i hi
    rw [h.kept i (by omega), hkept₁ i hi]
    -- the places of the entries come after those that were taken before
    intro e he heq
    have hge := place_ge hg (q := .entry e.1 :: q)
      ((hlayout.trans (List.append_assoc ..)).trans (List.append_assoc ..))
      (List.mem_append_left _ (List.mem_map_of_mem he))
    omega
  · intro q' hq'
    rcases List.mem_append.1 hq' with hq' | hq'
    · obtain ⟨e, he, rfl⟩ := List.mem_map.1 hq'
      exact h.entries e he
    · exact h.filled q' hq'

/-- The entries of a repository take their places before the first of them is compiled. -/
theorem repository_lays (hg : g.Keyed) {es : List (String × RawRule)} {chain : Chain}
    {rest : List Site} {k : Repository → Compiling β} {Q : β → Draft → Prop}
    (hes : g.FillsEntries q es
      (compileEntries g.scopeName (g.entryPlaces q es :: chain) es (g.entryPlaces q es)))
    (hk : g.Lays rest (k (g.entryPlaces q es)) Q) :
    g.Lays (es.map (fun e => .entry e.1 :: q) ++ insideEntries q es ++ rest)
      (do
        let ids ← Compiling.reserveAll (es.map (·.1))
        compileEntries g.scopeName (ids :: chain) es ids
        k ids) Q := by
  intro before after d hlayout hsize
  have hlayout₁ : g.layout =
      before ++ es.map (fun e => .entry e.1 :: q) ++ insideEntries q es ++ (rest ++ after) := by
    rw [hlayout]
    simp only [List.append_assoc]
  have hlayout₂ : g.layout =
      before ++ (es.map (fun e => .entry e.1 :: q) ++ insideEntries q es) ++ rest ++ after := by
    rw [hlayout]
    simp only [List.append_assoc]
  have hids : ((es.map (·.1)).map fun n => (n, g.place (.entry n :: q))) = g.entryPlaces q es := by
    rw [entryPlaces, List.map_map]
    rfl
  apply Compiling.Ends.bind (reserveAll_ends (q := q) hg (es.map (·.1)) before
    (insideEntries q es ++ rest ++ after) d (by rw [hlayout]; simp [Function.comp_def]) hsize)
  rintro ids d₁ ⟨hreserved, hsize₁, hkept₁, hembedded₁⟩
  rw [hids] at hreserved
  subst hreserved
  rw [List.length_map] at hsize₁
  apply Compiling.Ends.bind (P := fun _ d₂ => g.Fills q es d₁ d₂)
  · have hfills := hes (before ++ es.map fun e => .entry e.1 :: q) (rest ++ after) d₁ hlayout₁
      (by rw [hsize₁, hsize, List.length_append, List.length_map])
      fun e he => List.mem_append_right _ (List.mem_map_of_mem he)
    exact ⟨fun _ => hfills.1, hfills.2⟩
  · intro _ d₂ hfills
    have hlaid := hfills.laid hg hlayout₁ hsize hsize₁ hkept₁ hembedded₁
    have hsize₂ : d₂.rules.size =
        (before ++ (es.map (fun e => .entry e.1 :: q) ++ insideEntries q es)).length := by
      rw [hlaid.size, hsize]
      exact List.length_append.symm
    apply Compiling.Ends.imp (hk _ after d₂ hlayout₂ hsize₂)
    intro b d₃ ⟨hlaid', hb⟩
    refine ⟨hlaid.trans hlaid' fun q' hq' => ?_, hb⟩
    rw [hsize₂]
    exact place_lt (hlayout₂.trans (List.append_assoc ..)) (List.mem_append_right _ hq')

theorem fillsEntries_nil {x : Compiling Unit} (hx : x = Pure.pure ()) : g.FillsEntries q [] x := by
  subst hx
  intro before after d _ _ _
  constructor
  · intro d' heq
    cases heq
    exact ⟨rfl, fun _ _ _ => rfl, by simp [insideEntries], by simp, List.Subset.refl _,
      fun _ h => .inl h⟩
  · intro e heq
    cases heq

/-- What is inside an entry is laid, the entry is put at its place, and those behind it are filled.
-/
theorem Fills.cons (hg : g.Keyed) {name : String} {r : RawRule} {es : List (String × RawRule)}
    {before after : List Site} {rule : Rule} {d d₁ d' : Draft}
    (hr : g.rule? (.entry name :: q) = some r) (hname : name ∉ es.map (·.1))
    (hlayout : g.layout = before ++ r.layout (.entry name :: q) ++ after)
    (hsize : d.rules.size = before.length)
    (hbefore : ∀ e ∈ (name, r) :: es, .entry e.1 :: q ∈ before)
    (hlaid : g.Laid d (r.layout (.entry name :: q)) d₁)
    (hmeans : g.Means g.place (.entry name :: q) r rule) (hnoted : Noted d₁.embedded rule)
    (h : g.Fills q es
      { d₁ with rules := d₁.rules.setIfInBounds (g.place (.entry name :: q)) rule } d') :
    g.Fills q ((name, r) :: es) d d' := by
  have hplace : ∀ e ∈ (name, r) :: es, g.place (.entry e.1 :: q) < d.rules.size := by
    intro e he
    rw [hsize]
    exact place_lt (hlayout.trans (List.append_assoc ..)) (hbefore e he)
  have hself : g.place (.entry name :: q) < d.rules.size := hplace _ List.mem_cons_self
  have hsize₁ : (d₁.rules.setIfInBounds (g.place (.entry name :: q)) rule).size =
      d.rules.size + (r.layout (.entry name :: q)).length := by
    rw [Array.size_setIfInBounds, hlaid.size]
  refine ⟨?_, ?_, ?_, ?_, List.Subset.trans hlaid.embedded h.embedded, ?_⟩
  · have hinside : insideEntries q ((name, r) :: es) =
        r.layout (.entry name :: q) ++ insideEntries q es := rfl
    rw [h.size, hinside, List.length_append]
    simp only [hsize₁]
    omega
  · intro i hi hne
    rw [h.kept i (by simp only [hsize₁]; omega) fun e he => hne e (List.mem_cons_of_mem _ he)]
    rw [Array.getElem?_setIfInBounds_ne (hne _ List.mem_cons_self).symm, hlaid.kept i hi]
  · intro q' hq'
    rcases List.mem_append.1 hq' with hq' | hq'
    · -- what is inside comes after the entries, so nothing is put at its place afterwards
      have hge : d.rules.size ≤ g.place q' := by
        rw [hsize]
        exact place_ge hg (hlayout.trans (List.append_assoc ..)) (List.mem_append_left _ hq')
      have hlt : g.place q' < d.rules.size + (r.layout (.entry name :: q)).length := by
        rw [hsize, ← List.length_append]
        exact place_lt hlayout (List.mem_append_right before hq')
      have hne : ∀ e ∈ es, g.place q' ≠ g.place (.entry e.1 :: q) := by
        intro e he
        have := hplace e (List.mem_cons_of_mem _ he)
        omega
      refine (hlaid.filled q' hq').congr ?_ h.embedded
      rw [h.kept (g.place q') (by simp only [hsize₁]; exact hlt) hne]
      exact Array.getElem?_setIfInBounds_ne (by omega)
    · exact h.filled q' hq'
  · intro e he
    rcases List.mem_cons.1 he with rfl | he
    · refine ⟨r, rule, hr, ?_, hmeans, fun scope entry heq => h.embedded (hnoted scope entry heq)⟩
      rw [h.kept (g.place (.entry name :: q)) (by simp only [hsize₁]; omega) ?_]
      · exact Array.getElem?_setIfInBounds_self_of_lt (by rw [hlaid.size]; omega)
      · -- an entry that is put at this place afterwards would have this name
        intro e he heq
        have hsame := place_inj hg (by rw [hr]; rfl) heq
        refine hname (List.mem_map.2 ⟨e, he, ?_⟩)
        injection hsame with hpart
        injection hpart with hn
        exact hn.symm
    · exact h.entries e he
  · intro s hs
    exact (h.mentions s hs).elim (hlaid.mentions s) .inr

/-- An entry is compiled and put at its place, then those behind it. -/
theorem fillsEntries_cons (hg : g.Keyed) {name : String} {r : RawRule}
    {es : List (String × RawRule)} {build : Compiling Rule}
    {x : Compiling Unit} (hr : g.rule? (.entry name :: q) = some r) (hname : name ∉ es.map (·.1))
    (hbuild : g.Lays (r.layout (.entry name :: q)) build fun rule d =>
      g.Means g.place (.entry name :: q) r rule ∧ Noted d.embedded rule)
    (hx : g.FillsEntries q es x) :
    g.FillsEntries q ((name, r) :: es) (do
      let rule ← build
      Compiling.fill (g.place (.entry name :: q)) rule
      x) := by
  intro before after d hlayout hsize hbefore
  have hinside : insideEntries q ((name, r) :: es) =
      r.layout (.entry name :: q) ++ insideEntries q es := rfl
  rw [hinside] at hlayout
  have hlayout₁ : g.layout =
      before ++ r.layout (.entry name :: q) ++ (insideEntries q es ++ after) := by
    rw [hlayout]
    simp only [List.append_assoc]
  have hlayout₂ : g.layout =
      before ++ r.layout (.entry name :: q) ++ insideEntries q es ++ after := by
    rw [hlayout]
    simp only [List.append_assoc]
  have hends : Compiling.Ends (do
      let rule ← build
      Compiling.fill (g.place (.entry name :: q)) rule
      x) d (fun _ d' => g.Fills q ((name, r) :: es) d d') g.Blames := by
    apply Compiling.Ends.bind (hbuild before (insideEntries q es ++ after) d hlayout₁ hsize)
    intro rule d₁ ⟨hlaid, hmeans, hnoted⟩
    apply Compiling.Ends.bind Compiling.Ends.fill
    rintro _ _ rfl
    have hfills := hx (before ++ r.layout (.entry name :: q)) after
      { d₁ with rules := d₁.rules.setIfInBounds (g.place (.entry name :: q)) rule } hlayout₂
      (by rw [Array.size_setIfInBounds, hlaid.size, hsize, List.length_append])
      fun e he => List.mem_append_left _ (hbefore e (List.mem_cons_of_mem _ he))
    exact ⟨fun _ d' heq =>
      .cons hg hr hname hlayout₁ hsize hbefore hlaid hmeans hnoted (hfills.1 d' heq), hfills.2⟩
  exact ⟨hends.1 (), hends.2⟩

/-! ## Compilation -/

theorem live_cons {r : RawRule} {raws : List RawRule} (h : ¬r.disabled.getD false = true) :
    RawRule.live (r :: raws) = r :: RawRule.live raws := by
  simp [RawRule.live, h]

theorem live_cons_disabled {r : RawRule} {raws : List RawRule} (h : r.disabled.getD false = true) :
    RawRule.live (r :: raws) = RawRule.live raws := by
  simp [RawRule.live, h]

mutual

theorem buildRule_lays (hg : g.Keyed) {part : Part} {p : Site} {chain : Chain}
    (hsees : g.Sees p chain) :
    ∀ r : RawRule, g.rule? (part :: p) = some r →
      g.Lays (r.layout (part :: p)) (buildRule g.scopeName chain r) fun rule d =>
        g.Means g.place (part :: p) r rule ∧ Noted d.embedded rule
  | ⟨_, _, _, _, _, _, _, captures, beginCaptures, endCaptures, whileCaptures, patterns, repository,
      _, _⟩, hr => by
    -- the chain for the rules inside is that which the repository leads to
    unfold buildRule
    rw [RawRule.layout_eq]
    refine (compileRepository_lays hg hsees hr repository rfl).bind fun chain hsees => ?_
    refine buildBody_lays hg (List.cons_ne_nil _ _) hr hsees ?_
    exact ⟨compileCaptures?_lays hg hsees hr captures,
      compileCaptures?_lays hg hsees hr beginCaptures,
      compileCaptures?_lays hg hsees hr endCaptures,
      compileCaptures?_lays hg hsees hr whileCaptures,
      compilePatterns?_lays hg hsees patterns⟩

theorem compileRepository_lays (hg : g.Keyed) {part : Part} {p : Site} {chain : Chain}
    (hsees : g.Sees p chain) {r : RawRule} (hr : g.rule? (part :: p) = some r) :
    ∀ repository : Option (List (String × RawRule)), r.repository = repository →
      g.Lays (r.entryParts.map (fun e => e.1 :: part :: p) ++
          r.entryParts.flatMap fun e => e.2.layout (e.1 :: part :: p))
        (compileRepository g.scopeName chain repository) fun chain _ => g.Sees (part :: p) chain
  | some (e :: es), heq => by
    unfold compileRepository
    have hparts : r.entryParts = (e :: es).map fun e => (.entry e.1, e.2) := by
      rw [RawRule.entryParts, heq, Option.getD_some]
    have hkeys := (hg _ _ hr).repository
    rw [heq, Option.getD_some] at hkeys
    have hes : ∀ e' ∈ e :: es, g.rule? (.entry e'.1 :: part :: p) = some e'.2 := by
      intro e' he'
      rw [rule?_entry hr, heq, Option.getD_some, lookup_eq_some_iff_mem hkeys]
      exact he'
    have hentries := compileEntries_lays hg (hsees.push hr heq) (e :: es) hes hkeys
    rw [hparts, List.map_map, List.flatMap_map, ← List.append_nil (_ ++ _)]
    exact repository_lays hg (k := fun ids => (Pure.pure (ids :: chain) : Compiling Chain)) hentries
      (.pure fun _ => hsees.push hr heq)
  | some [], heq => by
    unfold compileRepository
    rw [RawRule.entryParts, heq]
    exact .pure fun _ => hsees.enter hr (by rw [heq, Option.getD_some])
  | none, heq => by
    unfold compileRepository
    rw [RawRule.entryParts, heq]
    exact .pure fun _ => hsees.enter hr (by rw [heq, Option.getD_none])

theorem compileCaptures?_lays (hg : g.Keyed) {p : Site} {chain : Chain} (hsees : g.Sees p chain)
    {r : RawRule} (hr : g.rule? p = some r) :
    ∀ captures : Option (List (Nat × RawRule)),
      g.CapturesLay p r captures (compileCaptures? g.scopeName chain captures)
  | some cs => by
    unfold compileCaptures?
    refine ⟨rfl, ?_⟩
    intro x hx part hwithin hfault
    cases hx
    exact compileCaptures_lays hr hfault (compileNumbered_lays hg hsees part cs hwithin)
  | none => by
    unfold compileCaptures?
    exact ⟨rfl, by simp⟩

theorem compilePatterns?_lays (hg : g.Keyed) {p : Site} {chain : Chain} (hsees : g.Sees p chain) :
    ∀ patterns : Option (List RawRule),
      g.Within p (RawRule.numberedParts .pattern 0 (RawRule.live (patterns.getD []))) →
      g.Lays (RawRule.spread p (RawRule.numberedParts .pattern 0 (RawRule.live (patterns.getD []))))
        (compilePatterns? g.scopeName chain patterns) fun ids _ =>
          ids = (RawRule.numberedParts .pattern 0 (RawRule.live (patterns.getD []))).map
            fun e => g.place (e.1 :: p)
  | some raws, hwithin => by
    unfold compilePatterns?
    exact compilePatterns_lays hg hsees 0 raws hwithin
  | none, _ => by
    unfold compilePatterns?
    exact .pure fun _ => rfl

theorem compileEntries_lays (hg : g.Keyed) {q : Site} {chain : Chain} (hsees : g.Sees q chain) :
    ∀ es : List (String × RawRule), (∀ e ∈ es, g.rule? (.entry e.1 :: q) = some e.2) →
      (es.map (·.1)).Nodup →
      g.FillsEntries q es (compileEntries g.scopeName chain es (g.entryPlaces q es))
  | [], _, _ => fillsEntries_nil (by unfold compileEntries; rfl)
  | (name, r) :: es, hes, hnodup => by
    unfold compileEntries
    obtain ⟨hname, hnodup⟩ := List.nodup_cons.1 hnodup
    have hr := hes _ List.mem_cons_self
    exact fillsEntries_cons hg hr hname (buildRule_lays hg hsees r hr)
      (compileEntries_lays hg hsees es (fun e he => hes e (List.mem_cons_of_mem _ he)) hnodup)

theorem compilePatterns_lays (hg : g.Keyed) {p : Site} {chain : Chain} (hsees : g.Sees p chain) :
    ∀ (n : Nat) (raws : List RawRule),
      g.Within p (RawRule.numberedParts .pattern n (RawRule.live raws)) →
      g.Lays (RawRule.spread p (RawRule.numberedParts .pattern n (RawRule.live raws)))
        (compilePatterns g.scopeName chain raws) fun ids _ =>
          ids = (RawRule.numberedParts .pattern n (RawRule.live raws)).map
            fun e => g.place (e.1 :: p)
  | n, [], _ => by
    unfold compilePatterns
    exact .pure fun _ => rfl
  | n, r :: raws, hwithin => by
    unfold compilePatterns
    split
    · rename_i hdisabled
      rw [live_cons_disabled hdisabled] at hwithin ⊢
      exact compilePatterns_lays hg hsees n raws hwithin
    · rename_i henabled
      rw [live_cons henabled] at hwithin ⊢
      have hr := hwithin.head
      refine (Lays.place hg hr (buildRule_lays hg hsees r hr)).bind fun id hid => ?_
      refine (compilePatterns_lays hg hsees (n + 1) raws hwithin.tail).map fun ids _ hids => ?_
      rw [hid, hids]
      rfl

theorem compileNumbered_lays (hg : g.Keyed) {p : Site} {chain : Chain} (hsees : g.Sees p chain)
    (part : Nat → Part) :
    ∀ cs : List (Nat × RawRule), g.Within p (RawRule.captureParts part (some cs)) →
      g.Lays (RawRule.spread p (RawRule.captureParts part (some cs)))
        (compileNumbered g.scopeName chain cs) fun ids _ =>
          ids = cs.map fun c => (c.1, g.place (part c.1 :: p))
  | [], _ => by
    unfold compileNumbered
    exact .pure fun _ => rfl
  | (n, r) :: cs, hwithin => by
    unfold compileNumbered
    have hr := hwithin.head
    refine (Lays.place hg hr (buildRule_lays hg hsees r hr)).bind fun id hid => ?_
    refine (compileNumbered_lays hg hsees part cs hwithin.tail).map fun ids _ hids => ?_
    rw [hid, hids]
    rfl

end

theorem compileInjections_lays (hg : g.Keyed) {chain : Chain} (hsees : g.Sees [] chain) :
    ∀ (n : Nat) (injections : List (String × RawRule)),
      g.Within [] (RawRule.numberedParts .injection n (injections.map (·.2))) →
      g.Lays (RawRule.spread [] (RawRule.numberedParts .injection n (injections.map (·.2))))
        (compileInjections g.scopeName chain injections) fun ids _ =>
          ids = injections.mapIdx fun i e => (Selector.parse e.1, g.place [.injection (n + i)])
  | _, [], _ => .pure fun _ => rfl
  | n, (selector, r) :: rest, hwithin => by
    unfold compileInjections
    have hr := hwithin.head
    refine (Lays.place hg hr (buildRule_lays hg hsees r hr)).bind fun id hid => ?_
    refine (compileInjections_lays hg hsees (n + 1) rest hwithin.tail).map fun ids _ hids => ?_
    rw [hid, hids, List.mapIdx_cons]
    simp only [Nat.add_zero, Nat.add_assoc, Nat.add_comm 1]

end RawGrammar

namespace Compiling

variable {α β γ : Type}

theorem bind_assoc (x : Compiling α) (f : α → Compiling β) (k : β → Compiling γ) :
    x >>= f >>= k = x >>= fun a => f a >>= k := by
  funext d
  change Compiling.bind (Compiling.bind x f) k d =
    Compiling.bind x (fun a => Compiling.bind (f a) k) d
  unfold Compiling.bind
  cases x d with
  | ok p => rfl
  | error e => rfl

end Compiling

/-- The group of a grammar's patterns. -/
def buildRoot (own : ScopeName) (chain : Chain) (patterns : List RawRule) : Compiling Rule := do
  let ids ← compilePatterns own chain patterns
  return .group ⟨none, none, ids⟩

theorem compileAll_eq (g : RawGrammar) : compileAll g = (do
    let ids ← Compiling.reserveAll (g.repository.map (·.1))
    compileEntries g.scopeName [ids] g.repository ids
    let root ← Compiling.place (buildRoot g.scopeName [ids] g.patterns)
    let injections ← compileInjections g.scopeName [ids] g.injections
    return (ids, root, injections)) := by
  unfold compileAll Compiling.place buildRoot
  simp only [Compiling.bind_assoc]
  rfl

namespace RawGrammar

variable {g : RawGrammar}

theorem compileAll_lays (hg : g.Keyed) : g.Lays g.layout (compileAll g) fun a _ =>
    a = (g.entryPlaces [] g.repository, g.place [],
      g.injections.mapIdx fun i e => (Selector.parse e.1, g.place [.injection i])) := by
  have hsees : g.Sees [] [g.entryPlaces [] g.repository] := .root
  have hrule : ∀ e ∈ g.partsAt [], g.rule? [e.1] = some e.2 := fun e he => (mem_partsAt hg).1 he
  have hbody : g.Within [] g.rootRule.bodyParts := fun e he =>
    hrule e (List.mem_append_left _ (List.mem_append_right _ he))
  have hinjections : g.Within [] g.injectionParts :=
    fun e he => hrule e (List.mem_append_right _ he)
  have hkeys : (g.repository.map (·.1)).Nodup := (hg [] _ rfl).repository
  have hes : ∀ e ∈ g.repository, g.rule? [.entry e.1] = some e.2 := by
    intro e he
    rw [rule?_entry (p := []) rfl]
    exact (lookup_eq_some_iff_mem hkeys).2 he
  have hlive : RawRule.live g.patterns = g.rootRule.innerPatterns := rfl
  have hparts :
      g.rootRule.bodyParts = RawRule.numberedParts .pattern 0 (RawRule.live g.patterns) := by
    simp [RawRule.bodyParts, RawRule.openingCaptures, RawRule.closingCaptures, rootRule,
      RawRule.captureParts, RawRule.innerPatterns]
  rw [hparts] at hbody
  have hroot : g.Lays (RawRule.spread [] g.rootRule.bodyParts)
      (buildRoot g.scopeName [g.entryPlaces [] g.repository] g.patterns) fun rule d =>
        g.Means g.place [] g.rootRule rule ∧ Noted d.embedded rule := by
    rw [hparts]
    refine (compilePatterns_lays hg hsees 0 g.patterns hbody).map fun ids d hids => ?_
    rw [hids, hlive, map_place_numberedParts]
    exact ⟨.group rfl rfl rfl rfl rfl, noted_of_ne (by simp)⟩
  rw [compileAll_eq]
  have hsites : g.repository.map (fun e => [Part.entry e.1]) ++ insideEntries [] g.repository ++
      (([] :: RawRule.spread [] g.rootRule.bodyParts) ++ RawRule.spread [] g.injectionParts) =
        g.layout := by
    have hentries : g.rootRule.entryParts = g.repository.map fun e => (.entry e.1, e.2) := rfl
    rw [layout, insideEntries, hentries, List.map_map, List.flatMap_map, List.cons_append]
    rfl
  rw [← hsites]
  refine repository_lays (k := fun ids => do
    let root ← Compiling.place (buildRoot g.scopeName [ids] g.patterns)
    let injections ← compileInjections g.scopeName [ids] g.injections
    return (ids, root, injections)) hg (compileEntries_lays hg hsees g.repository hes hkeys) ?_
  refine (Lays.place hg rfl hroot).bind fun root hroot => ?_
  refine (compileInjections_lays hg hsees 0 g.injections hinjections).map fun ids _ hids => ?_
  rw [hroot, hids]
  simp only [Nat.zero_add]

/-! ## Compiled grammars -/

/-- The scopes that have been noted are those of other grammars that rules refer to. -/
theorem mem_embedded_iff {d : Draft} (hlaid : g.Laid ⟨#[], []⟩ g.layout d) (hg : g.Keyed)
    (scope : ScopeName) : scope ∈ d.embedded ↔ g.Mentions scope := by
  constructor
  · intro h
    exact (hlaid.mentions scope h).resolve_left List.not_mem_nil
  · rintro ⟨hne, q, r, reference, entry, hr, hi, hs⟩
    obtain ⟨r', rule, hr', _, hmeans, hnoted⟩ :=
      hlaid.filled q ((mem_layout_iff hg).2 (by rw [hr]; rfl))
    cases hr.symm.trans hr'
    cases hmeans with
    | @inclusion reference' target hi' ht =>
      cases hi.symm.trans hi'
      have htarget : target = .grammar scope entry := by
        rw [refers_iff, target?_spells hs, spelled?, if_neg hne] at ht
        exact (Option.some.inj ht).symm
      exact hnoted scope entry (by rw [htarget])
    | matching hi' => cases hi.symm.trans hi'
    | beginWhile hi' => cases hi.symm.trans hi'
    | beginEnd hi' => cases hi.symm.trans hi'
    | group hi' => cases hi.symm.trans hi'

end RawGrammar

/-- The compiled grammar is what the grammar as written says, where sites have places in its
table. -/
structure CompiledGrammar.Renders (d : CompiledGrammar) (g : RawGrammar) (place : Site → Nat) :
    Prop where
  /-- At the place of a site is what the rule written there means. -/
  rule : ∀ p r, g.rule? p = some r → ∃ rule, d.rule? (place p) = some rule ∧ g.Means place p r rule
  injective : ∀ p q, (g.rule? p).isSome → (g.rule? q).isSome → place p = place q → p = q
  /-- The table has no other places. -/
  onto : ∀ id < d.rules.size, ∃ p, (g.rule? p).isSome ∧ place p = id
  root : d.root = place []
  repository : d.repository = g.repository.map fun e => (e.1, place [.entry e.1])
  injections :
    d.injections = g.injections.mapIdx fun i e => (Selector.parse e.1, place [.injection i])
  embedded : ∀ scope, scope ∈ d.embedded ↔ g.Mentions scope
  header : d.scopeName = g.scopeName ∧ d.name = g.name ∧ d.fileTypes = g.fileTypes ∧
    d.firstLineMatch = g.firstLineMatch ∧
    d.injectionSelector = g.injectionSelector.map Selector.parse ∧ d.injectTo = g.injectTo

namespace RawGrammar

theorem compile_laid (hg : g.Keyed) {d : CompiledGrammar}
    (h : CompiledGrammar.compile g = .ok d) : g.Laid ⟨#[], []⟩ g.layout ⟨d.rules, d.embedded⟩ ∧
      d.root = g.place [] ∧ d.repository = (g.repository.map fun e => (e.1, g.place [.entry e.1])) ∧
      d.injections =
        g.injections.mapIdx fun i e => (Selector.parse e.1, g.place [.injection i]) := by
  unfold CompiledGrammar.compile at h
  split at h
  · cases h
  · rename_i ids root injections draft hall
    cases h
    have hlays := compileAll_lays hg [] [] ⟨#[], []⟩ (by simp) rfl
    obtain ⟨hlaid, hvalue⟩ := hlays.1 _ _ hall
    cases hvalue
    exact ⟨hlaid, rfl, rfl, rfl⟩

theorem compile_header {d : CompiledGrammar} (h : CompiledGrammar.compile g = .ok d) :
    d.scopeName = g.scopeName ∧ d.name = g.name ∧ d.fileTypes = g.fileTypes ∧
      d.firstLineMatch = g.firstLineMatch ∧
      d.injectionSelector = g.injectionSelector.map Selector.parse ∧ d.injectTo = g.injectTo := by
  unfold CompiledGrammar.compile at h
  split at h
  · cases h
  · cases h
    exact ⟨rfl, rfl, rfl, rfl, rfl, rfl⟩

/-- A compiled grammar has as many rules as sites with a rule. -/
theorem compile_size (hg : g.Keyed) {d : CompiledGrammar}
    (h : CompiledGrammar.compile g = .ok d) : d.rules.size = g.layout.length :=
  (compile_laid hg h).1.size.trans (Nat.zero_add _)

theorem compile_renders (hg : g.Keyed) {d : CompiledGrammar}
    (h : CompiledGrammar.compile g = .ok d) : d.Renders g g.place := by
  obtain ⟨hlaid, hroot, hrepository, hinjections⟩ := compile_laid hg h
  refine ⟨?_, ?_, ?_, hroot, hrepository, hinjections, mem_embedded_iff hlaid hg,
    compile_header h⟩
  · intro p r hr
    have hp : p ∈ g.layout := (mem_layout_iff hg).2 (by rw [hr]; rfl)
    obtain ⟨r', rule, hr', hrule, hmeans, _⟩ := hlaid.filled p hp
    cases hr.symm.trans hr'
    exact ⟨rule, hrule, hmeans⟩
  · intro p q hp _ heq
    exact place_inj hg hp heq
  · intro id hid
    rw [compile_size hg h] at hid
    have hsite := (mem_layout_iff hg).1 (List.getElem_mem hid)
    exact ⟨g.layout[id], hsite, (nodup_layout_root hg).idxOf_getElem id hid⟩

theorem compile_blames (hg : g.Keyed) {e : GrammarError}
    (h : CompiledGrammar.compile g = .error e) : g.Blames e := by
  unfold CompiledGrammar.compile at h
  split at h
  · rename_i e' hall
    cases h
    have hlays := compileAll_lays hg [] [] ⟨#[], []⟩ (by simp) rfl
    exact hlays.2 e hall
  · cases h

/-- A grammar compiles if and only if nothing is wrong with its rules. -/
theorem exists_compile_eq_ok_iff (hg : g.Keyed) :
    (∃ d, CompiledGrammar.compile g = .ok d) ↔ ∀ e, ¬g.Blames e := by
  constructor
  · rintro ⟨d, hd⟩ e ⟨q, r, hr, hfault⟩
    obtain ⟨rule, _, hmeans⟩ := (compile_renders hg hd).rule q r hr
    exact hfault.not_means hmeans
  · intro h
    cases hc : CompiledGrammar.compile g with
    | ok d => exact ⟨d, rfl⟩
    | error e => exact absurd (compile_blames hg hc) (h e)

/-- A compiled grammar refers to its own rules only and renders the grammar as written: each rule
has a place, where the rule of the kind that its keys decide stands with the places of its patterns
and captures, and a name leads to the entry of the innermost repository that has one. Compilation
fails for a name only where no repository around the rule has an entry with it. -/
theorem compile_faithful (hg : g.Keyed) :
    (∀ d, CompiledGrammar.compile g = .ok d → d.Closed ∧ ∃ place, d.Renders g place) ∧
      ∀ own name, CompiledGrammar.compile g = .error (.unresolved own ("#" ++ name)) →
        own = g.scopeName ∧ ∃ p r, g.rule? p = some r ∧ r.inclusion = some ("#" ++ name) ∧
          g.resolve? p name = none := by
  constructor
  · intro d hd
    exact ⟨compile_closed hd, g.place, compile_renders hg hd⟩
  · intro own name herror
    obtain ⟨p, r, hr, hfault⟩ := compile_blames hg herror
    generalize href : "#" ++ name = reference at hfault
    cases hfault with
    | @noEntry name' hi hnone =>
      have hname : name = name' := by
        have hsplit := splitReference_entry name'
        rw [← href, splitReference_entry] at hsplit
        simpa using hsplit
      subst hname
      exact ⟨rfl, p, r, hr, hi, hnone⟩
    | nothing hi =>
      have := congrArg String.toList href
      simp [String.toList_append] at this
    | noOwnEntry hi hs _ =>
      rw [← href] at hs
      have hsplit := (splitReference_entry name).symm.trans hs.split
      exact absurd (congrArg Prod.fst hsplit).symm hs.scope_ne

/-! A grammar in which a repository inside hides an entry of the grammar's own. -/

/-- Letters, and letters in parentheses, which are other ones. -/
def hiddenEntryValue : Value := .dict [
  (.text "scopeName", .text "source.letters"),
  (.text "repository", .dict [
    (.text "letter", .dict [(.text "match", .text "x"), (.text "name", .text "outer")]),
    (.text "letters", .dict [(.text "include", .text "#letter")])]),
  (.text "patterns", .list [
    .dict [(.text "include", .text "#letters")],
    .dict [
      (.text "begin", .text "\\("),
      (.text "end", .text "\\)"),
      (.text "captures", .dict [(.text "0", .dict [(.text "name", .text "parenthesis")])]),
      (.text "repository", .dict [
        (.text "letter", .dict [(.text "match", .text "y"), (.text "name", .text "inner")])]),
      (.text "patterns", .list [
        .dict [(.text "include", .text "#letter")],
        .dict [(.text "include", .text "#letters")]])]])]

theorem hiddenEntryValue_read : (read? ⟨8, false⟩ hiddenEntryValue).isSome := by decide +kernel

/-- The grammar of letters. -/
def hiddenEntry : RawGrammar := (read? ⟨8, false⟩ hiddenEntryValue).get hiddenEntryValue_read

theorem hiddenEntry_compiles : (CompiledGrammar.compile hiddenEntry).toOption.isSome := by
  decide +kernel

/-- A name that no repository has. -/
def strayNameValue : Value := .dict [
  (.text "scopeName", .text "source.stray"),
  (.text "patterns", .list [.dict [(.text "include", .text "#digit")]])]

theorem strayNameValue_read : (read? ⟨8, false⟩ strayNameValue).isSome := by decide +kernel

/-- The grammar with the name. -/
def strayName : RawGrammar := (read? ⟨8, false⟩ strayNameValue).get strayNameValue_read

theorem strayName_fails : CompiledGrammar.compile strayName =
    .error (.unresolved "source.stray" "#digit") := by
  rfl

/-- Inside the parentheses the entry there is meant, in an entry of the grammar its own. -/
theorem compile_faithful_hiddenEntry :
    (hiddenEntry.Keyed ∧ strayName.Keyed) ∧
    (hiddenEntry.resolve? [.pattern 0, .pattern 1] "letter" = some [.entry "letter", .pattern 1] ∧
      hiddenEntry.resolve? [.entry "letters"] "letter" = some [.entry "letter"] ∧
      ∃ d place, CompiledGrammar.compile hiddenEntry = .ok d ∧ d.Closed ∧
        d.Renders hiddenEntry place) ∧
    CompiledGrammar.compile strayName = .error (.unresolved "source.stray" "#digit") ∧
      ∃ p r, strayName.rule? p = some r ∧ r.inclusion = some "#digit" ∧
        strayName.resolve? p "digit" = none := by
  have hkeyed : hiddenEntry.Keyed := keyed_of_read? (Option.some_get hiddenEntryValue_read).symm
  have hkeyed' : strayName.Keyed := keyed_of_read? (Option.some_get strayNameValue_read).symm
  refine ⟨⟨hkeyed, hkeyed'⟩, ⟨by decide +kernel, by decide +kernel, ?_⟩, ?_⟩
  · cases hd : CompiledGrammar.compile hiddenEntry with
    | ok d =>
      obtain ⟨hclosed, place, hrenders⟩ := (compile_faithful hkeyed).1 d hd
      exact ⟨d, place, rfl, hclosed, hrenders⟩
    | error e =>
      have hcompiles := hiddenEntry_compiles
      rw [hd] at hcompiles
      cases hcompiles
  · have herror : CompiledGrammar.compile strayName =
        .error (.unresolved "source.stray" ("#" ++ "digit")) := strayName_fails
    exact ⟨herror, ((compile_faithful hkeyed').2 _ "digit" herror).2⟩

end RawGrammar

end Highlight
