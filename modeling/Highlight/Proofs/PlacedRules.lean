import Highlight.Proofs.RuleTable
import Highlight.Proofs.TableLayout

/-!
# Placing rules

What the parts of compilation do to the table is said by the sites whose places they take and fill.
`RawGrammar.Lays` is that contract: from a table in which the places of some sites come next, a part
of compilation leaves one where each of these places holds what its site means (`Laid`), or it fails
because something is wrong with a rule of the grammar (`Blames`). Parts follow each other as their
sites do (`Lays.bind`), and a rule takes the place before those inside it (`Lays.place`).

Names are looked up in a chain of repositories, which at each site gives them the places of what
they stand for there (`Sees`). From this the contracts of references, captures and the bodies of
rules follow.
-/

namespace Highlight

theorem Compiling.bind_eq_error {α β : Type} {x : Compiling α} {f : α → Compiling β} {d : Draft}
    {e : GrammarError} : (x >>= f) d = .error e ↔
      x d = .error e ∨ ∃ a d', x d = .ok (a, d') ∧ f a d' = .error e := by
  change Compiling.bind x f d = .error e ↔ _
  unfold Compiling.bind
  cases hx : x d with
  | ok p =>
    obtain ⟨a, d'⟩ := p
    constructor
    · intro h
      exact .inr ⟨a, d', rfl, h⟩
    · rintro (h | ⟨_, _, heq, h⟩)
      · cases h
      · cases heq
        exact h
  | error e => simp

namespace Compiling

variable {α β : Type} {d : Draft} {P : α → Draft → Prop} {Q : β → Draft → Prop}
  {E : GrammarError → Prop}

/-- From a table a part of compilation ends with one property, or fails with another. -/
def Ends (x : Compiling α) (d : Draft) (P : α → Draft → Prop) (E : GrammarError → Prop) : Prop :=
  (∀ a d', x d = .ok (a, d') → P a d') ∧ ∀ e, x d = .error e → E e

namespace Ends

theorem imp {P' : α → Draft → Prop} {x : Compiling α} (h : Ends x d P E)
    (himp : ∀ a d', P a d' → P' a d') : Ends x d P' E :=
  ⟨fun a d' heq => himp a d' (h.1 a d' heq), h.2⟩

theorem pure {a : α} (h : P a d) : Ends (Pure.pure a) d P E := by
  constructor
  · intro a' d' heq
    cases heq
    exact h
  · intro e heq
    cases heq

theorem bind {x : Compiling α} {f : α → Compiling β} (hx : Ends x d P E)
    (hf : ∀ a d', P a d' → Ends (f a) d' Q E) : Ends (x >>= f) d Q E := by
  constructor
  · intro b d'' heq
    obtain ⟨a, d', hxd, heq⟩ := bind_eq_ok.1 heq
    exact (hf a d' (hx.1 a d' hxd)).1 b d'' heq
  · intro e heq
    rcases bind_eq_error.1 heq with heq | ⟨a, d', hxd, heq⟩
    · exact hx.2 e heq
    · exact (hf a d' (hx.1 a d' hxd)).2 e heq

theorem reserve : Ends Compiling.reserve d (fun id d' =>
    id = d.rules.size ∧ d' = { d with rules := d.rules.push .placeholder }) E := by
  constructor
  · intro id d' heq
    cases heq
    exact ⟨rfl, rfl⟩
  · intro e heq
    cases heq

theorem fill {id : RuleId} {rule : Rule} : Ends (Compiling.fill id rule) d (fun _ d' =>
    d' = { d with rules := d.rules.setIfInBounds id rule }) E := by
  constructor
  · intro _ d' heq
    cases heq
    rfl
  · intro e heq
    cases heq

end Ends

end Compiling

namespace RawGrammar

variable (g : RawGrammar)

/-- A rule that refers to another grammar has its scope noted. -/
def Noted (embedded : List ScopeName) (rule : Rule) : Prop :=
  ∀ scope entry, rule = .inclusion (.grammar scope entry) → scope ∈ embedded

/-- The place of a site holds what is written there. -/
def Filled (d : Draft) (q : Site) : Prop :=
  ∃ r rule, g.rule? q = some r ∧ d.rules[g.place q]? = some rule ∧ g.Means g.place q r rule ∧
    Noted d.embedded rule

/-- A rule of the grammar refers to another grammar, which has the scope. -/
def Mentions (scope : ScopeName) : Prop :=
  scope ≠ g.scopeName ∧ ∃ q r reference entry, g.rule? q = some r ∧ r.inclusion = some reference ∧
    Spells reference scope entry

/-- Something is wrong with a rule of the grammar. -/
def Blames (e : GrammarError) : Prop := ∃ q r, g.rule? q = some r ∧ g.Fault q r e

/-- What a part of compilation does to the table: it takes the places of the sites and fills them.
-/
structure Laid (d : Draft) (sites : List Site) (d' : Draft) : Prop where
  size : d'.rules.size = d.rules.size + sites.length
  kept : ∀ i < d.rules.size, d'.rules[i]? = d.rules[i]?
  filled : ∀ q ∈ sites, g.Filled d' q
  embedded : d.embedded ⊆ d'.embedded
  mentions : ∀ s ∈ d'.embedded, s ∈ d.embedded ∨ g.Mentions s

/-- From a table that the sites come next in, a part of compilation takes and fills their places, or
something is wrong with a rule of the grammar. -/
def Lays {α : Type} (sites : List Site) (x : Compiling α) (P : α → Draft → Prop) : Prop :=
  ∀ before after d, g.layout = before ++ sites ++ after → d.rules.size = before.length →
    (∀ a d', x d = .ok (a, d') → g.Laid d sites d' ∧ P a d') ∧ ∀ e, x d = .error e → g.Blames e

variable {g} {α β : Type} {sites sites' : List Site} {d d' d'' : Draft} {q : Site}

theorem Filled.congr (h : g.Filled d q) (hkept : d'.rules[g.place q]? = d.rules[g.place q]?)
    (hembedded : d.embedded ⊆ d'.embedded) : g.Filled d' q := by
  obtain ⟨r, rule, hr, hrule, hmeans, hnoted⟩ := h
  exact ⟨r, rule, hr, hkept.trans hrule, hmeans,
    fun scope entry heq => hembedded (hnoted scope entry heq)⟩

theorem Laid.refl (d : Draft) : g.Laid d [] d where
  size := rfl
  kept _ _ := rfl
  filled := by simp
  embedded := List.Subset.refl _
  mentions _ h := .inl h

theorem Laid.trans (h : g.Laid d sites d') (h' : g.Laid d' sites' d'')
    (hlt : ∀ q ∈ sites, g.place q < d'.rules.size) : g.Laid d (sites ++ sites') d'' where
  size := by rw [h'.size, h.size, List.length_append, Nat.add_assoc]
  kept i hi := by
    have := h.size
    exact (h'.kept i (by omega)).trans (h.kept i hi)
  filled q hq := by
    rcases List.mem_append.1 hq with hq | hq
    · exact (h.filled q hq).congr (h'.kept _ (hlt q hq)) h'.embedded
    · exact h'.filled q hq
  embedded := List.Subset.trans h.embedded h'.embedded
  mentions s hs := (h'.mentions s hs).elim (h.mentions s) .inr

/-- A site takes the next place, those behind it are laid, and its rule is put there. -/
theorem Laid.fill (hg : g.Keyed) {r : RawRule} {rule : Rule} (hr : g.rule? q = some r)
    (hq : q ∉ sites) (hplace : g.place q = d.rules.size)
    (h : g.Laid { d with rules := d.rules.push .placeholder } sites d')
    (hmeans : g.Means g.place q r rule) (hnoted : Noted d'.embedded rule) :
    g.Laid d (q :: sites) { d' with rules := d'.rules.setIfInBounds (g.place q) rule } := by
  have hsize : d'.rules.size = d.rules.size + 1 + sites.length := by
    rw [h.size, Array.size_push]
  refine ⟨?_, ?_, ?_, h.embedded, h.mentions⟩
  · simp only [Array.size_setIfInBounds, List.length_cons]
    omega
  · intro i hi
    have hkept := h.kept i (by simp only [Array.size_push]; omega)
    rw [Array.getElem?_setIfInBounds_ne (by omega), hkept, Array.getElem?_push_lt hi,
      Array.getElem?_eq_getElem hi]
  · intro q' hq'
    rcases List.mem_cons.1 hq' with rfl | hq'
    · refine ⟨r, rule, hr, ?_, hmeans, hnoted⟩
      exact Array.getElem?_setIfInBounds_self_of_lt (by omega)
    · -- the place of a site inside is another one
      refine (h.filled q' hq').congr (Array.getElem?_setIfInBounds_ne ?_) (List.Subset.refl _)
      intro heq
      have hsame := place_inj hg (by rw [hr]; rfl) heq
      exact hq (hsame ▸ hq')

namespace Lays

variable {P : α → Draft → Prop} {Q : β → Draft → Prop}

theorem pure {a : α} (h : ∀ d, P a d) : g.Lays [] (Pure.pure a) P := by
  intro before after d _ _
  constructor
  · intro a' d' heq
    cases heq
    exact ⟨.refl d, h d⟩
  · intro e heq
    cases heq

theorem fail {e : GrammarError} (h : g.Blames e) : g.Lays sites (Compiling.fail e) P := by
  intro before after d _ _
  constructor
  · intro a d' heq
    cases heq
  · intro e' heq
    cases heq
    exact h

theorem lift {x : Except PatternError α} (h : ∀ e, x = .error e → g.Blames (.badPattern e)) :
    g.Lays [] (Compiling.lift x) fun a _ => x = .ok a := by
  intro before after d _ _
  cases x with
  | ok a =>
    constructor
    · intro a' d' heq
      cases heq
      exact ⟨.refl d, rfl⟩
    · intro e heq
      cases heq
  | error e =>
    constructor
    · intro a' d' heq
      cases heq
    · intro e' heq
      cases heq
      exact h e rfl

theorem bind {φ : α → Prop} {x : Compiling α} {f : α → Compiling β}
    (hx : g.Lays sites x fun a _ => φ a) (hf : ∀ a, φ a → g.Lays sites' (f a) Q) :
    g.Lays (sites ++ sites') (x >>= f) Q := by
  intro before after d hlayout hsize
  have hlayout₁ : g.layout = before ++ sites ++ (sites' ++ after) := by
    rw [hlayout]
    simp only [List.append_assoc]
  have hlayout₂ : g.layout = before ++ sites ++ sites' ++ after := by
    rw [hlayout]
    simp only [List.append_assoc]
  apply Compiling.Ends.bind (hx before (sites' ++ after) d hlayout₁ hsize)
  intro a d' ⟨hlaid, ha⟩
  have hsize' : d'.rules.size = (before ++ sites).length := by
    rw [hlaid.size, hsize, List.length_append]
  apply Compiling.Ends.imp (hf a ha (before ++ sites) after d' hlayout₂ hsize')
  intro b d'' ⟨hlaid', hb⟩
  refine ⟨hlaid.trans hlaid' fun q hq => ?_, hb⟩
  rw [hsize']
  exact place_lt hlayout₁ (List.mem_append_right _ hq)

theorem map {x : Compiling α} {f : α → β} (hx : g.Lays sites x P) (h : ∀ a d, P a d → Q (f a) d) :
    g.Lays sites (do let a ← x; return f a) Q := by
  intro before after d hlayout hsize
  apply Compiling.Ends.bind (hx before after d hlayout hsize)
  intro a d' ⟨hlaid, ha⟩
  exact Compiling.Ends.pure ⟨hlaid, h a d' ha⟩

theorem embed {scope : ScopeName} (h : g.Mentions scope) :
    g.Lays [] (Compiling.embed scope) fun _ d => scope ∈ d.embedded := by
  intro before after d _ _
  constructor
  · intro _ d' heq
    cases heq
    split
    · rename_i hmem
      exact ⟨.refl d, List.contains_iff_mem.1 hmem⟩
    · refine ⟨⟨rfl, fun _ _ => rfl, by simp, List.subset_append_left _ _, ?_⟩,
        List.mem_append_right _ (List.mem_singleton.2 rfl)⟩
      intro s hs
      rcases List.mem_append.1 hs with hs | hs
      · exact .inl hs
      · rw [List.mem_singleton.1 hs]
        exact .inr h
  · intro e heq
    cases heq

/-- A rule is compiled at the next place and put there. -/
theorem place (hg : g.Keyed) {r : RawRule} {build : Compiling Rule} (hr : g.rule? q = some r)
    (h : g.Lays sites build fun rule d => g.Means g.place q r rule ∧ Noted d.embedded rule) :
    g.Lays (q :: sites) (Compiling.place build) fun id _ => id = g.place q := by
  intro before after d hlayout hsize
  have hplace : g.place q = d.rules.size := by
    rw [hsize]
    exact place_eq_length hg (by rw [hlayout, List.append_assoc, List.cons_append])
  have hlayout' : g.layout = before ++ [q] ++ sites ++ after := by
    rw [hlayout]
    simp only [List.append_assoc, List.cons_append, List.nil_append]
  have hq : q ∉ sites := by
    intro hmem
    have hnodup := nodup_layout_root hg
    rw [hlayout] at hnodup
    simp [List.nodup_append, hmem] at hnodup
  unfold Compiling.place
  apply Compiling.Ends.bind Compiling.Ends.reserve
  rintro _ d₀ ⟨rfl, rfl⟩
  apply Compiling.Ends.bind (h (before ++ [q]) after _ hlayout' (by simp [hsize]))
  intro rule d₁ ⟨hlaid, hmeans, hnoted⟩
  apply Compiling.Ends.bind Compiling.Ends.fill
  rintro _ _ rfl
  rw [← hplace]
  exact Compiling.Ends.pure ⟨hlaid.fill hg hr hq hplace hmeans hnoted, rfl⟩

end Lays

/-! ## Names -/

/-- The places of entries of the repository of the rule at a site. -/
def entryPlaces (g : RawGrammar) (p : Site) (es : List (String × RawRule)) : Repository :=
  es.map fun e => (e.1, g.place (.entry e.1 :: p))

/-- The chain gives the names that can be used at a site the places of what they stand for. -/
structure Sees (g : RawGrammar) (p : Site) (chain : Chain) : Prop where
  lookup : ∀ name, chain.lookup name = (g.resolve? p name).map g.place
  top : chain.getLast? = some (g.entryPlaces [] g.repository)

variable {p : Site} {chain : Chain}

theorem lookup_entryPlaces (es : List (String × RawRule)) (name : String) :
    (g.entryPlaces p es).lookup name = (es.lookup name).map fun _ => g.place (.entry name :: p) :=
  lookup_map_key (fun name => g.place (.entry name :: p)) name es

theorem Sees.outermost (h : g.Sees p chain) (name : String) : chain.outermost name =
    if (g.rule? [.entry name]).isSome then some (g.place [.entry name]) else none := by
  rw [Chain.outermost, h.top, Option.bind_some, lookup_entryPlaces]
  have hrule : g.rule? [.entry name] = g.repository.lookup name := rfl
  rw [hrule]
  cases g.repository.lookup name with
  | none => rfl
  | some r => rfl

theorem rule?_entry {r : RawRule} (hr : g.rule? p = some r) (name : String) :
    g.rule? (.entry name :: p) = (r.repository.getD []).lookup name := by
  cases p with
  | nil =>
    cases hr
    rfl
  | cons part p =>
    rw [rule?_cons, hr]
    rfl

/-- Inside a rule with a repository, its entries come before what is seen around the rule. -/
theorem Sees.push {part : Part} {r : RawRule} (h : g.Sees p chain)
    (hr : g.rule? (part :: p) = some r) {es : List (String × RawRule)}
    (hes : r.repository = some es) :
    g.Sees (part :: p) (g.entryPlaces (part :: p) es :: chain) where
  lookup name := by
    have hentry := rule?_entry hr name
    rw [hes, Option.getD_some] at hentry
    rw [Chain.lookup, List.findSome?_cons, lookup_entryPlaces, resolve?, hentry]
    cases es.lookup name with
    | none => exact h.lookup name
    | some r' => rfl
  top := by
    rw [List.getLast?_cons, h.top, Option.getD_some]

/-- Inside a rule without a repository, names stand for what they do around it. -/
theorem Sees.enter {part : Part} {r : RawRule} (h : g.Sees p chain)
    (hr : g.rule? (part :: p) = some r) (hes : r.repository.getD [] = []) :
    g.Sees (part :: p) chain where
  lookup name := by
    have hentry := rule?_entry hr name
    rw [hes, List.lookup_nil] at hentry
    rw [resolve?, hentry]
    exact h.lookup name
  top := h.top

theorem Sees.root : g.Sees [] [g.entryPlaces [] g.repository] where
  lookup name := by
    have hentry : g.rule? [.entry name] = g.repository.lookup name := rfl
    rw [Chain.lookup, List.findSome?_cons, lookup_entryPlaces, resolve?, hentry]
    cases g.repository.lookup name with
    | none => rfl
    | some r => rfl
  top := rfl

theorem localTarget_lays {reference : String} {id? : Option RuleId} {r : RawRule}
    (hr : g.rule? p = some r) (hi : r.inclusion = some reference)
    (h : g.target? g.place p reference = id?.map .rule) :
    g.Lays [] (localTarget g.scopeName reference id?) fun target d =>
      g.Refers g.place p reference target ∧ Noted d.embedded (.inclusion target) := by
  cases id? with
  | none => exact .fail ⟨p, r, hr, fault_of_target?_eq_none hi h⟩
  | some id =>
    refine .pure fun d => ⟨refers_iff.2 h, ?_⟩
    intro scope entry heq
    cases heq

theorem rootTarget_lays {reference : String} {target : IncludeTarget}
    (hne : ∀ scope entry, target ≠ .grammar scope entry)
    (h : g.target? g.place p reference = some target) :
    g.Lays [] (Pure.pure target) fun target d =>
      g.Refers g.place p reference target ∧ Noted d.embedded (.inclusion target) := by
  refine .pure fun d => ⟨refers_iff.2 h, ?_⟩
  intro scope entry heq
  cases heq
  exact absurd rfl (hne scope entry)

/-- A reference to another grammar notes that it is embedded. -/
theorem otherGrammar_lays {reference : String} {scope : ScopeName} {entry : Option String}
    {r : RawRule} (hr : g.rule? p = some r) (hi : r.inclusion = some reference)
    (hs : Spells reference scope entry) (hne : scope ≠ g.scopeName) :
    g.Lays [] (do
        Compiling.embed scope
        return IncludeTarget.grammar scope entry) fun target d =>
      g.Refers g.place p reference target ∧ Noted d.embedded (.inclusion target) := by
  refine (Lays.embed ⟨hne, p, r, reference, entry, hr, hi, hs⟩).map fun _ d hd => ?_
  refine ⟨.other hs hne, ?_⟩
  intro scope' entry' heq
  cases heq
  exact hd

theorem resolveInclude_lays {reference : String} {r : RawRule} (hr : g.rule? p = some r)
    (hi : r.inclusion = some reference) (hsees : g.Sees p chain) :
    g.Lays [] (resolveInclude g.scopeName chain reference) fun target d =>
      g.Refers g.place p reference target ∧ Noted d.embedded (.inclusion target) := by
  unfold resolveInclude
  split
  · rename_i heq
    cases beq_iff_eq.1 heq
    exact rootTarget_lays (by simp) rfl
  · rename_i hself
    split
    · rename_i heq
      cases beq_iff_eq.1 heq
      exact rootTarget_lays (by simp) rfl
    · rename_i hbase
      split
      · rename_i name hsplit
        refine localTarget_lays hr hi ?_
        rw [eq_entry_of_splitReference hsplit, target?_entry, hsees.lookup]
        cases g.resolve? p name <;> rfl
      · rename_i hsplit
        refine .fail ⟨p, r, hr, ?_⟩
        rw [eq_empty_of_splitReference hsplit] at hi ⊢
        exact .nothing hi
      · rename_i scope entry hentry hnone hsplit
        -- the cases before have taken all references without a scope
        have hscope : scope ≠ "" := by
          rintro rfl
          cases entry with
          | none => exact hnone rfl rfl
          | some name => exact hentry name rfl rfl
        have hs : Spells reference scope entry :=
          ⟨mt beq_iff_eq.2 hself, mt beq_iff_eq.2 hbase, hsplit, hscope⟩
        split
        · rename_i hown
          cases beq_iff_eq.1 hown
          cases entry with
          | none => exact rootTarget_lays (by simp) (refers_iff.1 (.own hs))
          | some name =>
            refine localTarget_lays hr hi ?_
            rw [target?_spells hs, spelled?, if_pos rfl, ownTarget?, hsees.outermost]
            split <;> rfl
        · rename_i hown
          exact otherGrammar_lays hr hi hs (mt beq_iff_eq.2 hown)

/-! ## Captures and patterns -/

/-- The rules are written at the parts of a site. -/
def Within (g : RawGrammar) (p : Site) (parts : List (Part × RawRule)) : Prop :=
  ∀ e ∈ parts, g.rule? (e.1 :: p) = some e.2

theorem Within.head {e : Part × RawRule} {parts : List (Part × RawRule)}
    (h : g.Within p (e :: parts)) : g.rule? (e.1 :: p) = some e.2 := h e List.mem_cons_self

theorem Within.tail {e : Part × RawRule} {parts : List (Part × RawRule)}
    (h : g.Within p (e :: parts)) : g.Within p parts := fun e he => h e (List.mem_cons_of_mem _ he)

theorem foldl_max_mem : ∀ (ns : List Nat) (m : Nat), ns.foldl max m = m ∨ ns.foldl max m ∈ ns
  | [], _ => .inl rfl
  | n :: ns, m => by
    rw [List.foldl_cons]
    rcases foldl_max_mem ns (max m n) with h | h
    · rw [h]
      rcases Nat.le_total m n with hle | hle
      · exact .inr (by rw [Nat.max_eq_right hle]; exact List.mem_cons_self)
      · exact .inl (Nat.max_eq_left hle)
    · exact .inr (List.mem_cons_of_mem _ h)

theorem le_foldl_max : ∀ {ns : List Nat} {m n : Nat}, n ≤ m ∨ n ∈ ns → n ≤ ns.foldl max m
  | [], _, _, h => by simpa using h
  | k :: ns, m, n, h => by
    rw [List.foldl_cons]
    refine le_foldl_max ?_
    rcases h with h | h
    · exact .inl (by omega)
    · rcases List.mem_cons.1 h with rfl | h
      · exact .inl (by omega)
      · exact .inr h

theorem length_captureTable (ids : List (Nat × RuleId)) :
    (captureTable ids).length = (ids.map (·.1 + 1)).foldl max 0 := by
  rw [captureTable, List.length_map, List.length_range]

/-- At the place of a number stands the rule that has it. -/
theorem captureTable_eq_some {ids : List (Nat × RuleId)} {n : Nat} {id : RuleId} :
    (captureTable ids)[n]? = some (some id) ↔ ids.lookup n = some id := by
  constructor
  · intro hrule
    rw [captureTable, List.getElem?_map] at hrule
    obtain ⟨n', hn', heq⟩ := Option.map_eq_some_iff.1 hrule
    obtain ⟨_, rfl⟩ := List.getElem?_eq_some_iff.1 hn'
    rwa [List.getElem_range] at heq
  · intro hid
    obtain ⟨e, he, rfl⟩ := List.mem_map.1 (isSome_lookup_iff_mem.1 (Option.isSome_of_eq_some hid))
    have hlt : e.1 < (ids.map (·.1 + 1)).foldl max 0 :=
      le_foldl_max (.inr (List.mem_map_of_mem (f := (·.1 + 1)) he))
    rw [captureTable, List.getElem?_map, List.getElem?_range hlt, Option.map_some, hid]

theorem captureTable_holds {cs : List (Nat × RawRule)} {f : Nat → RuleId}
    (h : ∀ n ∈ cs.map (·.1), n ≤ maxCaptureIndex) :
    CaptureRules.Holds (captureTable (cs.map fun c => (c.1, f c.1))) (some cs) f := by
  have hlookup : ∀ n,
      (cs.map fun c => (c.1, f c.1)).lookup n = (cs.lookup n).map fun _ => f n :=
    fun n => lookup_map_key f n cs
  refine ⟨h, fun n id => ?_, fun n hn => ?_⟩
  · rw [captureTable_eq_some, hlookup, Option.getD_some, ← isSome_lookup_iff_mem]
    constructor
    · intro hsome
      obtain ⟨r, hr, rfl⟩ := Option.map_eq_some_iff.1 hsome
      exact ⟨by rw [hr]; rfl, rfl⟩
    · rintro ⟨hn, rfl⟩
      obtain ⟨r, hr⟩ := Option.isSome_iff_exists.1 hn
      rw [hr]
      rfl
  · rw [length_captureTable, List.map_map] at hn
    rcases foldl_max_mem (cs.map fun c => c.1 + 1) 0 with heq | hmem
    · exact absurd (hn.symm.trans heq) (by omega)
    · obtain ⟨c, hc, heq⟩ := List.mem_map.1 hmem
      have hnumber : c.1 = n := Nat.succ.inj (heq.trans hn)
      rw [Option.getD_some, ← hnumber]
      exact List.mem_map_of_mem hc

theorem holds_none {place : Nat → RuleId} : CaptureRules.Holds [] none place where
  bounded := by simp
  rule := by simp
  last := by simp

theorem compileCaptures_lays {r : RawRule} (hr : g.rule? p = some r) {part : Nat → Part}
    {cs : List (Nat × RawRule)} {compile : Compiling (List (Nat × RuleId))}
    (hfault : ∀ n ∈ cs.map (·.1), maxCaptureIndex < n →
      g.Fault p r (.ofCaptureIndex g.scopeName n))
    (h : g.Lays sites compile fun ids _ => ids = cs.map fun c => (c.1, g.place (part c.1 :: p))) :
    g.Lays sites (compileCaptures g.scopeName (cs.map (·.1)) compile) fun table _ =>
      CaptureRules.Holds table (some cs) fun n => g.place (part n :: p) := by
  unfold compileCaptures
  dsimp only
  split
  · rename_i hlt
    refine .fail ⟨p, r, hr, hfault _ ?_ hlt⟩
    exact (foldl_max_mem (cs.map (·.1)) 0).resolve_left (by omega)
  · rename_i hle
    refine h.map fun ids _ hids => ?_
    rw [hids]
    refine captureTable_holds (f := fun n => g.place (part n :: p)) fun n hn => ?_
    have := le_foldl_max (m := 0) (.inr hn)
    omega

/-- How the captures of one kind are compiled, for whichever match they are used. -/
def CapturesLay (g : RawGrammar) (p : Site) (r : RawRule) (written : Option (List (Nat × RawRule)))
    (compile : Option (Compiling CaptureRules)) : Prop :=
  compile.isSome = written.isSome ∧ ∀ x ∈ compile, ∀ part : Nat → Part,
    g.Within p (RawRule.captureParts part written) →
    (∀ n ∈ (written.getD []).map (·.1), maxCaptureIndex < n →
      g.Fault p r (.ofCaptureIndex g.scopeName n)) →
    g.Lays (RawRule.spread p (RawRule.captureParts part written)) x fun table _ =>
      CaptureRules.Holds table written fun n => g.place (part n :: p)

/-- How the rules inside a rule are compiled. -/
structure InnerLay (g : RawGrammar) (p : Site) (r : RawRule) (inner : InnerRules) : Prop where
  captures : g.CapturesLay p r r.captures inner.captures
  beginCaptures : g.CapturesLay p r r.beginCaptures inner.beginCaptures
  endCaptures : g.CapturesLay p r r.endCaptures inner.endCaptures
  whileCaptures : g.CapturesLay p r r.whileCaptures inner.whileCaptures
  patterns : g.Within p (RawRule.numberedParts .pattern 0 (RawRule.live (r.patterns.getD []))) →
    g.Lays (RawRule.spread p (RawRule.numberedParts .pattern 0 (RawRule.live (r.patterns.getD []))))
      inner.patterns fun ids _ =>
        ids = (RawRule.numberedParts .pattern 0 (RawRule.live (r.patterns.getD []))).map
          fun e => g.place (e.1 :: p)

theorem InnerLay.orCaptures {r : RawRule} {inner : InnerRules} (h : g.InnerLay p r inner)
    {written : Option (List (Nat × RawRule))} {kind : Option (Compiling CaptureRules)}
    (hkind : g.CapturesLay p r written kind) {part : Nat → Part}
    (hwithin : g.Within p (RawRule.captureParts part (written.or r.captures)))
    (hfault : ∀ n ∈ ((written.or r.captures).getD []).map (·.1), maxCaptureIndex < n →
      g.Fault p r (.ofCaptureIndex g.scopeName n)) :
    g.Lays (RawRule.spread p (RawRule.captureParts part (written.or r.captures)))
      (inner.orCaptures kind) fun table _ =>
        CaptureRules.Holds table (written.or r.captures) fun n => g.place (part n :: p) := by
  unfold InnerRules.orCaptures
  cases written with
  | some cs =>
    obtain ⟨x, hx⟩ := Option.isSome_iff_exists.1 hkind.1
    rw [hx]
    exact hkind.2 x hx part hwithin hfault
  | none =>
    have hnone : kind = none := by simpa using hkind.1
    rw [hnone, Option.none_or, Option.none_or]
    have hcaptures := h.captures
    cases hc : inner.captures with
    | some x => exact hcaptures.2 x hc part hwithin hfault
    | none =>
      have hwritten : r.captures = none := by simpa [hc] using hcaptures.1
      rw [hwritten]
      exact .pure fun _ => holds_none

theorem compileEnd_lays {source : String} (h : ∀ e, BadEnd source e → g.Blames (.badPattern e)) :
    g.Lays [] (compileEnd source) fun close _ => close.Of source := by
  unfold compileEnd
  split
  · rename_i href
    refine (Lays.lift fun e he => h e ?_).map fun a _ ha => .dynamic href ha
    rw [BadEnd, if_pos href]
    exact he
  · rename_i href
    refine (Lays.lift fun e he => h e ?_).map fun a _ ha => .fixed (by simpa using href) ha
    rw [BadEnd, if_neg href]
    exact he

/-- The rules inside a rule are written at its parts. -/
theorem within_bodyParts (hg : g.Keyed) (hp : p ≠ []) {r : RawRule} (hr : g.rule? p = some r) :
    g.Within p r.bodyParts := fun e he => (mem_partsAt hg).1 (by
      rw [partsAt_of_rule? hp hr]
      exact List.mem_append_right _ he)

theorem noted_of_ne {embedded : List ScopeName} {rule : Rule}
    (h : ∀ target, rule ≠ .inclusion target) : Noted embedded rule :=
  fun _ _ heq => absurd heq (h _)

theorem map_place_numberedParts (r : RawRule) :
    ((RawRule.numberedParts .pattern 0 r.innerPatterns).map fun e => g.place (e.1 :: p)) =
      patternPlaces g.place p r :=
  calc ((RawRule.numberedParts .pattern 0 r.innerPatterns).map fun e => g.place (e.1 :: p))
      = ((RawRule.numberedParts .pattern 0 r.innerPatterns).map (·.1)).map
          fun part => g.place (part :: p) := by rw [List.map_map]; rfl
    _ = ((List.range r.innerPatterns.length).map .pattern).map fun part => g.place (part :: p) := by
      rw [RawRule.map_fst_numberedParts, List.range_eq_range']
    _ = patternPlaces g.place p r := by rw [patternPlaces, List.map_map]; rfl

theorem buildRegion_lays {r : RawRule} (hr : g.rule? p = some r) {inner : InnerRules}
    (h : g.InnerLay p r inner) {start : String} (hi : r.inclusion = none)
    (hm : r.matchSource = none) (hb : r.beginSource = some start)
    (hopen : g.Within p (RawRule.captureParts .opening r.openingCaptures))
    (hclose : g.Within p (RawRule.captureParts .closing r.closingCaptures)) :
    g.Lays (RawRule.spread p (RawRule.captureParts .opening r.openingCaptures) ++
        RawRule.spread p (RawRule.captureParts .closing r.closingCaptures))
      (buildRegion r inner start (patternPlaces g.place p r)) fun rule d =>
        g.Means g.place p r rule ∧ Noted d.embedded rule := by
  have hopening : r.openingCaptures = r.beginCaptures.or r.captures := by
    simp [RawRule.openingCaptures, hi, hm, hb]
  have hopenFault : ∀ n ∈ ((r.beginCaptures.or r.captures).getD []).map (·.1), maxCaptureIndex < n →
      g.Fault p r (.ofCaptureIndex g.scopeName n) := by
    rw [← hopening]
    exact fun n hn hlt => fault_openingCapture hn hlt
  rw [hopening] at hopen ⊢
  unfold buildRegion
  refine (h.orCaptures h.beginCaptures hopen hopenFault).bind fun bs hbs => ?_
  refine (Lays.lift fun e he => ⟨p, r, hr, .starting hi hm hb he⟩).bind fun pattern hpattern => ?_
  rw [← hopening] at hbs
  split
  · rename_i source hw
    have hclosing : r.closingCaptures = r.whileCaptures.or r.captures := by
      simp [RawRule.closingCaptures, hi, hm, hb, hw]
    refine (compileEnd_lays fun e he => ⟨p, r, hr, .continuing hi hm hb hw he⟩).bind
      fun close hof => ?_
    rw [hclosing] at hclose ⊢
    refine (h.orCaptures h.whileCaptures hclose ?_).map fun cs _ hcs => ?_
    · rw [← hclosing]
      exact fun n hn hlt => fault_closingCapture hn hlt
    · rw [← hclosing] at hcs
      exact ⟨.beginWhile hi hm hb hpattern hbs hw hof hcs, noted_of_ne (by simp)⟩
  · rename_i hw
    have hclosing : r.closingCaptures = r.endCaptures.or r.captures := by
      simp [RawRule.closingCaptures, hi, hm, hb, hw]
    refine (compileEnd_lays fun e he => ⟨p, r, hr, .ending hi hm hb hw he⟩).bind
      fun close hof => ?_
    rw [hclosing] at hclose ⊢
    refine (h.orCaptures h.endCaptures hclose ?_).map fun cs _ hcs => ?_
    · rw [← hclosing]
      exact fun n hn hlt => fault_closingCapture hn hlt
    · rw [← hclosing] at hcs
      exact ⟨.beginEnd hi hm hb hpattern hbs hw hof hcs, noted_of_ne (by simp)⟩

theorem buildBody_lays (hg : g.Keyed) (hp : p ≠ []) {r : RawRule} (hr : g.rule? p = some r)
    (hsees : g.Sees p chain) {inner : InnerRules} (h : g.InnerLay p r inner) :
    g.Lays (RawRule.spread p r.bodyParts) (buildBody g.scopeName chain r inner) fun rule d =>
      g.Means g.place p r rule ∧ Noted d.embedded rule := by
  have hwithin := within_bodyParts hg hp hr
  unfold buildBody
  split
  · rename_i reference hi
    have hparts : r.bodyParts = [] := by
      simp [RawRule.bodyParts, RawRule.innerPatterns, RawRule.openingCaptures,
        RawRule.closingCaptures, hi, RawRule.numberedParts, RawRule.captureParts]
    rw [hparts]
    exact (resolveInclude_lays hr hi hsees).map fun target d ht => ⟨.inclusion hi ht.1, ht.2⟩
  · rename_i source hi hm
    have hopening : r.openingCaptures = r.captures := by simp [RawRule.openingCaptures, hi, hm]
    have hparts : r.bodyParts = RawRule.captureParts .opening r.captures := by
      simp [RawRule.bodyParts, RawRule.innerPatterns, RawRule.openingCaptures,
        RawRule.closingCaptures, hi, hm, RawRule.numberedParts, RawRule.captureParts]
    rw [hparts] at hwithin ⊢
    refine (Lays.lift fun e he => ⟨p, r, hr, .matching hi hm he⟩).bind fun pattern hpattern => ?_
    have hnone : g.CapturesLay p r none none := ⟨rfl, by simp⟩
    refine (h.orCaptures hnone hwithin ?_).map fun cs _ hcs => ?_
    · intro n hn hlt
      exact fault_openingCapture (by rwa [hopening]) hlt
    · refine ⟨.matching hi hm hpattern ?_, noted_of_ne (by simp)⟩
      rw [hopening]
      exact hcs
  · rename_i hi hm
    have hinner : r.innerPatterns = RawRule.live (r.patterns.getD []) := by
      simp [RawRule.innerPatterns, hi, hm]
    have hpatterns := h.patterns
    rw [← hinner] at hpatterns
    obtain ⟨hrest, hclose⟩ := List.forall_mem_append.1 hwithin
    obtain ⟨hnumbered, hopen⟩ := List.forall_mem_append.1 hrest
    rw [RawRule.bodyParts, RawRule.spread_append, RawRule.spread_append, List.append_assoc]
    refine (hpatterns hnumbered).bind fun ids hids => ?_
    rw [hids, map_place_numberedParts]
    split
    · rename_i start hb
      exact buildRegion_lays hr h hi hm hb hopen hclose
    · rename_i hb
      have hnoOpening : r.openingCaptures = none := by simp [RawRule.openingCaptures, hi, hm, hb]
      have hnoClosing : r.closingCaptures = none := by simp [RawRule.closingCaptures, hi, hm, hb]
      rw [hnoOpening, hnoClosing]
      split
      · rename_i hsome
        exact .fail ⟨p, r, hr, .endWithoutBegin hi hm hb (by simpa using hsome)⟩
      · rename_i hnone
        obtain ⟨he, hw⟩ : r.endSource = none ∧ r.whileSource = none := by simpa using hnone
        exact .pure fun d => ⟨.group hi hm hb he hw, noted_of_ne (by simp)⟩

end RawGrammar

end Highlight
