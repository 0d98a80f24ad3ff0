import Highlight.Proofs.LinkedGrammar

/-!
# Rule tables refer to themselves only

Rules refer to other rules of their grammar by places in its table. A place is taken before it is
filled, and rules in the table may refer to places that are not filled yet, but never to one that is
not taken (`Draft.Closed`). `Compiling.Closes` says of a part of compilation that it keeps this so
and that what it hands on refers to taken places, too; places are never given back, so what held of
a smaller table holds of a greater one. Hence all that a compiled grammar refers to is in its table
(`compile_closed`), and what a rule of a linked grammar refers to is a rule (`Linked.rule?_place`).
-/

namespace Highlight

/-- The places are among the first `n`. -/
def Taken (n : Nat) (ids : List RuleId) : Prop := ∀ id ∈ ids, id < n

namespace Taken

variable {m n : Nat} {ids ids' : List RuleId}

theorem nil : Taken n [] := by simp [Taken]

theorem mono (h : Taken n ids) (hle : n ≤ m) : Taken m ids :=
  fun id hid => Nat.lt_of_lt_of_le (h id hid) hle

theorem append (h : Taken n ids) (h' : Taken n ids') : Taken n (ids ++ ids') := by
  intro id hid
  rcases List.mem_append.1 hid with hid | hid
  · exact h id hid
  · exact h' id hid

theorem cons {id : RuleId} (h : id < n) (h' : Taken n ids) : Taken n (id :: ids) := by
  intro id' hid'
  rcases List.mem_cons.1 hid' with rfl | hid'
  · exact h
  · exact h' id' hid'

theorem subset (h : Taken n ids) (hsub : ids' ⊆ ids) : Taken n ids' := fun id hid => h id (hsub hid)

end Taken

/-! ## What refers to places -/

/-- The places that the rules of captures stand at. -/
def CaptureRules.places (cs : CaptureRules) : List RuleId := cs.filterMap id

/-- The places that a repository names. -/
def Repository.places (entries : Repository) : List RuleId := entries.map (·.2)

/-- The places that can be named inside repositories. -/
def Chain.places (chain : Chain) : List RuleId := chain.flatMap Repository.places

/-- The place that a reference leads to, where it leads to one of its own grammar. -/
def IncludeTarget.places : IncludeTarget → List RuleId
  | .rule id => [id]
  | _ => []

/-- The places that a rule refers to. -/
def Rule.places : Rule → List RuleId
  | .matching r => CaptureRules.places r.captures
  | .beginEnd r =>
    CaptureRules.places r.beginCaptures ++ CaptureRules.places r.endCaptures ++ r.patterns
  | .beginWhile r =>
    CaptureRules.places r.beginCaptures ++ CaptureRules.places r.whileCaptures ++ r.patterns
  | .group r => r.patterns
  | .inclusion target => target.places

/-- The places that the captures of a rule refer to, those of all its matches. -/
def Rule.captured : Rule → List RuleId
  | .matching r => CaptureRules.places r.captures
  | .beginEnd r => CaptureRules.places r.beginCaptures ++ CaptureRules.places r.endCaptures
  | .beginWhile r => CaptureRules.places r.beginCaptures ++ CaptureRules.places r.whileCaptures
  | .group _ => []
  | .inclusion _ => []

theorem Rule.captured_subset_places (r : Rule) : r.captured ⊆ r.places := by
  cases r with
  | matching _ => exact List.Subset.refl _
  | beginEnd _ => exact List.subset_append_left _ _
  | beginWhile _ => exact List.subset_append_left _ _
  | group _ => exact List.nil_subset _
  | inclusion _ => exact List.nil_subset _

theorem CaptureRules.mem_places {cs : CaptureRules} {id : RuleId} :
    id ∈ CaptureRules.places cs ↔ some id ∈ cs := by
  simp [CaptureRules.places]

theorem Repository.mem_of_lookup {entries : Repository} {name : String} {id : RuleId}
    (h : entries.lookup name = some id) : id ∈ entries.places :=
  List.mem_map.2 ⟨(name, id), mem_of_lookup_eq_some h, rfl⟩

theorem Chain.mem_of_lookup {chain : Chain} {name : String} {id : RuleId}
    (h : chain.lookup name = some id) : id ∈ chain.places := by
  obtain ⟨entries, hentries, hid⟩ := List.exists_of_findSome?_eq_some h
  exact List.mem_flatMap.2 ⟨entries, hentries, Repository.mem_of_lookup hid⟩

theorem Chain.mem_of_outermost {chain : Chain} {name : String} {id : RuleId}
    (h : chain.outermost name = some id) : id ∈ chain.places := by
  obtain ⟨entries, hentries, hid⟩ := Option.bind_eq_some_iff.1 h
  exact List.mem_flatMap.2
    ⟨entries, List.mem_of_getLast? hentries, Repository.mem_of_lookup hid⟩

theorem captureTable_places_subset (ids : List (Nat × RuleId)) :
    CaptureRules.places (captureTable ids) ⊆ ids.map (·.2) := by
  intro id hid
  obtain ⟨n, _, hn⟩ := List.mem_map.1 (CaptureRules.mem_places.1 hid)
  exact List.mem_map.2 ⟨(n, id), mem_of_lookup_eq_some hn, rfl⟩

/-! ## Compilation -/

/-- No rule of the table refers to a place that is not taken. -/
def Draft.Closed (d : Draft) : Prop := ∀ r ∈ d.rules, Taken d.rules.size r.places

namespace Compiling

variable {α β : Type} {m n : Nat} {refs : α → List RuleId} {refs' : β → List RuleId}

/-- From a table with at least `n` places, closed, comes one with at least as many, closed, and all
that the value refers to is in it. -/
def Closes (n : Nat) (x : Compiling α) (refs : α → List RuleId) : Prop :=
  ∀ d a d', n ≤ d.rules.size → d.Closed → x d = .ok (a, d') →
    d.rules.size ≤ d'.rules.size ∧ d'.Closed ∧ Taken d'.rules.size (refs a)

namespace Closes

theorem weaken {x : Compiling α} (h : Closes n x refs) (hle : n ≤ m) : Closes m x refs :=
  fun d a d' hm => h d a d' (Nat.le_trans hle hm)

theorem pure {a : α} (h : Taken n (refs a)) : Closes n (Pure.pure a) refs := by
  intro d b d' hn hd heq
  cases heq
  exact ⟨Nat.le_refl _, hd, h.mono hn⟩

/-- The second part starts with a table of the size `m` that the first part has left. -/
theorem bind {x : Compiling α} {f : α → Compiling β} (hx : Closes n x refs)
    (hf : ∀ m a, n ≤ m → Taken m (refs a) → Closes m (f a) refs') :
    Closes n (x >>= f) refs' := by
  intro d b d'' hn hd heq
  obtain ⟨a, d', hxd, heq⟩ := bind_eq_ok.1 heq
  obtain ⟨hgrow, hd', ha⟩ := hx d a d' hn hd hxd
  have hrest := hf _ a (Nat.le_trans hn hgrow) ha
  obtain ⟨hgrow', hd'', hb⟩ := hrest d' b d'' (Nat.le_refl _) hd' heq
  exact ⟨Nat.le_trans hgrow hgrow', hd'', hb⟩

theorem fail {e : GrammarError} : Closes n (Compiling.fail e : Compiling α) refs := by
  intro d a d' _ _ heq
  cases heq

theorem lift (x : Except PatternError α) : Closes n (Compiling.lift x) fun _ => [] := by
  intro d a d' _ hd heq
  cases x with
  | ok b =>
    cases heq
    exact ⟨Nat.le_refl _, hd, .nil⟩
  | error e => cases heq

theorem reserve : Closes n Compiling.reserve fun id => [id] := by
  intro d a d' _ hd heq
  cases heq
  have hgrow : d.rules.size ≤ (d.rules.push Rule.placeholder).size := by simp
  refine ⟨hgrow, ?_, ?_⟩
  · intro r hr
    rcases Array.mem_push.1 hr with hr | rfl
    · exact (hd r hr).mono hgrow
    · exact .nil
  · simp [Taken]

theorem fill {id : RuleId} {r : Rule} (h : Taken n r.places) :
    Closes n (Compiling.fill id r) fun _ => [] := by
  intro d a d' hn hd heq
  cases heq
  have hsize : (d.rules.setIfInBounds id r).size = d.rules.size := Array.size_setIfInBounds
  refine ⟨Nat.le_of_eq hsize.symm, ?_, .nil⟩
  intro r' hr'
  rw [hsize]
  rcases Array.mem_or_eq_of_mem_setIfInBounds hr' with hr' | rfl
  · exact hd r' hr'
  · exact h.mono hn

theorem embed {scope : ScopeName} : Closes n (Compiling.embed scope) fun _ => [] := by
  intro d a d' _ hd heq
  cases heq
  split
  · exact ⟨Nat.le_refl _, hd, .nil⟩
  · exact ⟨Nat.le_refl _, hd, .nil⟩

theorem place {build : Compiling Rule} (h : Closes n build Rule.places) :
    Closes n (Compiling.place build) fun id => [id] :=
  reserve.bind fun _ _ hm hid => (h.weaken hm).bind fun _ _ hm' hr => (fill hr).bind fun _ _ hm'' _ =>
    pure (hid.mono (Nat.le_trans hm' hm''))

theorem reserveAll : ∀ names : List String, Closes n (Compiling.reserveAll names) Repository.places
  | [] => pure .nil
  | _ :: names => by
    refine reserve.bind fun m id hm hid => ?_
    refine ((reserveAll names).weaken hm).bind fun m' ids hm' hids => pure ?_
    exact .cons (hid.mono hm' id List.mem_cons_self) hids

end Closes

end Compiling

open Compiling (Closes)

section

variable {n : Nat} {own : ScopeName}

theorem localTarget_closes {reference : String} {id? : Option RuleId}
    (h : ∀ id ∈ id?, id < n) : Closes n (localTarget own reference id?) IncludeTarget.places := by
  cases id? with
  | some id => exact .pure (.cons (h id rfl) .nil)
  | none => exact .fail

theorem resolveInclude_closes {chain : Chain} {reference : String} (h : Taken n chain.places) :
    Closes n (resolveInclude own chain reference) IncludeTarget.places := by
  unfold resolveInclude
  split
  · exact .pure .nil
  · split
    · exact .pure .nil
    · split
      · exact localTarget_closes fun id hid => h id (Chain.mem_of_lookup hid)
      · exact .fail
      · split
        · split
          · exact .pure .nil
          · exact localTarget_closes fun id hid => h id (Chain.mem_of_outermost hid)
        · exact Closes.embed.bind fun _ _ _ _ => .pure .nil

theorem compileEnd_closes {source : String} : Closes n (compileEnd source) fun _ => [] := by
  unfold compileEnd
  split
  · exact (Closes.lift _).bind fun _ _ _ _ => .pure .nil
  · exact (Closes.lift _).bind fun _ _ _ _ => .pure .nil

theorem compileCaptures_closes {numbers : List Nat} {compile : Compiling (List (Nat × RuleId))}
    (h : Closes n compile (·.map (·.2))) :
    Closes n (compileCaptures own numbers compile) CaptureRules.places := by
  unfold compileCaptures
  dsimp only
  split
  · exact .fail
  · exact h.bind fun _ ids _ hids => .pure (hids.subset (captureTable_places_subset ids))

/-- The rules inside a rule are compiled so that the table stays closed. -/
structure InnerRules.Closing (n : Nat) (inner : InnerRules) : Prop where
  captures : ∀ x ∈ inner.captures, Closes n x CaptureRules.places
  beginCaptures : ∀ x ∈ inner.beginCaptures, Closes n x CaptureRules.places
  endCaptures : ∀ x ∈ inner.endCaptures, Closes n x CaptureRules.places
  whileCaptures : ∀ x ∈ inner.whileCaptures, Closes n x CaptureRules.places
  patterns : Closes n inner.patterns id

theorem InnerRules.Closing.orCaptures {inner : InnerRules} (h : inner.Closing n) {m : Nat}
    (hle : n ≤ m) {kind : Option (Compiling CaptureRules)}
    (hkind : ∀ x ∈ kind, Closes n x CaptureRules.places) :
    Closes m (inner.orCaptures kind) CaptureRules.places := by
  unfold InnerRules.orCaptures
  cases kind with
  | some x => exact (hkind x rfl).weaken hle
  | none =>
    cases hc : inner.captures with
    | some x => exact (h.captures x hc).weaken hle
    | none => exact .pure .nil

theorem buildRegion_closes {raw : RawRule} {inner : InnerRules} {start : String}
    {ids : List RuleId} (h : inner.Closing n) {m : Nat} (hle : n ≤ m) (hids : Taken m ids) :
    Closes m (buildRegion raw inner start ids) Rule.places := by
  unfold buildRegion
  refine (h.orCaptures hle h.beginCaptures).bind fun m₁ bs hm₁ hbs => ?_
  refine (Closes.lift _).bind fun m₂ _ hm₂ _ => ?_
  split
  · refine compileEnd_closes.bind fun m₃ _ hm₃ _ => ?_
    have hm : m ≤ m₃ := by omega
    refine (h.orCaptures (Nat.le_trans hle hm) h.whileCaptures).bind fun m₄ ws hm₄ hws => .pure ?_
    exact ((hbs.mono (by omega)).append hws).append (hids.mono (by omega))
  · refine compileEnd_closes.bind fun m₃ _ hm₃ _ => ?_
    have hm : m ≤ m₃ := by omega
    refine (h.orCaptures (Nat.le_trans hle hm) h.endCaptures).bind fun m₄ es hm₄ hes => .pure ?_
    exact ((hbs.mono (by omega)).append hes).append (hids.mono (by omega))

theorem buildBody_closes {chain : Chain} {raw : RawRule} {inner : InnerRules}
    (hchain : Taken n chain.places) (h : inner.Closing n) :
    Closes n (buildBody own chain raw inner) Rule.places := by
  unfold buildBody
  split
  · exact (resolveInclude_closes hchain).bind fun _ _ _ ht => .pure ht
  · refine (Closes.lift _).bind fun m _ hm _ => ?_
    exact (h.orCaptures hm (by simp)).bind fun _ _ _ hcs => .pure hcs
  · refine h.patterns.bind fun m ids hm hids => ?_
    split
    · exact buildRegion_closes h hm hids
    · split
      · exact .fail
      · exact .pure hids

mutual

theorem buildRule_closes {n : Nat} (chain : Chain) (hchain : Taken n chain.places) :
    ∀ raw : RawRule, Closes n (buildRule own chain raw) Rule.places
  | ⟨_, _, _, _, _, _, _, captures, beginCaptures, endCaptures, whileCaptures, patterns, repository,
      _, _⟩ => by
    unfold buildRule
    refine (compileRepository_closes chain hchain repository).bind fun m chain _ hchain => ?_
    refine buildBody_closes hchain ?_
    exact ⟨compileCaptures?_closes chain hchain captures,
      compileCaptures?_closes chain hchain beginCaptures,
      compileCaptures?_closes chain hchain endCaptures,
      compileCaptures?_closes chain hchain whileCaptures,
      compilePatterns?_closes chain hchain patterns⟩

theorem compileRepository_closes {n : Nat} (chain : Chain) (hchain : Taken n chain.places) :
    ∀ repository : Option (List (String × RawRule)),
      Closes n (compileRepository own chain repository) Chain.places
  | some (e :: es) => by
    unfold compileRepository
    -- the entries see their own places, which are all taken before the first one is compiled
    refine (Closes.reserveAll _).bind fun m ids hm hids => ?_
    have hinner : Taken m (Chain.places (ids :: chain)) := hids.append (hchain.mono hm)
    exact (compileEntries_closes (ids :: chain) hinner (e :: es) ids).bind fun _ _ hm' _ =>
      .pure (hinner.mono hm')
  | some [] => by
    unfold compileRepository
    exact .pure hchain
  | none => by
    unfold compileRepository
    exact .pure hchain

theorem compileCaptures?_closes {n : Nat} (chain : Chain) (hchain : Taken n chain.places) :
    ∀ captures : Option (List (Nat × RawRule)),
      ∀ x ∈ compileCaptures? own chain captures, Closes n x CaptureRules.places
  | some cs => by
    unfold compileCaptures?
    intro x hx
    cases hx
    exact compileCaptures_closes (compileNumbered_closes chain hchain cs)
  | none => by
    unfold compileCaptures?
    simp

theorem compilePatterns?_closes {n : Nat} (chain : Chain) (hchain : Taken n chain.places) :
    ∀ patterns : Option (List RawRule), Closes n (compilePatterns? own chain patterns) id
  | some raws => by
    unfold compilePatterns?
    exact compilePatterns_closes chain hchain raws
  | none => by
    unfold compilePatterns?
    exact .pure .nil

theorem compileEntries_closes {n : Nat} (chain : Chain) (hchain : Taken n chain.places) :
    ∀ (es : List (String × RawRule)) (ids : Repository),
      Closes n (compileEntries own chain es ids) fun _ => []
  | (_, raw) :: es, (_, id) :: ids => by
    unfold compileEntries
    refine (buildRule_closes chain hchain raw).bind fun m r hm hr => ?_
    refine (Closes.fill hr).bind fun m' _ hm' _ => ?_
    exact compileEntries_closes chain (hchain.mono (Nat.le_trans hm hm')) es ids
  | [], _ => by
    unfold compileEntries
    exact .pure .nil
  | _ :: _, [] => by
    unfold compileEntries
    exact .pure .nil

theorem compilePatterns_closes {n : Nat} (chain : Chain) (hchain : Taken n chain.places) :
    ∀ raws : List RawRule, Closes n (compilePatterns own chain raws) id
  | [] => by
    unfold compilePatterns
    exact .pure .nil
  | raw :: raws => by
    unfold compilePatterns
    split
    · exact compilePatterns_closes chain hchain raws
    · refine (Closes.place (buildRule_closes chain hchain raw)).bind fun m id hm hid => ?_
      exact (compilePatterns_closes chain (hchain.mono hm) raws).bind fun _ _ hm' hids =>
        .pure ((hid.mono hm').append hids)

theorem compileNumbered_closes {n : Nat} (chain : Chain) (hchain : Taken n chain.places) :
    ∀ cs : List (Nat × RawRule), Closes n (compileNumbered own chain cs) (·.map (·.2))
  | [] => by
    unfold compileNumbered
    exact .pure .nil
  | (_, raw) :: cs => by
    unfold compileNumbered
    refine (Closes.place (buildRule_closes chain hchain raw)).bind fun m id hm hid => ?_
    exact (compileNumbered_closes chain (hchain.mono hm) cs).bind fun _ _ hm' hids =>
      .pure ((hid.mono hm').append hids)

end

theorem compileInjections_closes {n : Nat} (chain : Chain) (hchain : Taken n chain.places) :
    ∀ injections : List (String × RawRule),
      Closes n (compileInjections own chain injections) (·.map (·.2))
  | [] => .pure .nil
  | (_, raw) :: rest =>
    (Closes.place (buildRule_closes chain hchain raw)).bind fun _ _ hm hid =>
      (compileInjections_closes chain (hchain.mono hm) rest).bind fun _ _ hm' hids =>
        .pure ((hid.mono hm').append hids)

theorem compileAll_closes (raw : RawGrammar) :
    Closes 0 (compileAll raw) fun a => a.1.places ++ a.2.1 :: a.2.2.map (·.2) := by
  unfold compileAll
  refine (Closes.reserveAll _).bind fun m₁ ids _ hids => ?_
  have hchain : ∀ {m}, m₁ ≤ m → Taken m (Chain.places [ids]) := fun hm =>
    (hids.append .nil).mono hm
  -- the sizes of the table from pass to pass: what was taken before stays taken
  refine (compileEntries_closes _ (hchain (Nat.le_refl _)) _ ids).bind fun m₂ _ hm₂ _ => ?_
  refine Closes.reserve.bind fun m₃ root hm₃ hroot => ?_
  refine (compilePatterns_closes _ (hchain (by omega)) _).bind fun m₄ patterns hm₄ hpatterns => ?_
  refine (Closes.fill hpatterns).bind fun m₅ _ hm₅ _ => ?_
  refine (compileInjections_closes _ (hchain (by omega)) _).bind fun m₆ _ hm₆ hinjections => ?_
  have hroot' : root < m₆ := hroot.mono (by omega) root List.mem_cons_self
  exact .pure ((hids.mono (by omega)).append (.cons hroot' hinjections))

end

/-- All that a compiled grammar refers to by place is in its table. -/
structure CompiledGrammar.Closed (d : CompiledGrammar) : Prop where
  rules : ∀ r ∈ d.rules, Taken d.rules.size r.places
  root : d.root < d.rules.size
  repository : Taken d.rules.size d.repository.places
  injections : Taken d.rules.size (d.injections.map (·.2))

theorem compile_closed {raw : RawGrammar} {d : CompiledGrammar}
    (h : CompiledGrammar.compile raw = .ok d) : d.Closed := by
  unfold CompiledGrammar.compile at h
  split at h
  · cases h
  · rename_i ids root injections draft hall
    cases h
    have hempty : Draft.Closed ⟨#[], []⟩ := by
      intro r hr
      exact absurd hr (Array.not_mem_empty r)
    obtain ⟨_, hrules, hplaces⟩ := compileAll_closes raw _ _ _ (Nat.zero_le _) hempty hall
    refine ⟨hrules, hplaces root ?_, ?_, ?_⟩
    · exact List.mem_append_right _ List.mem_cons_self
    · exact hplaces.subset (List.subset_append_left _ _)
    · intro id hid
      exact hplaces id (List.mem_append_right _ (List.mem_cons_of_mem root hid))

/-! ## Linked grammars -/

theorem mem_put {κ α : Type} [BEq κ] {key : κ} {value : α} {e : κ × α} : ∀ {es : List (κ × α)},
    e ∈ Value.put key value es → e.2 = value ∨ e ∈ es
  | [], h => by
    cases List.mem_singleton.1 h
    exact .inl rfl
  | (k, v) :: es, h => by
    rw [Value.put] at h
    split at h
    · rcases List.mem_cons.1 h with rfl | h
      · exact .inl rfl
      · exact .inr (List.mem_cons_of_mem _ h)
    · rcases List.mem_cons.1 h with rfl | h
      · exact .inr List.mem_cons_self
      · exact (mem_put h).imp_right (List.mem_cons_of_mem _)

namespace Grammar

variable {g : Grammar}

/-- The documents of a linked grammar come from grammars as written. -/
theorem Linked.compiled (hg : g.Linked) {scope : ScopeName} {d : CompiledGrammar}
    (h : g.document? scope = some d) : d.Compiled := by
  obtain ⟨root, documents, injectors, hroot, hdocuments, hlink⟩ := hg
  have hfold : ∀ (ds : List CompiledGrammar) (m : List (ScopeName × CompiledGrammar)),
      (∀ d ∈ ds, d.Compiled) → (∀ e ∈ m, e.2.Compiled) →
      ∀ e ∈ ds.foldl (fun m d => Value.put d.scopeName d m) m, e.2.Compiled := by
    intro ds
    induction ds with
    | nil => intro m _ hm; exact hm
    | cons d ds ih =>
      intro m hds hm
      refine ih _ (fun d' hd' => hds d' (List.mem_cons_of_mem d hd')) ?_
      intro e he
      rcases mem_put he with heq | he
      · rw [heq]
        exact hds d List.mem_cons_self
      · exact hm e he
  have hall : ∀ d ∈ documents ++ [root], d.Compiled := by
    intro d hd
    rcases List.mem_append.1 hd with hd | hd
    · exact hdocuments d hd
    · rwa [List.mem_singleton.1 hd]
  simp only [link] at hlink
  obtain ⟨_, _, hlink⟩ := Except.bind_eq_ok.1 hlink
  obtain ⟨_, _, hlink⟩ := Except.bind_eq_ok.1 hlink
  cases hlink
  exact hfold _ [] hall (by simp) _ (mem_of_lookup_eq_some h)

/-- What a rule of a linked grammar refers to by place is a rule of the same document. -/
theorem Linked.rule?_place (hg : g.Linked) {r : RuleRef} {rule : Rule}
    (h : g.rule? r = some rule) {id : RuleId} (hid : id ∈ rule.places) :
    ∃ rule', g.rule? ⟨r.grammar, id⟩ = some rule' := by
  obtain ⟨d, hd, hrule⟩ := Option.bind_eq_some_iff.1 h
  obtain ⟨raw, hraw⟩ := hg.compiled hd
  have hlt : id < d.rules.size :=
    (compile_closed hraw).rules rule (Array.mem_of_getElem? hrule) id hid
  refine ⟨d.rules[id], ?_⟩
  rw [rule?, hd]
  exact Array.getElem?_eq_getElem hlt

end Grammar

end Highlight
