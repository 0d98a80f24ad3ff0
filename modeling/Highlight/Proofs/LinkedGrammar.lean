import Highlight.Proofs.ScanSteps

/-!
# Linked grammars

`Grammar.Linked` singles out the grammars that a text can be tokenized with: those that linking
makes of compiled grammars. Compiling fills a table of rules; `Compiling.Keeps` says of a part of it
that places taken before stay as they are, and that places taken by it come after them. So what
stands at the root of a compiled grammar is the group of its patterns (`compile_root`), whatever
else is compiled after it, and a linked grammar has that root (`Linked.root`).
-/

namespace Highlight

namespace Compiling

variable {α β : Type} {n : Nat} {P : α → Prop} {Q : β → Prop}

theorem bind_eq_ok {x : Compiling α} {f : α → Compiling β} {d d'' : Draft} {b : β} :
    (x >>= f) d = .ok (b, d'') ↔ ∃ a d', x d = .ok (a, d') ∧ f a d' = .ok (b, d'') := by
  change Compiling.bind x f d = .ok (b, d'') ↔ _
  unfold Compiling.bind
  cases hx : x d with
  | ok p =>
    obtain ⟨a, d'⟩ := p
    constructor
    · intro h
      exact ⟨a, d', rfl, h⟩
    · rintro ⟨_, _, heq, h⟩
      cases heq
      exact h
  | error e => simp

/-- The first `n` places of the table stay as they are, and the value has the property. -/
def Keeps (n : Nat) (x : Compiling α) (P : α → Prop) : Prop :=
  ∀ d a d', n ≤ d.rules.size → x d = .ok (a, d') →
    P a ∧ n ≤ d'.rules.size ∧ ∀ i < n, d'.rules[i]? = d.rules[i]?

/-- Any value will do. -/
def Any (_ : α) : Prop := True

namespace Keeps

theorem pure {a : α} (h : P a) : Keeps n (Pure.pure a) P := by
  intro d b d' hn heq
  cases heq
  exact ⟨h, hn, fun _ _ => rfl⟩

theorem bind {x : Compiling α} {f : α → Compiling β} (hx : Keeps n x P)
    (hf : ∀ a, P a → Keeps n (f a) Q) : Keeps n (x >>= f) Q := by
  intro d b d'' hn heq
  obtain ⟨a, d', hd, heq⟩ := bind_eq_ok.1 heq
  obtain ⟨ha, hn', hkeep⟩ := hx d a d' hn hd
  obtain ⟨hb, hn'', hkeep'⟩ := hf a ha d' b d'' hn' heq
  exact ⟨hb, hn'', fun i hi => (hkeep' i hi).trans (hkeep i hi)⟩

theorem fail {e : GrammarError} : Keeps n (Compiling.fail e : Compiling α) P := by
  intro d a d' _ heq
  cases heq

theorem lift (x : Except PatternError α) : Keeps n (Compiling.lift x) Any := by
  intro d a d' hn heq
  cases x with
  | ok b =>
    cases heq
    exact ⟨trivial, hn, fun _ _ => rfl⟩
  | error e => cases heq

theorem reserve : Keeps n Compiling.reserve (n ≤ ·) := by
  intro d a d' hn heq
  cases heq
  refine ⟨hn, ?_, ?_⟩
  · simp only [Array.size_push]
    omega
  · intro i hi
    rw [Array.getElem?_push_lt (by omega), Array.getElem?_eq_getElem (by omega)]

theorem fill {id : RuleId} {r : Rule} (h : n ≤ id) : Keeps n (Compiling.fill id r) Any := by
  intro d a d' hn heq
  cases heq
  refine ⟨trivial, ?_, ?_⟩
  · rwa [Array.size_setIfInBounds]
  · intro i hi
    rw [Array.getElem?_setIfInBounds_ne (by omega)]

theorem embed {scope : ScopeName} : Keeps n (Compiling.embed scope) Any := by
  intro d a d' hn heq
  cases heq
  split
  · exact ⟨trivial, hn, fun _ _ => rfl⟩
  · exact ⟨trivial, hn, fun _ _ => rfl⟩

theorem place {build : Compiling Rule} (h : Keeps n build Any) :
    Keeps n (Compiling.place build) (n ≤ ·) :=
  reserve.bind fun _ hid => h.bind fun _ _ => (fill hid).bind fun _ _ => pure hid

theorem reserveAll : ∀ names : List String,
    Keeps n (Compiling.reserveAll names) fun ids => ∀ e ∈ ids, n ≤ e.2
  | [] => pure (by simp)
  | name :: names => reserve.bind fun id hid => (reserveAll names).bind fun ids hids => pure (by
      intro e he
      rcases List.mem_cons.1 he with rfl | he
      · exact hid
      · exact hids e he)

end Keeps

end Compiling

open Compiling (Keeps Any)

/-! ## Compiled rules -/

section

variable {n : Nat} {own : ScopeName}

theorem localTarget_keeps {reference : String} {id? : Option RuleId} :
    Keeps n (localTarget own reference id?) Any := by
  cases id? with
  | some id => exact .pure trivial
  | none => exact .fail

theorem resolveInclude_keeps {chain : Chain} {reference : String} :
    Keeps n (resolveInclude own chain reference) Any := by
  unfold resolveInclude
  split
  · exact .pure trivial
  · split
    · exact .pure trivial
    · split
      · exact localTarget_keeps
      · exact .fail
      · split
        · split
          · exact .pure trivial
          · exact localTarget_keeps
        · exact Keeps.embed.bind fun _ _ => .pure trivial

theorem compileEnd_keeps {source : String} : Keeps n (compileEnd source) Any := by
  unfold compileEnd
  split
  · exact (Keeps.lift _).bind fun _ _ => .pure trivial
  · exact (Keeps.lift _).bind fun _ _ => .pure trivial

theorem compileCaptures_keeps {numbers : List Nat} {compile : Compiling (List (Nat × RuleId))}
    (h : Keeps n compile Any) : Keeps n (compileCaptures own numbers compile) Any := by
  unfold compileCaptures
  dsimp only
  split
  · exact .fail
  · exact h.bind fun _ _ => .pure trivial

/-- The rules inside a rule are compiled without touching the first `n` places. -/
structure InnerRules.Keeping (n : Nat) (inner : InnerRules) : Prop where
  captures : ∀ x ∈ inner.captures, Keeps n x Any
  beginCaptures : ∀ x ∈ inner.beginCaptures, Keeps n x Any
  endCaptures : ∀ x ∈ inner.endCaptures, Keeps n x Any
  whileCaptures : ∀ x ∈ inner.whileCaptures, Keeps n x Any
  patterns : Keeps n inner.patterns Any

theorem InnerRules.Keeping.orCaptures {inner : InnerRules} (h : inner.Keeping n)
    {kind : Option (Compiling CaptureRules)} (hkind : ∀ x ∈ kind, Keeps n x Any) :
    Keeps n (inner.orCaptures kind) Any := by
  unfold InnerRules.orCaptures
  cases kind with
  | some x => exact hkind x rfl
  | none =>
    cases hc : inner.captures with
    | some x => exact h.captures x hc
    | none => exact .pure trivial

theorem buildRegion_keeps {raw : RawRule} {inner : InnerRules} {start : String} {ids : List RuleId}
    (h : inner.Keeping n) : Keeps n (buildRegion raw inner start ids) Any := by
  unfold buildRegion
  refine (h.orCaptures h.beginCaptures).bind fun _ _ => (Keeps.lift _).bind fun _ _ => ?_
  split
  · refine compileEnd_keeps.bind fun _ _ => ?_
    exact (h.orCaptures h.whileCaptures).bind fun _ _ => .pure trivial
  · refine compileEnd_keeps.bind fun _ _ => ?_
    exact (h.orCaptures h.endCaptures).bind fun _ _ => .pure trivial

theorem buildBody_keeps {chain : Chain} {raw : RawRule} {inner : InnerRules} (h : inner.Keeping n) :
    Keeps n (buildBody own chain raw inner) Any := by
  unfold buildBody
  split
  · exact resolveInclude_keeps.bind fun _ _ => .pure trivial
  · exact (Keeps.lift _).bind fun _ _ => (h.orCaptures (by simp)).bind fun _ _ => .pure trivial
  · refine h.patterns.bind fun _ _ => ?_
    split
    · exact buildRegion_keeps h
    · split
      · exact .fail
      · exact .pure trivial

mutual

theorem buildRule_keeps (chain : Chain) : ∀ raw : RawRule, Keeps n (buildRule own chain raw) Any
  | ⟨_, _, _, _, _, _, _, captures, beginCaptures, endCaptures, whileCaptures, patterns, repository,
      _, _⟩ => by
    unfold buildRule
    refine (compileRepository_keeps chain repository).bind fun chain _ => buildBody_keeps ?_
    exact ⟨compileCaptures?_keeps chain captures, compileCaptures?_keeps chain beginCaptures,
      compileCaptures?_keeps chain endCaptures, compileCaptures?_keeps chain whileCaptures,
      compilePatterns?_keeps chain patterns⟩

theorem compileRepository_keeps (chain : Chain) : ∀ repository : Option (List (String × RawRule)),
    Keeps n (compileRepository own chain repository) Any
  | some (e :: es) => by
    unfold compileRepository
    exact (Keeps.reserveAll _).bind fun ids hids =>
      (compileEntries_keeps (ids :: chain) (e :: es) ids hids).bind fun _ _ => .pure trivial
  | some [] => by
    unfold compileRepository
    exact .pure trivial
  | none => by
    unfold compileRepository
    exact .pure trivial

theorem compileCaptures?_keeps (chain : Chain) : ∀ captures : Option (List (Nat × RawRule)),
    ∀ x ∈ compileCaptures? own chain captures, Keeps n x Any
  | some cs => by
    unfold compileCaptures?
    intro x hx
    cases hx
    exact compileCaptures_keeps (compileNumbered_keeps chain cs)
  | none => by
    unfold compileCaptures?
    simp

theorem compilePatterns?_keeps (chain : Chain) : ∀ patterns : Option (List RawRule),
    Keeps n (compilePatterns? own chain patterns) Any
  | some raws => by
    unfold compilePatterns?
    exact compilePatterns_keeps chain raws
  | none => by
    unfold compilePatterns?
    exact .pure trivial

theorem compileEntries_keeps (chain : Chain) : ∀ (es : List (String × RawRule)) (ids : Repository),
    (∀ e ∈ ids, n ≤ e.2) → Keeps n (compileEntries own chain es ids) Any
  | (_, raw) :: es, (_, id) :: ids, h => by
    unfold compileEntries
    exact (buildRule_keeps chain raw).bind fun _ _ =>
      (Keeps.fill (h _ List.mem_cons_self)).bind fun _ _ =>
        compileEntries_keeps chain es ids fun e he => h e (List.mem_cons_of_mem _ he)
  | [], _, _ => by
    unfold compileEntries
    exact .pure trivial
  | _ :: _, [], _ => by
    unfold compileEntries
    exact .pure trivial

theorem compilePatterns_keeps (chain : Chain) : ∀ raws : List RawRule,
    Keeps n (compilePatterns own chain raws) Any
  | [] => by
    unfold compilePatterns
    exact .pure trivial
  | raw :: raws => by
    unfold compilePatterns
    split
    · exact compilePatterns_keeps chain raws
    · exact (Keeps.place (buildRule_keeps chain raw)).bind fun _ _ =>
        (compilePatterns_keeps chain raws).bind fun _ _ => .pure trivial

theorem compileNumbered_keeps (chain : Chain) : ∀ cs : List (Nat × RawRule),
    Keeps n (compileNumbered own chain cs) Any
  | [] => by
    unfold compileNumbered
    exact .pure trivial
  | (_, raw) :: cs => by
    unfold compileNumbered
    exact (Keeps.place (buildRule_keeps chain raw)).bind fun _ _ =>
      (compileNumbered_keeps chain cs).bind fun _ _ => .pure trivial

end

theorem compileInjections_keeps (chain : Chain) : ∀ injections : List (String × RawRule),
    Keeps n (compileInjections own chain injections) Any
  | [] => .pure trivial
  | (_, raw) :: rest => (Keeps.place (buildRule_keeps chain raw)).bind fun _ _ =>
      (compileInjections_keeps chain rest).bind fun _ _ => .pure trivial

end

/-- The root of a compiled grammar is the group of its patterns. -/
theorem compile_root {raw : RawGrammar} {d : CompiledGrammar}
    (h : CompiledGrammar.compile raw = .ok d) : ∃ rule, d.rule? d.root = some (.group rule) := by
  unfold CompiledGrammar.compile at h
  split at h
  · cases h
  · rename_i ids root injections draft hall
    cases h
    unfold compileAll at hall
    obtain ⟨_, _, _, hall⟩ := Compiling.bind_eq_ok.1 hall
    obtain ⟨_, d₁, _, hall⟩ := Compiling.bind_eq_ok.1 hall
    obtain ⟨_, _, hroot, hall⟩ := Compiling.bind_eq_ok.1 hall
    obtain ⟨patterns, d₂, hpatterns, hall⟩ := Compiling.bind_eq_ok.1 hall
    obtain ⟨_, _, hfill, hall⟩ := Compiling.bind_eq_ok.1 hall
    obtain ⟨_, _, hinjections, hall⟩ := Compiling.bind_eq_ok.1 hall
    cases hall
    cases hfill
    cases hroot
    refine ⟨⟨none, none, patterns⟩, ?_⟩
    -- the place of the root is in the table before the patterns are, and injections come after it
    have hsize : d₁.rules.size < d₂.rules.size := by
      have hgrow := (compilePatterns_keeps _ _ _ _ _ (Nat.le_refl _) hpatterns).2.1
      simp only [Array.size_push] at hgrow
      omega
    have hkeep := (compileInjections_keeps _ _ _ _ _ (Nat.le_refl _) hinjections).2.2 d₁.rules.size
      (by simpa only [Array.size_setIfInBounds] using hsize)
    rw [CompiledGrammar.rule?, hkeep]
    exact Array.getElem?_setIfInBounds_self_of_lt hsize

/-! ## Linking -/

/-- A grammar that comes from one as written. -/
def CompiledGrammar.Compiled (d : CompiledGrammar) : Prop :=
  ∃ raw, CompiledGrammar.compile raw = .ok d

namespace Grammar

/-- A grammar that linking makes of compiled grammars. -/
def Linked (g : Grammar) : Prop :=
  ∃ root documents injectors, root.Compiled ∧ (∀ d ∈ documents, CompiledGrammar.Compiled d) ∧
    link root documents injectors = .ok g

theorem link_scopeName {root : CompiledGrammar} {documents : List CompiledGrammar}
    {injectors : List ScopeName} {g : Grammar} (h : link root documents injectors = .ok g) :
    g.scopeName = root.scopeName ∧ g.document? g.scopeName = some root := by
  simp only [link] at h
  obtain ⟨_, _, h⟩ := Except.bind_eq_ok.1 h
  obtain ⟨_, _, h⟩ := Except.bind_eq_ok.1 h
  cases h
  refine ⟨rfl, ?_⟩
  simp only [document?, List.foldl_append, List.foldl_cons, List.foldl_nil]
  exact Value.lookup_put_self _ _ _

/-- A linked grammar has a root, which is a group. -/
theorem Linked.root {g : Grammar} (h : g.Linked) :
    ∃ r rule, g.root? g.scopeName = some r ∧ g.rule? r = some (.group rule) := by
  obtain ⟨d, documents, injectors, ⟨raw, hraw⟩, _, hlink⟩ := h
  obtain ⟨_, hd⟩ := link_scopeName hlink
  obtain ⟨rule, hrule⟩ := compile_root hraw
  refine ⟨⟨g.scopeName, d.root⟩, rule, ?_, ?_⟩
  · rw [root?, hd]
    rfl
  · rw [rule?, hd]
    exact hrule

/-- The grammar of one document, which refers to no other and into which nothing is injected. -/
def ofSource (raw : RawGrammar) : Except GrammarError Grammar := do
  link (← CompiledGrammar.compile raw) [] []

theorem linked_of_ofSource {raw : RawGrammar} {g : Grammar} (h : (ofSource raw).toOption = some g) :
    g.Linked := by
  cases hg : ofSource raw with
  | error e =>
    rw [hg] at h
    cases h
  | ok g' =>
    rw [hg] at h
    cases h
    obtain ⟨root, hroot, hlink⟩ := Except.bind_eq_ok.1 hg
    exact ⟨root, [], [], ⟨raw, hroot⟩, by simp, hlink⟩

end Grammar

/-! ## A grammar -/

/-- Strings between two quotation marks of the same kind. -/
def quotesSource : RawGrammar :=
  { (default : RawGrammar) with
    scopeName := "source.quotes"
    patterns := [{ (default : RawRule) with
      name := some "string"
      beginSource := some "([\"'])"
      endSource := some "\\1" }] }

theorem quotesSource_links : (Grammar.ofSource quotesSource).toOption.isSome := by decide +kernel

/-- The grammar of strings. -/
def quotes : Grammar := (Grammar.ofSource quotesSource).toOption.get quotesSource_links

theorem quotes_linked : quotes.Linked :=
  Grammar.linked_of_ofSource (Option.some_get quotesSource_links).symm

end Highlight
