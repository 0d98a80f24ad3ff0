import Highlight.Proofs.EnabledRules
import Highlight.Proofs.LineErrors
import Highlight.Proofs.LineVisits
import Highlight.Proofs.LinkedDocuments

/-!
# The rules that take part

`Scan.Uses` says that a rule takes part at a state of a scan: it matches, its region is open, or it is
applied to a captured text. Whatever takes part is a rule of the grammar (`KnownAt.uses`), because a
line starts with regions of the grammar and no step opens another. In the table of a compiled
grammar, every rule is one that is written in the grammar without its disabled rules; so no other
rule ever takes part (`used_rule_enabled`). But the mark of a rule counts in lists of patterns only:
`letters_ignore_marks`.
-/

namespace Highlight

namespace Scan

/-- A rule takes part at a state. -/
inductive Uses (w : Scan) (s : ScanState) (task : Task) (r : RuleRef) : Prop
  /-- It is the rule of an open region. -/
  | isOpen {f : Frame} (hf : f ∈ s.stack) (hr : f.rule = r)
  /-- It matches next. -/
  | found {m : Match} (htask : task = .matching)
      (hm : (w.place s).nextMatch w.grammar s.stack = .ok (some (.rule r, m)))
  /-- It is applied to a captured text. -/
  | captured {stack : RuleStack} {owner : RuleRef} {rules : CaptureRules} {m : Match} {id : RuleId}
      {span : Span} (h : w.Resolves s task stack owner rules m)
      (hmem : (some id, some span) ∈ rules.zip m.groups) (hr : r = ⟨owner.grammar, id⟩) :
      Uses w s task r

end Scan

namespace Grammar

open Scan (Task)

variable {g : Grammar} {levels n : Nat} {line : String} {stack : RuleStack} {w : Scan}
  {s : ScanState} {task : Task}

/-- The rules of the regions are rules of the grammar. -/
def Known (g : Grammar) (stack : RuleStack) : Prop := ∀ f ∈ stack, ∃ rule, g.rule? f.rule = some rule

/-- The regions at a state are known, and those that are searched for are regions that last while
their pattern matches. -/
structure KnownAt (g : Grammar) (s : ScanState) (task : Task) : Prop where
  stack : g.Known s.stack
  lasting : ∀ cs, task = .lasting cs → ∀ c ∈ cs,
    c.frame :: c.below <:+ s.stack ∧ g.rule? c.frame.rule = some (.beginWhile c.rule)

theorem Known.suffix {stack' : RuleStack} (h : g.Known stack) (hsuffix : stack' <:+ stack) :
    g.Known stack' := fun f hf => h f (hsuffix.subset hf)

theorem Known.push (h : g.Known stack) {f : Frame} {rule : Rule} (hrule : g.rule? f.rule = some rule) :
    g.Known (stack.push f) :=
  List.forall_mem_cons.2 ⟨⟨rule, hrule⟩, h⟩

theorem exists_rule_of_region {r : RuleRef} {region : Rule.Region} (h : g.region? r = some region) :
    ∃ rule, g.rule? r = some rule ∧ rule.region? = some region := Option.bind_eq_some_iff.1 h

theorem known_startStack (hg : g.Linked) (hs : g.Reached stack) {start : RuleStack}
    (h : g.startStack stack = .ok start) : g.Known start := by
  intro f hf
  have hopened := (startStack_atLineEnd (hs.atLineEnd hg) h).opened
  rcases opened_frame hopened f hf with hroot | ⟨region, hregion, _⟩
  · obtain ⟨rule, hrule⟩ := rule?_of_isRoot hg hroot
    exact ⟨_, hrule⟩
  · obtain ⟨rule, hrule, _⟩ := exists_rule_of_region hregion
    exact ⟨rule, hrule⟩

/-- The rule whose captures are applied has them, and the stack for them is known. -/
theorem KnownAt.resolves (hw : w.grammar = g) (h : g.KnownAt s task) {owner : RuleRef}
    {rules : CaptureRules} {m : Match} (hresolves : w.Resolves s task stack owner rules m) :
    g.Known stack ∧
      ∃ rule, g.rule? owner = some rule ∧ CaptureRules.places rules ⊆ rule.captured := by
  subst hw
  cases hresolves with
  | @lasting c cs p _ hp hm =>
    obtain ⟨hsuffix, hrule⟩ := h.lasting _ rfl c List.mem_cons_self
    exact ⟨h.stack.suffix hsuffix, _, hrule, List.subset_append_right _ _⟩
  | @ending f below rule _ hm hstack hrule =>
    have hknown := h.stack
    rw [hstack] at hknown
    exact ⟨List.forall_mem_cons.2 ⟨⟨_, hrule⟩, (List.forall_mem_cons.1 hknown).2⟩, _, hrule,
      List.subset_append_right _ _⟩
  | matched hm hrule => exact ⟨h.stack.push hrule, _, hrule, List.Subset.refl _⟩
  | opening hm hregion =>
    obtain ⟨rule, hrule, hregion⟩ := exists_rule_of_region hregion
    refine ⟨h.stack.push hrule, rule, hrule, ?_⟩
    cases rule with
    | beginEnd rule | beginWhile rule =>
      cases hregion
      exact List.subset_append_left _ _
    | matching _ | group _ | inclusion _ => cases hregion

theorem KnownAt.step (hw : w.grammar = g) (h : g.KnownAt s task) {s' : ScanState}
    (hstep : w.step s = .ok (.more s')) : g.Known s'.stack := by
  subst hw
  obtain ⟨c, m, t, _, happ, _, hstack⟩ := Scan.step_more hstep
  rw [hstack]
  cases happ with
  | ended hs =>
    refine h.stack.suffix ?_
    rw [hs]
    exact List.suffix_cons _ _
  | matched => exact h.stack
  | opened hregion =>
    obtain ⟨rule, hrule, _⟩ := exists_rule_of_region hregion
    exact h.stack.push hrule

theorem KnownAt.goes (hw : w.grammar = g) (h : g.KnownAt s task) {s' : ScanState} {task' : Task}
    (hgoes : w.Goes s task s' task') : g.KnownAt s' task' := by
  cases hgoes with
  | @left c =>
    obtain ⟨hsuffix, _⟩ := h.lasting _ rfl c List.mem_cons_self
    exact ⟨h.stack.suffix ((List.suffix_cons _ _).trans hsuffix), fun _ heq => by cases heq⟩
  | lasts =>
    refine ⟨h.stack, fun cs heq c hc => ?_⟩
    cases heq
    exact h.lasting _ rfl c (List.mem_cons_of_mem _ hc)
  | entered => exact ⟨h.stack, fun _ heq => by cases heq⟩
  | steps hstep => exact ⟨h.step hw hstep, fun _ heq => by cases heq⟩

theorem Visits.known (hg : g.Linked) (hs : g.Reached stack)
    (h : g.Visits levels line stack n w s task) : g.KnownAt s task := by
  induction h with
  | start hstart hcs =>
    refine ⟨known_startStack hg hs hstart, fun cs heq c hc => ?_⟩
    cases heq
    exact Scan.mem_continued hcs c hc
  | goes h hgoes ih => exact ih.goes h.grammar hgoes
  | captured h hasks _ ih =>
    cases hasks with
    | captured hresolves _ _ hrule =>
      have hw := h.grammar
      obtain ⟨hknown, _⟩ := ih.resolves hw hresolves
      rw [hw] at hrule
      exact ⟨hknown.push hrule, fun _ heq => by cases heq⟩

/-- What takes part is a rule of the grammar. -/
theorem KnownAt.uses (hg : g.Linked) (hw : w.grammar = g) (h : g.KnownAt s task) {r : RuleRef}
    (huses : w.Uses s task r) : ∃ rule, g.rule? r = some rule := by
  subst hw
  cases huses with
  | isOpen hf hr =>
    rw [← hr]
    exact h.stack _ hf
  | found _ hm =>
    cases hstack : s.stack with
    | nil =>
      rw [hstack] at hm
      cases hm
    | cons f below =>
      rw [hstack] at hm
      rcases Place.nextMatch_candidate hm with ⟨heq, _⟩ | ⟨r', heq, happ⟩
      · cases heq
      · cases heq
        obtain ⟨rule, _, hrule, _⟩ := happ.rule?
        exact ⟨rule, hrule⟩
  | captured hresolves hmem hr =>
    obtain ⟨_, rule, hrule, hplaces⟩ := h.resolves rfl hresolves
    rw [hr]
    have hid := CaptureRules.mem_places.2 (List.of_mem_zip hmem).1
    exact hg.rule?_place hrule (rule.captured_subset_places (hplaces hid))

/-- A rule of the table of a compiled grammar is one that is written. -/
theorem exists_site {raw : RawGrammar} (hkeyed : raw.Keyed) {d : CompiledGrammar}
    (hd : CompiledGrammar.compile raw = .ok d) {id : RuleId} {rule : Rule}
    (hrule : d.rule? id = some rule) : ∃ p written, raw.rule? p = some written ∧
      raw.place p = id ∧ raw.Means raw.place p written rule := by
  have hrenders := RawGrammar.compile_renders hkeyed hd
  obtain ⟨hlt, _⟩ := Array.getElem?_eq_some_iff.1 hrule
  obtain ⟨p, hp, hplace⟩ := hrenders.onto id hlt
  obtain ⟨written, hwritten⟩ := Option.isSome_iff_exists.1 hp
  obtain ⟨rule', hrule', hmeans⟩ := hrenders.rule p written hwritten
  rw [hplace, hrule] at hrule'
  cases hrule'
  exact ⟨p, written, hwritten, hplace, hmeans⟩

/-- Disabled rules of lists of patterns take no part. On every line of a text, in the scan of the
line and in those of captured texts, a rule that takes part comes from a document which, from
whatever grammar it is compiled, is compiled from that grammar without such rules as well; and the
rule is what is written at a place there. -/
theorem used_rule_enabled (hg : g.Linked) {before : List String} {r : RuleRef}
    (h : g.Visits levels line (g.stackAfter levels before) n w s task) (huses : w.Uses s task r) :
    ∃ d rule, g.document? r.grammar = some d ∧ d.rule? r.rule = some rule ∧
      ∀ raw : RawGrammar, raw.Keyed → CompiledGrammar.compile raw = .ok d →
        CompiledGrammar.compile raw.enabled = .ok d ∧
        ∃ p written, raw.enabled.rule? p = some written ∧ written.disabled = none ∧
          raw.enabled.place p = r.rule ∧ raw.enabled.Means raw.enabled.place p written rule := by
  have hknown := h.known hg (reached_stackAfter g levels before)
  obtain ⟨rule, hrule⟩ := hknown.uses hg h.grammar huses
  obtain ⟨d, hd, hplace⟩ := Option.bind_eq_some_iff.1 hrule
  refine ⟨d, rule, hd, hplace, fun raw hkeyed hraw => ?_⟩
  have henabled : CompiledGrammar.compile raw.enabled = .ok d := raw.compile_enabled.trans hraw
  obtain ⟨p, written, hwritten, hp, hmeans⟩ := exists_site hkeyed.enabled henabled hplace
  exact ⟨henabled, p, written, hwritten, RawGrammar.not_disabled hwritten, hp, hmeans⟩

/-! ### Letters with marks -/

/-- Letters whose rules are disabled: one is an entry that is included, one a capture, one injected
and one a rule of a list. -/
def markedLettersValue : Value := .dict [
  (.text "scopeName", .text "source.t"),
  (.text "repository", .dict [
    (.text "r", .dict [(.text "match", .text "a"), (.text "name", .text "n"),
      (.text "disabled", .bool true)])]),
  (.text "injections", .dict [
    (.text "source.t", .dict [(.text "match", .text "c"), (.text "name", .text "n"),
      (.text "disabled", .bool true)])]),
  (.text "patterns", .list [
    .dict [(.text "include", .text "#r")],
    .dict [(.text "match", .text "(b)"), (.text "captures", .dict [
      (.text "1", .dict [(.text "name", .text "n"), (.text "disabled", .bool true)])])],
    .dict [(.text "match", .text "d"), (.text "name", .text "n"),
      (.text "disabled", .bool true)]])]

theorem markedLettersValue_read : (RawGrammar.read? ⟨8, false⟩ markedLettersValue).isSome := by
  decide +kernel

/-- The grammar of letters as written. -/
def markedLettersSource : RawGrammar :=
  (RawGrammar.read? ⟨8, false⟩ markedLettersValue).get markedLettersValue_read

theorem markedLettersSource_keyed : markedLettersSource.Keyed :=
  RawGrammar.keyed_of_read? (Option.some_get markedLettersValue_read).symm

theorem markedLettersSource_links : (ofSource markedLettersSource).toOption.isSome := by
  decide +kernel

/-- The grammar of letters. -/
def markedLetters : Grammar := (ofSource markedLettersSource).toOption.get markedLettersSource_links

theorem markedLetters_linked : markedLetters.Linked :=
  linked_of_ofSource (Option.some_get markedLettersSource_links).symm

theorem document_of_ofSource {raw : RawGrammar} (h : (ofSource raw).toOption = some g) :
    ∃ d, g.document? g.scopeName = some d ∧ CompiledGrammar.compile raw = .ok d := by
  obtain ⟨d, hd, hlink⟩ := Except.bind_eq_ok.1 (Except.eq_ok_of_toOption h)
  exact ⟨d, (link_scopeName hlink).2, hd⟩

/-- Whether the rule matches next. -/
def ruleNext (w : Scan) (s : ScanState) (r : RuleRef) : Bool :=
  match (w.place s).nextMatch w.grammar s.stack with
  | .ok (some (.rule r', _)) => r' == r
  | _ => false

theorem uses_of_ruleNext {r : RuleRef} (h : ruleNext w s r = true) : w.Uses s .matching r := by
  unfold ruleNext at h
  split at h
  · next hm =>
    rw [beq_iff_eq] at h
    subst h
    exact .found rfl hm
  · cases h

/-- The state before the letters. -/
def beforeLetters : ScanState :=
  ScanState.atLineStart
    ⟨markedLetters.rootStack.toOption.get (by decide +kernel), 0, none, true, .empty⟩

theorem visits_beforeLetters : markedLetters.Visits 1 "abcd" (markedLetters.stackAfter 1 []) 1
    (markedLetters.lineScan 1 "abcd") beforeLetters .matching :=
  visits_first markedLetters_linked (Except.eq_ok_of_toOption (Option.some_get _).symm) 1 "abcd"

theorem uses_beforeLetters :
    (markedLetters.lineScan 1 "abcd").Uses beforeLetters .matching ⟨"source.t", 0⟩ :=
  uses_of_ruleNext (by decide +kernel)

theorem markedLetters_document : ∃ d, markedLetters.document? "source.t" = some d ∧
    CompiledGrammar.compile markedLettersSource = .ok d := by
  have hname : markedLetters.scopeName = "source.t" := by decide +kernel
  rw [← hname]
  exact document_of_ofSource (Option.some_get markedLettersSource_links).symm

/-- What takes part at the first letter is written in the grammar without disabled rules. -/
theorem used_rule_enabled_markedLetters :
    markedLetters.Visits 1 "abcd" (markedLetters.stackAfter 1 []) 1
      (markedLetters.lineScan 1 "abcd") beforeLetters .matching ∧
    (markedLetters.lineScan 1 "abcd").Uses beforeLetters .matching ⟨"source.t", 0⟩ ∧
    markedLettersSource.Keyed ∧ ∃ d, CompiledGrammar.compile markedLettersSource = .ok d ∧
      CompiledGrammar.compile markedLettersSource.enabled = .ok d ∧
      ∃ p written, markedLettersSource.enabled.rule? p = some written ∧ written.disabled = none ∧
        markedLettersSource.enabled.place p = 0 := by
  refine ⟨visits_beforeLetters, uses_beforeLetters, markedLettersSource_keyed, ?_⟩
  obtain ⟨d, rule, hd, _, hall⟩ :=
    used_rule_enabled markedLetters_linked visits_beforeLetters uses_beforeLetters
  obtain ⟨d', hd', hcompile⟩ := markedLetters_document
  cases hd.symm.trans hd'
  obtain ⟨henabled, p, written, hwritten, hnone, hp, _⟩ :=
    hall markedLettersSource markedLettersSource_keyed hcompile
  exact ⟨d, hcompile, henabled, p, written, hwritten, hnone, hp⟩

/-- The first letter matches with the rule of an entry that is disabled, the next two with rules that
are disabled and stand elsewhere than in a list, and the last one not at all. -/
theorem letters_ignore_marks : markedLetters.Linked ∧ markedLettersSource.Keyed ∧
    (∃ d written, markedLetters.document? "source.t" = some d ∧
      CompiledGrammar.compile markedLettersSource = .ok d ∧
      markedLettersSource.rule? [.entry "r"] = some written ∧ written.disabled = some true ∧
      markedLettersSource.place [.entry "r"] = 0) ∧
    markedLetters.Visits 1 "abcd" (markedLetters.stackAfter 1 []) 1
      (markedLetters.lineScan 1 "abcd") beforeLetters .matching ∧
    (markedLetters.lineScan 1 "abcd").Uses beforeLetters .matching ⟨"source.t", 0⟩ ∧
    (markedLetters.tokenizeLinesWithin 1 .initial ["abcd"]).map (·.tokens) =
      [[⟨0, 1, ["source.t", "n"]⟩, ⟨1, 2, ["source.t", "n"]⟩, ⟨2, 3, ["source.t", "n"]⟩,
        ⟨3, 4, ["source.t"]⟩]] := by
  refine ⟨markedLetters_linked, markedLettersSource_keyed, ?_, visits_beforeLetters,
    uses_beforeLetters, by decide +kernel⟩
  obtain ⟨d, hd, hcompile⟩ := markedLetters_document
  have hdisabled : (markedLettersSource.rule? [.entry "r"]).bind (·.disabled) = some true := by
    decide +kernel
  obtain ⟨written, hwritten, hmark⟩ := Option.bind_eq_some_iff.1 hdisabled
  exact ⟨d, written, hd, hcompile, hwritten, hmark, by decide +kernel⟩

end Grammar

end Highlight
