import Highlight.Proofs.SelectorText

/-!
# Separators of alternatives

Alternatives stand between bars or commas. `IsConjunction` says of a text that it is made of
names, exclusions and groups, each of which is complete.

1. Such a text is read as a whole whatever comes behind it, as long as no name does
   (`WellFormed.reads`).
2. `covers_separated`: so in parentheses a path is covered by two such texts between which a bar or
   a comma stands if and only if it is covered by one of them, and a comma does the same outside of
   parentheses.
3. `bar_loses_alternative`: outside of parentheses a bar does not. Nothing behind it is read.
-/

namespace Highlight

namespace ScopeCondition

theorem anyHolds_eq (path : ScopePath) (cs : List ScopeCondition) :
    holds.anyHolds path cs = cs.any (·.holds path) := by
  induction cs with
  | nil => rfl
  | cons c cs ih => rw [holds.anyHolds, ih, List.any_cons]

theorem allHold_eq (path : ScopePath) (cs : List ScopeCondition) :
    holds.allHold path cs = cs.all (·.holds path) := by
  induction cs with
  | nil => rfl
  | cons c cs ih => rw [holds.allHold, ih, List.all_cons]

end ScopeCondition

namespace Selector

open ScopeCondition (anyHolds_eq allHold_eq)

/-! ## Conditions that are joined -/

/-- Conditions that all must hold come to one that does when they do. -/
theorem exists_combine_all (c : ScopeCondition) (cs : List ScopeCondition) :
    ∃ d, combine .all (c :: cs) = some d ∧
      ∀ path, d.holds path = (c :: cs).all (·.holds path) := by
  cases cs with
  | nil => exact ⟨c, rfl, fun path => by simp⟩
  | cons c' cs => exact ⟨_, rfl, fun path => allHold_eq path _⟩

/-- Conditions of which one must hold come to one that does when one of them does. -/
theorem exists_combine_any (c : ScopeCondition) (cs : List ScopeCondition) :
    ∃ d, combine .any (c :: cs) = some d ∧
      ∀ path, d.holds path = (c :: cs).any (·.holds path) := by
  cases cs with
  | nil => exact ⟨c, rfl, fun path => by simp⟩
  | cons c' cs => exact ⟨_, rfl, fun path => anyHolds_eq path _⟩

theorem covers_eq_any (s : Selector) (path : ScopePath) :
    s.covers path = s.alternatives.any (·.condition.holds path) := by
  rw [covers, priority?, Option.isSome_map, List.isSome_find?]

/-! ## Tokens of texts side by side -/

/-- What has been read of a word is a token where the text breaks off. -/
theorem tokensFrom_append {rest : List Char} (hrest : Breaks rest) (cs word : List Char) :
    tokensFrom word (cs ++ rest) = tokensFrom word cs ++ tokensFrom [] rest := by
  induction cs generalizing word with
  | nil =>
    by_cases hword : word = []
    · subst hword
      rfl
    · rw [List.nil_append, tokensFrom_break hword hrest, tokensFrom,
        List.isEmpty_eq_false_iff.2 hword]
      rfl
  | cons c cs ih =>
    rw [List.cons_append, tokensFrom, tokensFrom]
    dsimp only
    split
    · rw [ih]
      split <;> rfl
    · split
      · rw [ih]
        split <;> rfl
      · split
        · rw [ih, List.cons_append]
        · exact ih _

/-- A text falls into its tokens, whatever follows it that does not go on with its last word. -/
theorem lexes_tokens (text : String) : Lexes text.toList (tokens text) :=
  fun _ hrest => tokensFrom_append hrest text.toList []

theorem tokens_separated (separator : String) {ts : List String}
    (h : Separates separator.toList ts) (a b : String) :
    tokens (a ++ separator ++ b) = tokens a ++ ts ++ tokens b := by
  rw [tokens, String.toList_append, String.toList_append, List.append_assoc,
    lexes_tokens a _ (h.breaks _), h.tokens, List.append_assoc]
  rfl

theorem tokens_inParentheses (text : String) :
    tokens (inParentheses text) = grouped (tokens text) := by
  have h := (lexes_tokens text).grouped [] (fun _ h => by cases h)
  rwa [List.append_nil, show tokensFrom [] [] = [] from rfl, List.append_nil] at h

/-! ## Complete texts -/

/-- The tokens of conditions side by side, or of choices between bars and commas, where nothing is
missing: every exclusion excludes something, and every group holds something and is closed. -/
inductive WellFormed : Phrase → List String → Prop
  | name {t : String} (ht : isName t = true) : WellFormed .operands [t]
  | names {t : String} {ts : List String} (ht : isName t = true) (h : WellFormed .operands ts) :
      WellFormed .operands (t :: ts)
  | excluding {ts : List String} (h : WellFormed .operands ts) : WellFormed .operands ("-" :: ts)
  | group {ts : List String} (h : WellFormed .choices ts) : WellFormed .operands (grouped ts)
  | groups {ts ts' : List String} (h : WellFormed .choices ts) (hmore : WellFormed .operands ts') :
      WellFormed .operands (grouped ts ++ ts')
  | choice {ts : List String} (h : WellFormed .operands ts) : WellFormed .choices ts
  | choices {t : String} {ts ts' : List String} (h : WellFormed .operands ts)
      (ht : t = "|" ∨ t = ",") (hmore : WellFormed .choices ts') :
      WellFormed .choices (ts ++ t :: ts')

/-- A text of names, exclusions and groups without a mark. -/
def IsConjunction (text : String) : Prop := WellFormed .operands (tokens text)

/-- No name comes next. -/
def StartsNoName (rest : List String) : Prop := ∀ t ∈ rest.head?, isName t = false

/-- The tokens are read as the conditions up to where a phrase can end. Behind conditions side by
side, other conditions can follow unless they go on with the names of a path. -/
def ReadsWhole : Phrase → List String → List ScopeCondition → Prop
  | .operand, _, _ => False
  | .operands, ts, cs => ∀ rest more rest', StartsNoName rest → Reads .operands rest more rest' →
      Reads .operands (ts ++ rest) (cs ++ more) rest'
  | .choices, ts, cs => ∀ rest, Reads .choices (ts ++ ")" :: rest) cs (")" :: rest)

theorem Closes.startsNoName {rest : List String} (h : Closes rest) : StartsNoName rest :=
  h.not_isName

/-- Conditions side by side are read up to where no condition goes on. -/
theorem ReadsWhole.reads {ts : List String} {cs : List ScopeCondition}
    (h : ReadsWhole .operands ts cs) {rest : List String} (hrest : Closes rest) :
    Reads .operands (ts ++ rest) cs rest := by
  have hreads := h rest [] rest hrest.startsNoName hrest.reads.stop
  rwa [List.append_nil] at hreads

theorem ReadsWhole.reads_nil {ts : List String} {cs : List ScopeCondition}
    (h : ReadsWhole .operands ts cs) : Reads .operands ts cs [] := by
  have hnothing : Closes [] := fun _ h => by cases h
  have hreads := h.reads hnothing
  rwa [List.append_nil] at hreads

/-- Tokens that begin with a condition have no mark. -/
theorem Reads.marked {ts rest : List String} {c : ScopeCondition} {cs : List ScopeCondition}
    (h : Reads .operands ts (c :: cs) rest) : Marked ts .normal ts := by
  obtain ⟨t, ts', rfl, hbefore, hafter⟩ := h.begins (by simp) (List.cons_ne_nil c cs)
  exact .normal hbefore hafter

theorem closes_cons {t : String} (ht : t = ")" ∨ t = "|" ∨ t = ",") (rest : List String) :
    Closes (t :: rest) := by
  intro t' ht'
  cases ht'
  exact ht

/-- A name in front of conditions is a path of its own, or one name more of the path that comes
first. -/
theorem ReadsWhole.names {t : String} {ts : List String} {c : ScopeCondition}
    {cs : List ScopeCondition} (ht : isName t = true) (hne : ts ≠ [])
    (h : ReadsWhole .operands ts (c :: cs)) :
    ∃ c cs, ReadsWhole .operands (t :: ts) (c :: cs) := by
  obtain ⟨n, ns, rfl⟩ := List.exists_cons_of_ne_nil hne
  cases hn : isName n with
  | false =>
    refine ⟨.path [t], c :: cs, fun rest more rest' hrest hmore => ?_⟩
    have hpath : Reads .operand (t :: (n :: ns ++ rest))
        [.path (t :: (spanNames (n :: ns ++ rest)).1)] (spanNames (n :: ns ++ rest)).2 := .path ht
    rw [List.cons_append, spanNames, hn, if_neg Bool.false_ne_true] at hpath
    exact hpath.more (h rest more rest' hrest hmore)
  | true =>
    -- the condition that comes first is a path, whatever follows
    have hfirst : ∀ rest more rest', Reads .operands (n :: ns ++ rest) (c :: cs ++ more) rest' →
        c = .path (n :: (spanNames (ns ++ rest)).1) ∧
          Reads .operands (spanNames (ns ++ rest)).2 (cs ++ more) rest' := by
      intro rest more rest' hreads
      cases hreads with
      | more hoperand hmore =>
        have hpath : Reads .operand (n :: (ns ++ rest)) [.path (n :: (spanNames (ns ++ rest)).1)]
            (spanNames (ns ++ rest)).2 := .path hn
        obtain ⟨heq, hrest⟩ := hoperand.unique hpath
        cases heq
        subst hrest
        exact ⟨rfl, hmore⟩
    have hnothing : StartsNoName [] := fun _ h => by cases h
    obtain ⟨hc, _⟩ := hfirst [] [] [] (h [] [] [] hnothing (.stop .nothing))
    refine ⟨.path (t :: n :: (spanNames (ns ++ [])).1), cs, fun rest more rest' hrest hmore => ?_⟩
    obtain ⟨hc', hbehind⟩ := hfirst rest more rest' (h rest more rest' hrest hmore)
    have hsame : n :: (spanNames (ns ++ rest)).1 = n :: (spanNames (ns ++ [])).1 :=
      ScopeCondition.path.inj (hc'.symm.trans hc)
    have hpath : Reads .operand (t :: (n :: ns ++ rest))
        [.path (t :: (spanNames (n :: ns ++ rest)).1)] (spanNames (n :: ns ++ rest)).2 := .path ht
    rw [List.cons_append, spanNames, hn, if_pos rfl] at hpath
    dsimp only at hpath
    rw [hsame] at hpath
    exact hpath.more hbehind

theorem WellFormed.ne_nil {phrase : Phrase} {ts : List String} (h : WellFormed phrase ts) :
    ts ≠ [] := by
  induction h with
  | name | names | excluding | group | groups => exact List.cons_ne_nil _ _
  | choice _ ih => exact ih
  | choices => simp

/-- The tokens of a group are read as one condition, which holds when one of its choices does. -/
theorem ReadsWhole.group {ts : List String} {c : ScopeCondition} {cs : List ScopeCondition}
    (h : ReadsWhole .choices ts (c :: cs)) : ∃ d,
      (∀ rest, Reads .operand (grouped ts ++ rest) [d] rest) ∧
      ∀ path, d.holds path = (c :: cs).any (·.holds path) := by
  obtain ⟨d, hcombine, hholds⟩ := exists_combine_any c cs
  refine ⟨d, fun rest => ?_, hholds⟩
  have hgroup : Reads .operand ("(" :: (ts ++ ")" :: rest)) (combine .any (c :: cs)).toList rest :=
    .group rfl (h rest)
  rw [hcombine] at hgroup
  rw [grouped_append]
  exact hgroup

/-- Conditions side by side are one choice. -/
theorem ReadsWhole.choice {ts : List String} {c : ScopeCondition} {cs : List ScopeCondition}
    (h : ReadsWhole .operands ts (c :: cs)) : ∃ d, ReadsWhole .choices ts [d] ∧
      ∀ path, d.holds path = (c :: cs).all (·.holds path) := by
  obtain ⟨d, hcombine, hholds⟩ := exists_combine_all c cs
  refine ⟨d, fun rest => ?_, hholds⟩
  have hlast := (h.reads (closes_cons (.inl rfl) rest)).last fun t ht => by cases ht; decide
  rwa [hcombine] at hlast

/-- Conditions side by side before a separator are one choice more. -/
theorem ReadsWhole.choices {t : String} {ts ts' : List String} {c : ScopeCondition}
    {cs more : List ScopeCondition} (h : ReadsWhole .operands ts (c :: cs)) (ht : t = "|" ∨ t = ",")
    (hmore : ReadsWhole .choices ts' more) : ∃ d, ReadsWhole .choices (ts ++ t :: ts') (d :: more) ∧
      ∀ path, d.holds path = (c :: cs).all (·.holds path) := by
  obtain ⟨d, hcombine, hholds⟩ := exists_combine_all c cs
  refine ⟨d, fun rest => ?_, hholds⟩
  have hnext := (h.reads (closes_cons (.inr ht) _)).next ht (hmore rest)
  rw [hcombine] at hnext
  rw [List.append_assoc, List.cons_append]
  exact hnext

/-- Complete tokens are read as a whole, and come to something. -/
theorem WellFormed.reads {phrase : Phrase} {ts : List String} (h : WellFormed phrase ts) :
    ∃ c cs, ReadsWhole phrase ts (c :: cs) := by
  induction h with
  | @name t ht =>
    refine ⟨.path [t], [], fun rest more rest' hrest hmore => ?_⟩
    have hpath : Reads .operand (t :: rest) [.path (t :: (spanNames rest).1)] (spanNames rest).2 :=
      .path ht
    have hspan : spanNames ([] ++ rest) = ([], rest) := spanNames_append hrest nofun
    rw [List.nil_append] at hspan
    rw [hspan] at hpath
    exact hpath.more hmore
  | names ht h ih =>
    obtain ⟨c, cs, hreads⟩ := ih
    exact hreads.names ht h.ne_nil
  | excluding _ ih =>
    obtain ⟨c, cs, hreads⟩ := ih
    refine ⟨.excluding c, cs, fun rest more rest' hrest hmore => ?_⟩
    cases hreads rest more rest' hrest hmore with
    | more hoperand hbehind => exact (Reads.excluding rfl hoperand).more hbehind
  | group _ ih =>
    obtain ⟨c, cs, hreads⟩ := ih
    obtain ⟨d, hgroup, _⟩ := hreads.group
    exact ⟨d, [], fun rest more rest' _ hmore => (hgroup rest).more hmore⟩
  | groups _ _ ih ihmore =>
    obtain ⟨c, cs, hreads⟩ := ih
    obtain ⟨d, hgroup, _⟩ := hreads.group
    obtain ⟨c', cs', hbehind⟩ := ihmore
    refine ⟨d, c' :: cs', fun rest more rest' hrest hmore => ?_⟩
    rw [List.append_assoc]
    exact (hgroup _).more (hbehind rest more rest' hrest hmore)
  | choice _ ih =>
    obtain ⟨c, cs, hreads⟩ := ih
    obtain ⟨d, hchoice, _⟩ := hreads.choice
    exact ⟨d, [], hchoice⟩
  | choices _ ht _ ih ihmore =>
    obtain ⟨c, cs, hreads⟩ := ih
    obtain ⟨c', cs', hmore⟩ := ihmore
    obtain ⟨d, hchoices, _⟩ := hreads.choices ht hmore
    exact ⟨d, c' :: cs', hchoices⟩

/-! ## Covered paths -/

/-- Where a phrase is read first, and no comma follows, the selector has no other alternative. -/
theorem alternatives_of_reads {source : String} {c : ScopeCondition} {cs : List ScopeCondition}
    {rest : List String} (h : Reads .operands (tokens source) (c :: cs) rest)
    (hrest : rest.head? ≠ some ",") : ∃ d, (parse source).alternatives = [⟨.normal, d⟩] ∧
      combine .all (c :: cs) = some d ∧ ∀ path, d.holds path = (c :: cs).all (·.holds path) := by
  obtain ⟨d, hcombine, hholds⟩ := exists_combine_all c cs
  have hlast := ReadsAlternatives.last h.marked h hrest
  rw [readsAlternatives_iff, hcombine] at hlast
  exact ⟨d, hlast.symm, hcombine, hholds⟩

theorem covers_of_reads {source : String} {c : ScopeCondition} {cs : List ScopeCondition}
    {rest : List String} (h : Reads .operands (tokens source) (c :: cs) rest)
    (hrest : rest.head? ≠ some ",") (path : ScopePath) :
    (parse source).covers path = (c :: cs).all (·.holds path) := by
  obtain ⟨d, halternatives, _, hholds⟩ := alternatives_of_reads h hrest
  rw [covers_eq_any, halternatives, List.any_cons, List.any_nil, Bool.or_false]
  exact hholds path

/-- A text that is read as a whole covers the paths for which its conditions hold. -/
theorem ReadsWhole.covers {source : String} {c : ScopeCondition} {cs : List ScopeCondition}
    (h : ReadsWhole .operands (tokens source) (c :: cs)) (path : ScopePath) :
    (parse source).covers path = (c :: cs).all (·.holds path) :=
  covers_of_reads h.reads_nil nofun path

variable {a b x separator t : String}

/-- Two complete texts between which a bar or a comma stands are one condition in parentheses, which
holds where one of them covers the path. -/
theorem reads_separated (ha : IsConjunction a) (hb : IsConjunction b)
    (hseparator : Separates separator.toList [t]) (ht : t = "|" ∨ t = ",") :
    ∃ d, (∀ rest, Reads .operand (tokens (inParentheses (a ++ separator ++ b)) ++ rest) [d] rest) ∧
      ∀ path, d.holds path = ((parse a).covers path || (parse b).covers path) := by
  obtain ⟨c, cs, hreads⟩ := WellFormed.reads ha
  obtain ⟨c', cs', hreads'⟩ := WellFormed.reads hb
  obtain ⟨e', hchoice, he'⟩ := hreads'.choice
  obtain ⟨e, hchoices, he⟩ := hreads.choices ht hchoice
  obtain ⟨d, hgroup, hd⟩ := hchoices.group
  refine ⟨d, fun rest => ?_, fun path => ?_⟩
  · rw [tokens_inParentheses, tokens_separated _ hseparator, List.append_assoc]
    exact hgroup rest
  · rw [hd, hreads.covers, hreads'.covers, ← he path, ← he' path]
    simp

/-- What stands between complete texts. In parentheses a bar and a comma mean the same: the texts
are choices, wherever the parentheses stand. Outside of them only a comma does, and what stands
behind a bar is not read. -/
theorem covers_separated (ha : IsConjunction a) (hb : IsConjunction b) (hx : IsConjunction x)
    (path : ScopePath) :
    (∀ separator ∈ [" | ", ", "],
      (parse (inParentheses (a ++ separator ++ b))).covers path =
        ((parse a).covers path || (parse b).covers path) ∧
      (parse (x ++ " " ++ inParentheses (a ++ separator ++ b))).covers path =
        ((parse x).covers path && ((parse a).covers path || (parse b).covers path))) ∧
    (parse (a ++ ", " ++ b)).covers path = ((parse a).covers path || (parse b).covers path) ∧
    (parse (a ++ " | " ++ b)).alternatives = (parse a).alternatives := by
  obtain ⟨c, cs, hreads⟩ := WellFormed.reads ha
  obtain ⟨c', cs', hreads'⟩ := WellFormed.reads hb
  refine ⟨fun separator hseparator => ?_, ?_, ?_⟩
  · obtain ⟨t, htokens, ht⟩ : ∃ t, Separates separator.toList [t] ∧ (t = "|" ∨ t = ",") := by
      simp only [List.mem_cons, List.not_mem_nil, or_false] at hseparator
      rcases hseparator with rfl | rfl
      · exact ⟨"|", separates_bar, .inl rfl⟩
      · exact ⟨",", separates_comma, .inr rfl⟩
    obtain ⟨d, hgroup, hd⟩ := reads_separated ha hb htokens ht
    have hend : Reads .operands (tokens (inParentheses (a ++ separator ++ b))) [d] [] := by
      have h := (hgroup []).more (.stop .nothing)
      rwa [List.append_nil] at h
    constructor
    · rw [covers_of_reads hend nofun, ← hd, List.all_cons, List.all_nil, Bool.and_true]
    · obtain ⟨e, es, hbefore⟩ := WellFormed.reads hx
      have hstart : StartsNoName (tokens (inParentheses (a ++ separator ++ b))) := by
        intro t ht
        rw [tokens_inParentheses] at ht
        cases ht
        rfl
      have hwhole := hbefore _ _ _ hstart hend
      have htokens : tokens (x ++ " " ++ inParentheses (a ++ separator ++ b)) =
          tokens x ++ tokens (inParentheses (a ++ separator ++ b)) := by
        rw [tokens_separated " " separates_blank, List.append_nil]
      rw [← htokens] at hwhole
      rw [covers_of_reads hwhole nofun, hbefore.covers, ← hd]
      simp [Bool.and_assoc]
  · have hrest : Closes ("," :: tokens b) := closes_cons (.inr (.inr rfl)) _
    have hfirst := hreads.reads hrest
    have hsecond := hreads'.reads_nil
    obtain ⟨d, hd, hholds⟩ := exists_combine_all c cs
    obtain ⟨d', hd', hholds'⟩ := exists_combine_all c' cs'
    have hnext := ReadsAlternatives.next hfirst.marked hfirst rfl
      (.last hsecond.marked hsecond nofun)
    rw [hd, hd', ← List.singleton_append, ← List.append_assoc,
      ← tokens_separated ", " separates_comma, readsAlternatives_iff] at hnext
    rw [covers_eq_any, ← hnext, hreads.covers, hreads'.covers, ← hholds, ← hholds']
    simp
  · have hrest : Closes ("|" :: tokens b) := closes_cons (.inr (.inl rfl)) _
    have hfirst := hreads.reads hrest
    rw [← List.singleton_append, ← List.append_assoc,
      ← tokens_separated " | " separates_bar] at hfirst
    obtain ⟨d, hbar, hd, _⟩ := alternatives_of_reads hfirst (by simp)
    obtain ⟨d', halone, hd', _⟩ := alternatives_of_reads hreads.reads_nil nofun
    rw [hbar, halone, Option.some.inj (hd.symm.trans hd')]

/-- Markup that is no comment, or strings of two languages, within `meta` and on their own. -/
theorem covers_separated_strings :
    IsConjunction "text.html -comment" ∧ IsConjunction "(source.js, source.ts) string" ∧
    IsConjunction "meta" ∧
    (parse "(text.html -comment | (source.js, source.ts) string)").covers
      ["source.ts", "string.quoted"] = true ∧
    (parse "meta (text.html -comment | (source.js, source.ts) string)").covers
      ["source.ts", "string.quoted"] = false ∧
    (parse "text.html -comment, (source.js, source.ts) string").covers
      ["source.ts", "string.quoted"] = true := by
  have ha : IsConjunction "text.html -comment" :=
    (.names rfl (.excluding (.name rfl)) : WellFormed .operands ["text.html", "-", "comment"])
  have hchoices : WellFormed .choices (["source.js"] ++ "," :: ["source.ts"]) :=
    .choices (.name rfl) (.inr rfl) (.choice (.name rfl))
  have hb : IsConjunction "(source.js, source.ts) string" :=
    (.groups hchoices (.name rfl) :
      WellFormed .operands (grouped ["source.js", ",", "source.ts"] ++ ["string"]))
  have hx : IsConjunction "meta" := (.name rfl : WellFormed .operands ["meta"])
  obtain ⟨hgroup, hcomma, _⟩ := covers_separated ha hb hx ["source.ts", "string.quoted"]
  obtain ⟨halone, hwithin⟩ := hgroup " | " List.mem_cons_self
  refine ⟨ha, hb, hx, halone.trans ?_, hwithin.trans ?_, hcomma.trans ?_⟩
  · decide
  · decide
  · decide

/-- Outside of parentheses the second of two texts between which a bar stands is lost. -/
theorem bar_loses_alternative :
    IsConjunction "a" ∧ IsConjunction "b" ∧ (parse "b").covers ["b"] = true ∧
    (parse ("a" ++ " | " ++ "b")).covers ["b"] = false ∧
    (parse ("a" ++ ", " ++ "b")).covers ["b"] = true ∧
    (parse (inParentheses ("a" ++ " | " ++ "b"))).covers ["b"] = true := by
  refine ⟨(.name rfl : WellFormed .operands ["a"]), (.name rfl : WellFormed .operands ["b"]),
    ?_, ?_, ?_, ?_⟩
  · decide
  · decide
  · decide
  · decide

end Selector

end Highlight
