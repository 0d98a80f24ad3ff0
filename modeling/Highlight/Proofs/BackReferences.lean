import Mathlib.Data.List.TakeWhile
import Highlight.Proofs.LinkedDocuments

/-!
# References to captured text

The end of a region may refer to what its begin match captured, by a backslash and a number.

1. `hasReferences_iff`: a text has references if and only if a digit follows some backslash.
2. `replaceReferences_substituted`: exactly those backslashes are replaced, each with all the digits
   behind it, and everything else is kept. `Substituted` says what that means for any choice of the
   backslashes that count, and `Substituted.unique` that it determines the result.
3. `references_substituted`: so a pattern in which no digit follows a backslash is compiled as it is
   written, and where no backslash before a digit is escaped, what is replaced are the references
   that the pattern has as a regex.
4. `escapedBackslash_replaced`: an escaped backslash before a digit is no reference in a regex, and
   it is replaced all the same.
-/

namespace Highlight

/-- The number of backslashes at the end. -/
def trailingBackslashes (cs : List Char) : Nat := (cs.reverse.takeWhile (· == '\\')).length

/-- A backslash behind the text is not escaped. -/
def Unescaped (before : List Char) : Prop := trailingBackslashes before % 2 = 0

instance (before : List Char) : Decidable (Unescaped before) := Nat.decEq _ _

/-- Every backslash counts as one that refers to a group. -/
def Every (_ : List Char) : Prop := True

/-- Whether a text starts with a digit. -/
def startsWithDigit (cs : List Char) : Bool := cs.head?.any Template.isDigit

/-- Behind the first part of a text stands a backslash, and a digit behind that. -/
def RefersBehind (cs before : List Char) : Prop :=
  ∃ after, cs = before ++ '\\' :: after ∧ startsWithDigit after = true

/-- A text becomes another one where each backslash that counts is replaced together with the digits
behind it, of which there is at least one, and everything else is kept. Whether a backslash counts
depends on the text before it. -/
inductive Substituted (counts : List Char → Prop) (value : List Char → List Char) :
    (before cs out : List Char) → Prop
  | nil {before : List Char} : Substituted counts value before [] []
  | reference {before cs out : List Char} (hcounts : counts before)
      (hdigit : startsWithDigit cs = true)
      (h : Substituted counts value (before ++ '\\' :: cs.takeWhile Template.isDigit)
        (cs.dropWhile Template.isDigit) out) :
      Substituted counts value before ('\\' :: cs) (value (cs.takeWhile Template.isDigit) ++ out)
  | kept {before cs out : List Char} {c : Char}
      (hkept : c = '\\' → startsWithDigit cs = true → ¬counts before)
      (h : Substituted counts value (before ++ [c]) cs out) :
      Substituted counts value before (c :: cs) (c :: out)

variable {counts : List Char → Prop} {value : List Char → List Char}
  {before cs out out' : List Char}

namespace Substituted

/-- What a text becomes is determined. -/
theorem unique (h : Substituted counts value before cs out)
    (h' : Substituted counts value before cs out') : out = out' := by
  induction h generalizing out' with
  | nil =>
    cases h'
    rfl
  | reference hcounts hdigit _ ih =>
    cases h' with
    | reference _ _ h' => rw [ih h']
    | kept hkept => exact absurd hcounts (hkept rfl hdigit)
  | kept hkept _ ih =>
    cases h' with
    | reference hcounts hdigit => exact absurd hcounts (hkept rfl hdigit)
    | kept _ h' => rw [ih h']

/-- Where all backslashes before digits count, it makes no difference that any other might. -/
theorem restrict (h : Substituted Every value before cs out)
    (hall : ∀ part, RefersBehind cs part → counts (before ++ part)) :
    Substituted counts value before cs out := by
  induction h with
  | nil => exact .nil
  | @reference before cs out _ hdigit _ ih =>
    have hhere : counts before := by
      simpa using hall [] ⟨cs, rfl, hdigit⟩
    refine .reference hhere hdigit (ih fun part hpart => ?_)
    obtain ⟨after, heq, hafter⟩ := hpart
    have hsplit : '\\' :: cs =
        ('\\' :: cs.takeWhile Template.isDigit ++ part) ++ '\\' :: after := by
      rw [List.append_assoc, ← heq, List.cons_append, List.takeWhile_append_dropWhile]
    rw [List.append_assoc]
    exact hall _ ⟨after, hsplit, hafter⟩
  | @kept before cs out c hkept _ ih =>
    refine .kept (fun hc hdigit => absurd trivial (hkept hc hdigit)) (ih fun part hpart => ?_)
    obtain ⟨after, heq, hafter⟩ := hpart
    rw [List.append_assoc]
    exact hall _ ⟨after, by rw [heq]; rfl, hafter⟩

end Substituted

/-! ## What is replaced -/

theorem isEmpty_takeWhile_isDigit (cs : List Char) :
    (cs.takeWhile Template.isDigit).isEmpty = !startsWithDigit cs := by
  cases cs with
  | nil => rfl
  | cons c cs =>
    cases h : Template.isDigit c with
    | true => simp [startsWithDigit, h]
    | false => simp [startsWithDigit, h]

/-- Every backslash that a digit follows is replaced. -/
theorem replaceReferences_substituted (value : List Char → List Char) :
    ∀ (fuel : Nat) (before cs : List Char), cs.length ≤ fuel →
      Substituted Every value before cs (replaceReferences value fuel cs)
  | 0, _, cs, h => by
    cases List.length_eq_zero_iff.1 (Nat.le_zero.1 h)
    exact .nil
  | _ + 1, _, [], _ => .nil
  | fuel + 1, before, c :: cs, h => by
    have hlength : cs.length ≤ fuel := Nat.le_of_succ_le_succ h
    by_cases hc : c = '\\'
    · subst hc
      rw [replaceReferences, isEmpty_takeWhile_isDigit]
      cases hdigit : startsWithDigit cs with
      | true =>
        have hdrop := (List.dropWhile_suffix (l := cs) Template.isDigit).length_le
        exact .reference trivial hdigit
          (replaceReferences_substituted value fuel _ _ (Nat.le_trans hdrop hlength))
      | false =>
        refine .kept (fun _ hsome => ?_) (replaceReferences_substituted value fuel _ cs hlength)
        rw [hdigit] at hsome
        cases hsome
    · have hother : replaceReferences value (fuel + 1) (c :: cs) =
          c :: replaceReferences value fuel cs := by
        rw [replaceReferences]
        exact hc
      rw [hother]
      exact .kept (fun heq => absurd heq hc) (replaceReferences_substituted value fuel _ cs hlength)

/-- A number behind a backslash that is all of a text is replaced as a whole. -/
theorem replaceReferences_number {ds : List Char} (hne : ds ≠ [])
    (hdigits : ∀ d ∈ ds, Template.isDigit d = true) (value : List Char → List Char) :
    replaceReferences value (ds.length + 1) ('\\' :: ds) = value ds := by
  have htake : ds.takeWhile Template.isDigit = ds := List.takeWhile_eq_self_iff.2 hdigits
  have hdrop : ds.dropWhile Template.isDigit = [] := List.dropWhile_eq_nil_iff.2 hdigits
  have hstarts : startsWithDigit ds = true := by
    have hempty := isEmpty_takeWhile_isDigit ds
    rw [htake, List.isEmpty_eq_false_iff.2 hne] at hempty
    simpa using hempty.symm
  have hwhole : Substituted Every value [] ('\\' :: ds) (value ds ++ []) := by
    have h : Substituted Every value [] ('\\' :: ds)
        (value (ds.takeWhile Template.isDigit) ++ []) :=
      .reference trivial hstarts (by rw [hdrop]; exact .nil)
    rwa [htake] at h
  have h := (replaceReferences_substituted value _ [] _ (Nat.le_refl (ds.length + 1))).unique hwhole
  rw [h, List.append_nil]

theorem hasReferences_cons (c : Char) (cs : List Char) : hasReferences (c :: cs) =
    (c == '\\' && startsWithDigit cs || hasReferences cs) := by
  by_cases hc : c = '\\'
  · subst hc
    cases cs with
    | nil => rfl
    | cons d cs => rfl
  · rw [hasReferences]
    · simp [hc]
    · simp [hc]

/-- A text has references if a digit follows some backslash. -/
theorem hasReferences_iff : ∀ {cs : List Char},
    hasReferences cs = true ↔ ∃ before, RefersBehind cs before
  | [] => by simp [hasReferences, RefersBehind]
  | c :: cs => by
    have ih : hasReferences cs = true ↔ ∃ before, RefersBehind cs before := hasReferences_iff
    rw [hasReferences_cons, Bool.or_eq_true, Bool.and_eq_true, beq_iff_eq, ih]
    constructor
    · rintro (⟨rfl, hdigit⟩ | ⟨before, after, rfl, hdigit⟩)
      · exact ⟨[], cs, rfl, hdigit⟩
      · exact ⟨c :: before, after, rfl, hdigit⟩
    · rintro ⟨before, after, heq, hdigit⟩
      cases before with
      | nil =>
        cases heq
        exact .inl ⟨rfl, hdigit⟩
      | cons b before =>
        cases heq
        exact .inr ⟨before, after, rfl, hdigit⟩

theorem resolveReferences_substituted (source : String) (text : Subject)
    (groups : List (Option Span)) : Substituted Every (capturedPattern text groups) []
      source.toList (resolveReferences source text groups).toList := by
  rw [resolveReferences, String.toList_ofList]
  exact replaceReferences_substituted _ _ [] _ (Nat.le_refl _)

/-- What a pattern that ends or continues a region comes to with captured text. It has references if
and only if a digit follows some backslash of it; all of these are replaced, and nothing else. One
without them is compiled as it is written. So where no backslash before a digit is escaped, the
unescaped ones are those that make the pattern one with references, and they alone are replaced. -/
theorem references_substituted (source : String) (text : Subject) (groups : List (Option Span)) :
    (hasReferences source.toList = true ↔ ∃ before, RefersBehind source.toList before) ∧
    (∀ resolved : String, resolveReferences source text groups = resolved ↔
      Substituted Every (capturedPattern text groups) [] source.toList resolved.toList) ∧
    ((¬∃ before, RefersBehind source.toList before) → compileEnd source = do
      let p ← Compiling.lift (Pattern.compile source)
      return .fixed p) ∧
    ((∀ before, RefersBehind source.toList before → Unescaped before) →
      (hasReferences source.toList = true ↔
        ∃ before, RefersBehind source.toList before ∧ Unescaped before) ∧
      ∀ resolved : String, resolveReferences source text groups = resolved ↔
        Substituted Unescaped (capturedPattern text groups) [] source.toList resolved.toList) := by
  have hresolved := resolveReferences_substituted source text groups
  refine ⟨hasReferences_iff, fun resolved => ?_, fun hnone => ?_, fun hall => ⟨?_, ?_⟩⟩
  · constructor
    · rintro rfl
      exact hresolved
    · exact fun h => String.toList_inj.1 (hresolved.unique h)
  · have hfalse : hasReferences source.toList = false :=
      Bool.eq_false_iff.2 (mt hasReferences_iff.1 hnone)
    rw [compileEnd, hfalse, if_neg Bool.false_ne_true]
  · rw [hasReferences_iff]
    exact ⟨fun ⟨before, h⟩ => ⟨before, h, hall before h⟩, fun ⟨before, h, _⟩ => ⟨before, h⟩⟩
  · intro resolved
    have hunescaped : Substituted Unescaped (capturedPattern text groups) [] source.toList
        (resolveReferences source text groups).toList := hresolved.restrict hall
    constructor
    · rintro rfl
      exact hunescaped
    · exact fun h => String.toList_inj.1 (hunescaped.unique h)

/-- The end of a text between two markers that are the same word. -/
theorem references_substituted_marker :
    (∀ before, RefersBehind "^\\1$".toList before → Unescaped before) ∧
    hasReferences "^\\1$".toList = true ∧
    resolveReferences "^\\1$" (.ofString "<<a.b") [some ⟨0, 5⟩, some ⟨2, 5⟩] = "^a\\.b$" ∧
    Substituted Unescaped (capturedPattern (.ofString "<<a.b") [some ⟨0, 5⟩, some ⟨2, 5⟩]) []
      "^\\1$".toList "^a\\.b$".toList ∧
    (¬∃ before, RefersBehind "^b$".toList before) ∧
    compileEnd "^b$" = do
      let p ← Compiling.lift (Pattern.compile "^b$")
      return .fixed p := by
  have hresolve : resolveReferences "^\\1$" (.ofString "<<a.b") [some ⟨0, 5⟩, some ⟨2, 5⟩] =
      "^a\\.b$" := by decide
  have hall : ∀ before, RefersBehind "^\\1$".toList before → Unescaped before := by
    rintro before ⟨after, heq, _⟩
    have heq : ['^', '\\', '1', '$'] = before ++ '\\' :: after := heq
    match before with
    | [] => cases heq
    | [_] =>
      cases heq
      rfl
    | [_, _] => cases heq
    | [_, _, _] => cases heq
    | _ :: _ :: _ :: _ :: _ => simp at heq
  have hnone : ¬∃ before, RefersBehind "^b$".toList before := by
    rw [← hasReferences_iff]
    decide
  obtain ⟨_, _, _, hunescaped⟩ := references_substituted "^\\1$" (.ofString "<<a.b")
    [some ⟨0, 5⟩, some ⟨2, 5⟩]
  obtain ⟨_, _, hcompile, _⟩ := references_substituted "^b$" (.ofString "") []
  exact ⟨hall, (hunescaped hall).1.2 ⟨['^'], ⟨['1', '$'], rfl, rfl⟩, rfl⟩, hresolve,
    ((hunescaped hall).2 _).1 hresolve, hnone, hcompile hnone⟩

/-! ### An escaped backslash -/

namespace Grammar

/-- Text from a letter to a backslash, a one and another letter. -/
def escapedBackslashSource : RawGrammar :=
  { (default : RawGrammar) with
    scopeName := "source.t"
    patterns := [
      { (default : RawRule) with
        name := some "open"
        beginSource := some "(a)"
        endSource := some "\\\\1z" }] }

/-- The grammar of such text. -/
def escapedBackslash : Grammar := (ofSource escapedBackslashSource).toOption.get (by decide +kernel)

/-- The end of such text has no backslash that is not escaped before a digit. It is taken to have a
reference, and with the captured letter in it matches something else, so the text does not end. -/
theorem escapedBackslash_replaced :
    (¬∃ before, RefersBehind "\\\\1z".toList before ∧ Unescaped before) ∧
    hasReferences "\\\\1z".toList = true ∧
    resolveReferences "\\\\1z" (.ofString "a\\1z b") [some ⟨0, 1⟩, some ⟨0, 1⟩] = "\\az" ∧
    escapedBackslash.Linked ∧
    (escapedBackslash.tokenizeLinesWithin 1 .initial ["a\\1z b"]).map
        (fun t => (t.tokens, t.stack.depth)) =
      [([⟨0, 1, ["source.t", "open"]⟩, ⟨1, 6, ["source.t", "open"]⟩], 2)] := by
  refine ⟨?_, by decide, by decide,
    linked_of_ofSource (Option.some_get _).symm, by decide +kernel⟩
  rintro ⟨before, ⟨after, heq, hdigit⟩, hunescaped⟩
  have heq : ['\\', '\\', '1', 'z'] = before ++ '\\' :: after := heq
  match before with
  | [] =>
    cases heq
    exact absurd hdigit (by decide)
  | [_] =>
    cases heq
    exact absurd hunescaped (by decide)
  | [_, _] => cases heq
  | [_, _, _] => cases heq
  | _ :: _ :: _ :: _ :: _ => simp at heq

end Grammar

end Highlight
