import Highlight.Scope.Selector

/-!
# How selectors are read

`Selector.Reads` says what the tokens of a selector come to, phrase by phrase: an operand, operands
that stand side by side, and the choices of a group. A derivation is one finite reading, and nothing
in the rules counts down. The functions that read selectors do count, so two things are to be said
of them: that they never run out (`reads_read`, where `Phrase.enough` is how far they have to count)
and that there is no other reading (`Reads.unique`). Together these say that the reading of every
text ends, and what with: `readsAlternatives_iff`.
-/

namespace Highlight.Selector

/-- What is read in one go. -/
inductive Phrase where
  /-- An exclusion, a group or a path. -/
  | operand
  /-- Operands that must all hold. -/
  | operands
  /-- The conditions of a group, of which one must hold. -/
  | choices

/-- What is left after a group, whose parenthesis may be missing. -/
def afterGroup (ts : List String) : List String := if ts.head? = some ")" then ts.tail else ts

/-- The tokens read as a phrase come to conditions and leave a rest. An operand comes to one
condition or to none. -/
inductive Reads : Phrase → List String → List ScopeCondition → List String → Prop
  | nothing : Reads .operand [] [] []
  | excluding {t : String} {ts rest : List String} {c : ScopeCondition} (ht : t = "-")
      (h : Reads .operand ts [c] rest) : Reads .operand (t :: ts) [.excluding c] rest
  /-- A hyphen before nothing that can be excluded. -/
  | hyphen {t : String} {ts rest : List String} (ht : t = "-") (h : Reads .operand ts [] rest) :
      Reads .operand (t :: ts) [] rest
  | group {t : String} {ts rest : List String} {cs : List ScopeCondition} (ht : t = "(")
      (h : Reads .choices ts cs rest) :
      Reads .operand (t :: ts) (combine .any cs).toList (afterGroup rest)
  | path {t : String} {ts : List String} (ht : isName t = true) :
      Reads .operand (t :: ts) [.path (t :: (spanNames ts).1)] (spanNames ts).2
  /-- A token that ends a phrase. -/
  | other {t : String} {ts : List String} (hname : isName t = false) (hhyphen : t ≠ "-")
      (hgroup : t ≠ "(") : Reads .operand (t :: ts) [] (t :: ts)
  | more {ts rest rest' : List String} {c : ScopeCondition} {cs : List ScopeCondition}
      (h : Reads .operand ts [c] rest) (hmore : Reads .operands rest cs rest') :
      Reads .operands ts (c :: cs) rest'
  | stop {ts rest : List String} (h : Reads .operand ts [] rest) : Reads .operands ts [] rest
  | next {t : String} {ts rest rest' : List String} {cs more : List ScopeCondition}
      (h : Reads .operands ts cs (t :: rest)) (ht : t = "|" ∨ t = ",")
      (hmore : Reads .choices rest more rest') :
      Reads .choices ts ((combine .all cs).toList ++ more) rest'
  | last {ts rest : List String} {cs : List ScopeCondition} (h : Reads .operands ts cs rest)
      (hrest : ∀ t ∈ rest.head?, t ≠ "|" ∧ t ≠ ",") :
      Reads .choices ts (combine .all cs).toList rest

/-- The mark of a priority is taken off the tokens of an alternative. -/
inductive Marked : List String → Priority → List String → Prop
  | before {t : String} {ts : List String} (ht : t = "L:") : Marked (t :: ts) .before ts
  | after {t : String} {ts : List String} (ht : t = "R:") : Marked (t :: ts) .after ts
  | normal {t : String} {ts : List String} (hbefore : t ≠ "L:") (hafter : t ≠ "R:") :
      Marked (t :: ts) .normal (t :: ts)

/-- The tokens of a selector come to alternatives. What follows an alternative without a comma is
not read. -/
inductive ReadsAlternatives : List String → List Alternative → Prop
  | nothing : ReadsAlternatives [] []
  | next {t : String} {ts body rest : List String} {priority : Priority}
      {cs : List ScopeCondition} {more : List Alternative} (hmark : Marked ts priority body)
      (h : Reads .operands body cs (t :: rest)) (ht : t = ",")
      (hmore : ReadsAlternatives rest more) :
      ReadsAlternatives ts ((combine .all cs).toList.map (⟨priority, ·⟩) ++ more)
  | last {ts body rest : List String} {priority : Priority} {cs : List ScopeCondition}
      (hmark : Marked ts priority body) (h : Reads .operands body cs rest)
      (hrest : rest.head? ≠ some ",") :
      ReadsAlternatives ts ((combine .all cs).toList.map (⟨priority, ·⟩))

/-! ## There is only one reading -/

theorem Reads.unique {phrase : Phrase} {ts rest rest' : List String} {cs cs' : List ScopeCondition}
    (h : Reads phrase ts cs rest) (h' : Reads phrase ts cs' rest') : cs = cs' ∧ rest = rest' := by
  induction h generalizing cs' rest' with
  | nothing =>
    cases h'
    exact ⟨rfl, rfl⟩
  | excluding ht _ ih =>
    subst ht
    cases h' with
    | excluding _ h' =>
      obtain ⟨heq, hrest⟩ := ih h'
      cases heq
      exact ⟨rfl, hrest⟩
    | hyphen _ h' => cases (ih h').1
    | group ht' => exact absurd ht' (by decide)
    | path ht' => exact absurd ht' (by decide)
    | other _ hhyphen => exact absurd rfl hhyphen
  | hyphen ht _ ih =>
    subst ht
    cases h' with
    | excluding _ h' => cases (ih h').1
    | hyphen _ h' => exact ih h'
    | group ht' => exact absurd ht' (by decide)
    | path ht' => exact absurd ht' (by decide)
    | other _ hhyphen => exact absurd rfl hhyphen
  | group ht _ ih =>
    subst ht
    cases h' with
    | excluding ht' => exact absurd ht' (by decide)
    | hyphen ht' => exact absurd ht' (by decide)
    | group _ h' =>
      obtain ⟨rfl, rfl⟩ := ih h'
      exact ⟨rfl, rfl⟩
    | path ht' => exact absurd ht' (by decide)
    | other _ _ hgroup => exact absurd rfl hgroup
  | path ht =>
    cases h' with
    | excluding ht' =>
      subst ht'
      cases ht
    | hyphen ht' =>
      subst ht'
      cases ht
    | group ht' =>
      subst ht'
      cases ht
    | path => exact ⟨rfl, rfl⟩
    | other hname =>
      rw [hname] at ht
      cases ht
  | other hname hhyphen hgroup =>
    cases h' with
    | excluding ht' => exact absurd ht' hhyphen
    | hyphen ht' => exact absurd ht' hhyphen
    | group ht' => exact absurd ht' hgroup
    | path ht' =>
      rw [hname] at ht'
      cases ht'
    | other => exact ⟨rfl, rfl⟩
  | more _ _ ih ihmore =>
    cases h' with
    | more h' hmore' =>
      obtain ⟨heq, rfl⟩ := ih h'
      cases heq
      obtain ⟨rfl, rfl⟩ := ihmore hmore'
      exact ⟨rfl, rfl⟩
    | stop h' => cases (ih h').1
  | stop _ ih =>
    cases h' with
    | more h' => cases (ih h').1
    | stop h' => exact ih h'
  | next _ ht _ ih ihmore =>
    cases h' with
    | next h' _ hmore' =>
      obtain ⟨rfl, heq⟩ := ih h'
      cases heq
      obtain ⟨rfl, rfl⟩ := ihmore hmore'
      exact ⟨rfl, rfl⟩
    | last h' hrest =>
      obtain ⟨_, rfl⟩ := ih h'
      obtain ⟨hbar, hcomma⟩ := hrest _ rfl
      exact (ht.elim hbar hcomma).elim
  | last _ hrest ih =>
    cases h' with
    | next h' ht =>
      obtain ⟨_, rfl⟩ := ih h'
      obtain ⟨hbar, hcomma⟩ := hrest _ rfl
      exact (ht.elim hbar hcomma).elim
    | last h' =>
      obtain ⟨rfl, rfl⟩ := ih h'
      exact ⟨rfl, rfl⟩

theorem Marked.unique {ts body body' : List String} {p p' : Priority} (h : Marked ts p body)
    (h' : Marked ts p' body') : p = p' ∧ body = body' := by
  cases h <;> cases h' <;> simp_all

theorem ReadsAlternatives.unique {ts : List String} {as as' : List Alternative}
    (h : ReadsAlternatives ts as) (h' : ReadsAlternatives ts as') : as = as' := by
  induction h generalizing as' with
  | nothing =>
    cases h' with
    | nothing => rfl
    | next hmark => cases hmark
    | last hmark => cases hmark
  | next hmark h ht _ ih =>
    cases h' with
    | nothing => cases hmark
    | next hmark' h' _ hmore' =>
      obtain ⟨rfl, rfl⟩ := hmark.unique hmark'
      obtain ⟨rfl, heq⟩ := h.unique h'
      cases heq
      rw [ih hmore']
    | last hmark' h' hrest =>
      obtain ⟨rfl, rfl⟩ := hmark.unique hmark'
      obtain ⟨_, rfl⟩ := h.unique h'
      exact absurd (congrArg some ht) hrest
  | last hmark h hrest =>
    cases h' with
    | nothing => cases hmark
    | next hmark' h' ht =>
      obtain ⟨rfl, rfl⟩ := hmark.unique hmark'
      obtain ⟨_, rfl⟩ := h.unique h'
      exact absurd (congrArg some ht) hrest
    | last hmark' h' =>
      obtain ⟨rfl, rfl⟩ := hmark.unique hmark'
      rw [(h.unique h').1]

/-! ## Every text has a reading -/

theorem spanNames_length (ts : List String) : (spanNames ts).2.length ≤ ts.length := by
  induction ts with
  | nil => exact Nat.le_refl 0
  | cons t ts ih =>
    rw [spanNames]
    split
    · exact Nat.le_succ_of_le ih
    · exact Nat.le_refl _

theorem afterGroup_length (ts : List String) : (afterGroup ts).length ≤ ts.length := by
  unfold afterGroup
  split
  · simp
  · exact Nat.le_refl _

/-- No phrase adds tokens, and an operand that comes to a condition takes one. -/
theorem Reads.length_le {phrase : Phrase} {ts rest : List String} {cs : List ScopeCondition}
    (h : Reads phrase ts cs rest) : rest.length ≤ ts.length ∧
      (phrase matches .operand → cs ≠ [] → rest.length < ts.length) := by
  induction h with
  | nothing => simp
  | excluding _ _ ih | hyphen _ _ ih =>
    have := ih.1
    simp only [List.length_cons]
    omega
  | @group _ _ rest _ _ _ ih =>
    have := ih.1
    have := afterGroup_length rest
    simp only [List.length_cons]
    omega
  | @path _ ts =>
    have := spanNames_length ts
    simp only [List.length_cons]
    omega
  | other => simp
  | more _ _ ih ihmore => simpa using Nat.le_trans ihmore.1 ih.1
  | stop _ ih => simpa using ih.1
  | next _ _ _ ih ihmore =>
    have := ih.1
    have := ihmore.1
    simp only [List.length_cons] at *
    simp
    omega
  | last _ _ ih => simpa using ih.1

namespace Phrase

/-- Reads a phrase, counting down. -/
def read : Phrase → Nat → List String → List ScopeCondition × List String
  | operand, fuel, ts => ((Selector.operand fuel ts).1.toList, (Selector.operand fuel ts).2)
  | operands, fuel, ts => Selector.operands fuel ts
  | choices, fuel, ts => Selector.choices fuel ts

/-- How far to count for a phrase among so many tokens. Each token can begin a group, which takes one
round for the choices, one for operands and one for the operand. -/
def enough : Phrase → Nat → Nat
  | operand, n => 3 * n + 1
  | operands, n => 3 * n + 2
  | choices, n => 3 * n + 3

end Phrase

/-- Reading never runs out. -/
theorem reads_read : ∀ (fuel : Nat) (phrase : Phrase) (ts : List String),
    phrase.enough ts.length ≤ fuel → Reads phrase ts (phrase.read fuel ts).1 (phrase.read fuel ts).2
  | 0, phrase, ts, h => by cases phrase <;> simp [Phrase.enough] at h
  | fuel + 1, .operand, [], _ => .nothing
  | fuel + 1, .operand, t :: ts, h => by
    simp only [Phrase.enough, List.length_cons] at h
    have hoperand := reads_read fuel .operand ts (by simp only [Phrase.enough]; omega)
    have hchoices := reads_read fuel .choices ts (by simp only [Phrase.enough]; omega)
    simp only [Phrase.read] at hoperand hchoices ⊢
    simp only [operand, beq_iff_eq]
    split
    · next ht =>
      split
      · next heq =>
        rw [heq] at hoperand
        exact .excluding ht hoperand
      · next heq =>
        rw [heq] at hoperand
        exact .hyphen ht hoperand
    · next hhyphen =>
      split
      · next ht => exact .group ht hchoices
      · next hgroup =>
        split
        · next ht =>
          rw [spanNames, if_pos ht]
          exact .path ht
        · next ht => exact .other (Bool.eq_false_iff.2 ht) hhyphen hgroup
  | fuel + 1, .operands, ts, h => by
    simp only [Phrase.enough] at h
    have hoperand := reads_read fuel .operand ts (Nat.le_of_succ_le_succ h)
    simp only [Phrase.read] at hoperand ⊢
    rw [operands]
    split
    · next c rest heq =>
      rw [heq] at hoperand
      have hrest : rest.length < ts.length := hoperand.length_le.2 rfl (by simp)
      have hmore := reads_read fuel .operands rest (by simp only [Phrase.enough]; omega)
      exact .more hoperand hmore
    · next rest heq =>
      rw [heq] at hoperand
      exact .stop hoperand
  | fuel + 1, .choices, ts, h => by
    simp only [Phrase.enough] at h
    have hoperands := reads_read fuel .operands ts (by simp only [Phrase.enough]; omega)
    have hlength := hoperands.length_le.1
    simp only [Phrase.read] at hoperands hlength ⊢
    rw [choices]
    generalize operands fuel ts = found at hoperands hlength
    obtain ⟨cs, rest⟩ := found
    dsimp only
    split
    · next hmore =>
      cases rest with
      | nil => simp at hmore
      | cons t rest =>
        simp only [List.length_cons] at hlength
        have hrest := reads_read fuel .choices rest (by simp only [Phrase.enough]; omega)
        exact .next hoperands (by simpa using hmore) hrest
    · next hlast =>
      refine .last hoperands fun t ht => ?_
      simp only [Option.mem_def] at ht
      simpa [ht] using hlast

/-- An alternative is read from behind its mark. -/
theorem exists_marked (t : String) (ts : List String) : ∃ priority body,
    Marked (t :: ts) priority body ∧ body.length ≤ ts.length + 1 ∧
    ∀ fuel, alternativesFrom (fuel + 1) (t :: ts) =
      let (cs, rest) := operands (3 * body.length + 3) body
      let here := (combine .all cs).toList.map (⟨priority, ·⟩)
      if rest.head? == some "," then here ++ alternativesFrom fuel rest.tail else here := by
  by_cases hbefore : t = "L:"
  · subst hbefore
    exact ⟨.before, ts, .before rfl, Nat.le_succ _, fun _ => rfl⟩
  · by_cases hafter : t = "R:"
    · subst hafter
      exact ⟨.after, ts, .after rfl, Nat.le_succ _, fun _ => rfl⟩
    · refine ⟨.normal, t :: ts, .normal hbefore hafter, Nat.le_refl _, fun fuel => ?_⟩
      rw [alternativesFrom]
      simp only [beq_iff_eq, hbefore, hafter, if_false]

theorem readsAlternatives_from : ∀ (fuel : Nat) (ts : List String), ts.length ≤ fuel →
    ReadsAlternatives ts (alternativesFrom fuel ts)
  | 0, [], _ => .nothing
  | fuel + 1, [], _ => .nothing
  | fuel + 1, t :: ts, h => by
    obtain ⟨priority, body, hmark, hbody, heq⟩ := exists_marked t ts
    have hread := reads_read (3 * body.length + 3) .operands body (Nat.le_succ _)
    have hlength := hread.length_le.1
    simp only [Phrase.read] at hread hlength
    rw [heq fuel]
    generalize operands (3 * body.length + 3) body = found at hread hlength
    obtain ⟨cs, rest⟩ := found
    dsimp only
    split
    · next hcomma =>
      cases rest with
      | nil => simp at hcomma
      | cons t' rest =>
        simp only [List.length_cons] at h hlength
        have hmore := readsAlternatives_from fuel rest (by omega)
        exact .next hmark hread (by simpa using hcomma) hmore
    · next hlast => exact .last hmark hread (by simpa using hlast)

/-- The reading of every text ends, and there is only one. -/
theorem readsAlternatives_iff (source : String) (as : List Alternative) :
    ReadsAlternatives (tokens source) as ↔ as = (parse source).alternatives := by
  have hparse : ReadsAlternatives (tokens source) (parse source).alternatives :=
    readsAlternatives_from _ _ (Nat.le_refl _)
  constructor
  · intro h
    exact h.unique hparse
  · rintro rfl
    exact hparse

end Highlight.Selector
