import Mathlib.Data.List.NodupEquivFin
import Mathlib.Order.Bounds.Basic
import Highlight.Proofs.InheritedStyles

/-!
# Greedy matching finds every match

Names are matched greedily: those of a selector each as far out in the path as it can, the parents of
a theme rule each as far inside as it can. Any choice of scopes in order would do (`Scope.Embeds`).

1. `Scope.within_iff_embeds`: names are matched in order if and only if they can be embedded.
2. `Scope.exists_embeds_concat_iff`: the last name can get a scope that it matches if and only if the
   other names are matched outside of that scope, wherever they are.
3. `ThemeRule.exists_innermost_of_specificity?`: a theme rule is tried at the innermost scope that it
   names. What is outside of another one is outside of this one too, so this is enough.
4. `Scope.greedy_complete`: greedy matching misses no embedding, and the depth of a theme rule is the
   innermost place that any embedding gives to its scope.
-/

namespace Highlight

namespace Scope

variable {name : ScopeName} {names : List ScopeName} {path : ScopePath}

/-- Each name gets a scope of the path that it matches, later names get scopes further inside. -/
structure Embeds (names : List ScopeName) (path : ScopePath)
    (f : Fin names.length → Fin path.length) : Prop where
  increasing : StrictMono f
  covers : ∀ i, Scope.covers names[i] path[f i] = true

theorem Within.exists_embeds (h : Within names path) : ∃ f, Embeds names path f := by
  obtain ⟨scopes, hscopes, hsub⟩ := List.sublistForall₂_iff.1 h
  obtain ⟨hlength, hcovers⟩ := List.forall₂_iff_get.1 hscopes
  obtain ⟨g, hg⟩ := List.sublist_iff_exists_fin_orderEmbedding_get_eq.1 hsub
  refine ⟨fun i => g (i.cast hlength), g.strictMono.comp (Fin.cast_strictMono hlength),
    fun i => ?_⟩
  have hscope := hg (i.cast hlength)
  have hcover := hcovers i i.isLt (hlength ▸ i.isLt)
  simp only [List.get_eq_getElem] at hscope hcover
  simpa [← hscope] using hcover

theorem Embeds.within {f : Fin names.length → Fin path.length} (h : Embeds names path f) :
    Within names path := by
  have hlength : (List.ofFn fun i => path[f i]).length = names.length := List.length_ofFn
  refine List.sublistForall₂_iff.2 ⟨List.ofFn fun i => path[f i],
    List.forall₂_iff_get.2 ⟨hlength.symm, fun i hi _ => ?_⟩,
    List.sublist_iff_exists_fin_orderEmbedding_get_eq.2 ⟨OrderEmbedding.ofStrictMono
      (fun i => f (i.cast hlength)) (h.increasing.comp (Fin.cast_strictMono hlength)), fun i => ?_⟩⟩
  · simpa using h.covers ⟨i, hi⟩
  · rw [List.get_eq_getElem, List.getElem_ofFn]
    rfl

theorem within_iff_embeds : Within names path ↔ ∃ f, Embeds names path f :=
  ⟨Within.exists_embeds, fun ⟨_, h⟩ => h.within⟩

/-- Places of a list, and the one behind it, are places of the list with more behind it. -/
theorem lt_length_append_cons {before after : List ScopeName} {i : Nat} (h : i ≤ before.length) :
    i < (before ++ name :: after).length := by
  rw [List.length_append, List.length_cons]
  omega

/-- The place of the last name. -/
def last (names : List ScopeName) (name : ScopeName) : Fin (names ++ [name]).length :=
  ⟨names.length, lt_length_append_cons (Nat.le_refl _)⟩

@[simp]
theorem val_last (names : List ScopeName) (name : ScopeName) : (last names name).val = names.length :=
  rfl

/-- Outside of the scope that the last name gets, the other names are matched. -/
theorem Embeds.init {f : Fin (names ++ [name]).length → Fin path.length}
    (h : Embeds (names ++ [name]) path f) : Within names (path.take (f (last names name))) := by
  have hplace : ∀ i : Fin names.length, i < (names ++ [name]).length :=
    fun i => lt_length_append_cons (Nat.le_of_lt i.isLt)
  have hlt : ∀ i : Fin names.length, f ⟨i, hplace i⟩ < f (last names name) :=
    fun i => h.increasing i.isLt
  refine Embeds.within (f := fun i => ⟨f ⟨i, hplace i⟩, ?_⟩) ⟨fun i j hij => ?_, fun i => ?_⟩
  · rw [List.length_take]
    exact Nat.lt_min.2 ⟨hlt i, Fin.isLt _⟩
  · exact h.increasing hij
  · simpa using h.covers ⟨i, hplace i⟩

/-- Names keep the scopes that they have, and one more name gets the scope behind them. -/
def extend {outer : ScopePath} (g : Fin names.length → Fin outer.length) (name scope : ScopeName)
    (inner : ScopePath) : Fin (names ++ [name]).length → Fin (outer ++ scope :: inner).length :=
  fun i =>
    if h : i < names.length then ⟨g ⟨i, h⟩, lt_length_append_cons (Nat.le_of_lt (Fin.isLt _))⟩
    else ⟨outer.length, lt_length_append_cons (Nat.le_refl _)⟩

theorem extend_last {outer : ScopePath} (g : Fin names.length → Fin outer.length)
    (name scope : ScopeName) (inner : ScopePath) :
    (extend g name scope inner (last names name)).val = outer.length := by
  simp [extend]

theorem Embeds.extend {outer : ScopePath} {scope : ScopeName}
    {g : Fin names.length → Fin outer.length} (h : Embeds names outer g)
    (hscope : Scope.covers name scope = true) (inner : ScopePath) :
    Embeds (names ++ [name]) (outer ++ scope :: inner) (extend g name scope inner) := by
  have hlength : ∀ i : Fin (names ++ [name]).length, i < names.length + 1 := by
    intro i
    simpa using i.isLt
  refine ⟨fun i j hij => ?_, fun i => ?_⟩
  · have hi : i < names.length := Nat.lt_of_lt_of_le hij (Nat.le_of_lt_succ (hlength j))
    by_cases hj : j < names.length
    · rw [Scope.extend, Scope.extend, dif_pos hi, dif_pos hj]
      exact h.increasing (show (⟨i, hi⟩ : Fin names.length) < ⟨j, hj⟩ from hij)
    · rw [Scope.extend, Scope.extend, dif_pos hi, dif_neg hj]
      exact Fin.isLt (g _)
  · by_cases hi : i < names.length
    · simpa [Scope.extend, hi] using h.covers ⟨i, hi⟩
    · have hlast : i = names.length := by
        have := hlength i
        omega
      simpa [Scope.extend, hlast] using hscope

/-- The last name of some embedding gets a scope if it matches that scope and the other names are
matched outside of it. -/
theorem exists_embeds_concat_iff {place : Nat} :
    (∃ f, Embeds (names ++ [name]) path f ∧ (f (last names name)).val = place) ↔
      ∃ outer scope inner, path = outer ++ scope :: inner ∧ outer.length = place ∧
        covers name scope = true ∧ Within names outer := by
  constructor
  · rintro ⟨f, h, rfl⟩
    refine ⟨_, path[f (last names name)], path.drop (f (last names name) + 1), ?_, ?_, ?_, h.init⟩
    · simp
    · simp
    · simpa using h.covers (last names name)
  · rintro ⟨outer, scope, inner, rfl, rfl, hscope, hnames⟩
    obtain ⟨g, hg⟩ := hnames.exists_embeds
    exact ⟨_, hg.extend hscope inner, extend_last g name scope inner⟩

end Scope

namespace ThemeRule

variable {r : ThemeRule} {path : ScopePath}

/-- A rule that applies at some scope of a path applies to the path, at that scope or further
inside. -/
theorem isSome_specificity?_of_applies {outer : ScopePath} {scope : ScopeName}
    (h : r.Applies outer scope) (inner : ScopePath) :
    (r.specificity? (outer ++ scope :: inner)).isSome := by
  induction inner using List.reverseRecOn with
  | nil =>
    rw [specificity?_of_applies h]
    rfl
  | append_singleton inner s ih =>
    rw [← List.cons_append, ← List.append_assoc]
    by_cases hs : r.Applies (outer ++ scope :: inner) s
    · rw [specificity?_of_applies hs]
      rfl
    · rwa [specificity?_of_not_applies hs]

/-- What makes a rule specific is the innermost scope that it names. -/
theorem exists_innermost_of_specificity? {spec : Specificity} (h : r.specificity? path = some spec) :
    ∃ outer scope inner, path = outer ++ scope :: inner ∧ r.Applies outer scope ∧
      (∀ s ∈ inner, ¬Scope.covers r.scope s = true) ∧
      spec = ⟨outer.length, Scope.segmentCount r.scope, r.parents.length, r.index⟩ := by
  induction path using List.reverseRecOn with
  | nil => cases h
  | append_singleton path s ih =>
    by_cases hs : r.Applies path s
    · rw [specificity?_of_applies hs] at h
      exact ⟨path, s, [], rfl, hs, by simp, (Option.some.inj h).symm⟩
    · rw [specificity?_of_not_applies hs] at h
      obtain ⟨outer, scope, inner, rfl, happlies, hinner, hspec⟩ := ih h
      -- the parents are matched further outside, so it is the scope that the rule does not name
      have hnot : ¬Scope.covers r.scope s = true := fun hcovers =>
        hs ⟨hcovers, happlies.parents.append _⟩
      refine ⟨outer, scope, inner ++ [s], by simp, happlies, fun x hx => ?_, hspec⟩
      rcases List.mem_append.1 hx with hx | hx
      · exact hinner x hx
      · rwa [List.mem_singleton.1 hx]

theorem exists_embeds_iff {place : Nat} :
    (∃ f, Scope.Embeds (r.parents ++ [r.scope]) path f ∧
      (f (Scope.last r.parents r.scope)).val = place) ↔
      ∃ outer scope inner, path = outer ++ scope :: inner ∧ outer.length = place ∧
        r.Applies outer scope := by
  rw [Scope.exists_embeds_concat_iff]
  constructor
  · rintro ⟨outer, scope, inner, hpath, hplace, hcovers, hparents⟩
    exact ⟨outer, scope, inner, hpath, hplace, hcovers, hparents⟩
  · rintro ⟨outer, scope, inner, hpath, hplace, happlies⟩
    exact ⟨outer, scope, inner, hpath, hplace, happlies.covers, happlies.parents⟩

theorem isSome_specificity?_iff : (r.specificity? path).isSome ↔
    ∃ f, Scope.Embeds (r.parents ++ [r.scope]) path f := by
  constructor
  · intro h
    obtain ⟨spec, hspec⟩ := Option.isSome_iff_exists.1 h
    obtain ⟨outer, scope, inner, hpath, happlies, -⟩ := exists_innermost_of_specificity? hspec
    obtain ⟨f, hf, -⟩ := exists_embeds_iff.2 ⟨outer, scope, inner, hpath, rfl, happlies⟩
    exact ⟨f, hf⟩
  · rintro ⟨f, hf⟩
    obtain ⟨outer, scope, inner, rfl, -, happlies⟩ := exists_embeds_iff.1 ⟨f, hf, rfl⟩
    exact isSome_specificity?_of_applies happlies inner

/-- No embedding puts the last name further inside than the depth of the rule. -/
theorem isGreatest_depth {spec : Specificity} (h : r.specificity? path = some spec) :
    IsGreatest {place | ∃ f, Scope.Embeds (r.parents ++ [r.scope]) path f ∧
      (f (Scope.last r.parents r.scope)).val = place} spec.depth := by
  obtain ⟨outer, scope, inner, hpath, happlies, hinner, rfl⟩ := exists_innermost_of_specificity? h
  refine ⟨exists_embeds_iff.2 ⟨outer, scope, inner, hpath, rfl, happlies⟩, fun place hplace => ?_⟩
  obtain ⟨outer', scope', inner', hpath', rfl, happlies'⟩ := exists_embeds_iff.1 hplace
  rw [hpath] at hpath'
  obtain ⟨more, rfl, hrest⟩ | ⟨more, rfl, -⟩ := List.append_eq_append_iff.1 hpath'
  · cases more with
    | nil => simp
    | cons s more =>
      -- then the scope would be one of those that the rule does not name
      cases hrest
      exact absurd happlies'.covers (hinner scope' (List.mem_append_right _ List.mem_cons_self))
  · simp

end ThemeRule

namespace Scope

/-- Greedy matching is complete. Names match a path, each as far out as it can, if and only if they
can be embedded into it; parents match the scopes around a scope, each as far inside as it can, if
and only if they can be embedded there. So a theme rule applies to a path if and only if its parents
and its scope can be embedded into the path, and its depth is the innermost place that the scope
gets in any embedding. -/
theorem greedy_complete :
    (∀ (names : List ScopeName) (path : ScopePath),
      pathCovers names path = true ↔ ∃ f, Embeds names path f) ∧
    (∀ (parents : List ScopeName) (ancestors : ScopePath),
      pathCovers parents.reverse ancestors.reverse = true ↔ ∃ f, Embeds parents ancestors f) ∧
    ∀ (r : ThemeRule) (path : ScopePath),
      ((r.specificity? path).isSome ↔ ∃ f, Embeds (r.parents ++ [r.scope]) path f) ∧
      ∀ spec, r.specificity? path = some spec →
        IsGreatest {place | ∃ f, Embeds (r.parents ++ [r.scope]) path f ∧
          (f (Scope.last r.parents r.scope)).val = place} spec.depth := by
  refine ⟨fun names path => ?_, fun parents ancestors => ?_, fun r path => ⟨?_, fun spec h => ?_⟩⟩
  · rw [pathCovers_iff, within_iff_embeds]
  · rw [pathCovers_iff, Within.reverse_iff, within_iff_embeds]
  · exact ThemeRule.isSome_specificity?_iff
  · exact ThemeRule.isGreatest_depth h

end Scope

end Highlight
