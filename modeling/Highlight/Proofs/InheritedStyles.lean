import Mathlib.Data.List.Forall2
import Mathlib.Data.List.MinMax
import Mathlib.Data.Prod.Lex
import Highlight.Proofs.LinkedDocuments
import Highlight.Proofs.ThemeColors

/-!
# Styles are inherited along a path

A theme looks for the best of its rules at once: deepest match, then segments, parents and place. A
reader of the theme thinks otherwise: the innermost scope takes an attribute from the best of the
rules that set it and name this scope, and inherits it from the scopes around it where no rule does
(`Theme.Inherits`). The two agree (`Theme.style_inherits`). A rule is tried at its deepest match
only, and nothing is lost by that: where its parents do not match around the deepest match, they
match around no other one (`ThemeRule.within_of_specificity?`), for parents that match a path match
any longer one. That parents are matched greedily does not matter either (`Scope.pathCovers_iff`).
-/

namespace Highlight

/-! ## Names within a path -/

namespace Scope

variable {name : ScopeName} {names : List ScopeName} {path more : ScopePath}

/-- The names match scopes of the path in order; other scopes may stand between them. -/
def Within (names : List ScopeName) (path : ScopePath) : Prop :=
  List.SublistForall₂ (fun name scope => covers name scope = true) names path

namespace Within

theorem of_cons (h : Within (name :: names) path) : Within names path := by
  generalize hall : name :: names = all at h
  induction h with
  | nil => cases hall
  | cons _ h _ =>
    cases hall
    exact .cons_right h
  | cons_right _ ih => exact .cons_right (ih hall)

theorem append (h : Within names path) (more : ScopePath) : Within names (path ++ more) := by
  obtain ⟨scopes, hscopes, hsub⟩ := List.sublistForall₂_iff.1 h
  exact List.sublistForall₂_iff.2 ⟨scopes, hscopes, hsub.trans (List.sublist_append_left path more)⟩

theorem append_left (h : Within names path) : ∀ outer : ScopePath, Within names (outer ++ path)
  | [] => h
  | _ :: outer => .cons_right (append_left h outer)

/-- It is no matter from which end the scopes are listed. -/
theorem reverse_iff : Within names.reverse path.reverse ↔ Within names path := by
  have himp : ∀ {names : List ScopeName} {path : ScopePath}, Within names path →
      Within names.reverse path.reverse := by
    intro names path h
    obtain ⟨scopes, hscopes, hsub⟩ := List.sublistForall₂_iff.1 h
    exact List.sublistForall₂_iff.2 ⟨_, List.forall₂_reverse_iff.2 hscopes, hsub.reverse⟩
  refine ⟨fun h => ?_, himp⟩
  have h := himp h
  rwa [List.reverse_reverse, List.reverse_reverse] at h

end Within

theorem append_of_afterFirst? {test : ScopeName → Bool} : ∀ {path rest : ScopePath},
    afterFirst? test path = some rest →
      ∃ outer scope, path = outer ++ scope :: rest ∧ test scope = true
  | [], _, h => by cases h
  | s :: path, rest, h => by
    rw [afterFirst?] at h
    split at h
    · rename_i htest
      cases h
      exact ⟨[], s, rfl, htest⟩
    · obtain ⟨outer, scope, rfl, htest⟩ := append_of_afterFirst? h
      exact ⟨s :: outer, scope, rfl, htest⟩

/-- The first scope that the first name matches is as good as any: more of the path is left. -/
theorem Within.exists_afterFirst? : ∀ {path : ScopePath}, Within (name :: names) path →
    ∃ rest, afterFirst? (covers name) path = some rest ∧ Within names rest
  | s :: path, h => by
    by_cases hs : covers name s = true
    · refine ⟨path, by rw [afterFirst?, if_pos hs], ?_⟩
      cases h with
      | cons _ h => exact h
      | cons_right h => exact of_cons h
    · rw [afterFirst?, if_neg hs]
      cases h with
      | cons hs' _ => exact absurd hs' hs
      | cons_right h => exact exists_afterFirst? h

/-- To match each name as far out as it can finds a match if there is one. -/
theorem pathCovers_iff : ∀ {names : List ScopeName} {path : ScopePath},
    pathCovers names path = true ↔ Within names path
  | [], _ => iff_of_true rfl .nil
  | name :: names, path => by
    rw [pathCovers]
    constructor
    · intro h
      split at h
      · rename_i rest hrest
        obtain ⟨outer, scope, rfl, hscope⟩ := append_of_afterFirst? hrest
        exact Within.append_left (.cons hscope (pathCovers_iff.1 h)) outer
      · cases h
    · intro h
      obtain ⟨rest, hrest, h⟩ := h.exists_afterFirst?
      rw [hrest]
      exact pathCovers_iff.2 h

end Scope

/-! ## Rules at the end of a path -/

namespace ThemeRule

variable {r : ThemeRule} {path : ScopePath} {scope : ScopeName}

/-- The rule names the scope at the end of a path, and its parents are matched before it. -/
structure Applies (r : ThemeRule) (path : ScopePath) (scope : ScopeName) : Prop where
  covers : Scope.covers r.scope scope = true
  parents : Scope.Within r.parents path

/-- What decides between rules for one scope: segments, then parents, then the place. -/
def rank (r : ThemeRule) : ℕ ×ₗ ℕ ×ₗ ℕ :=
  toLex (Scope.segmentCount r.scope, toLex (r.parents.length, r.index))

theorem deepest?_append (name scope : ScopeName) : ∀ (path : ScopePath) (depth : Nat)
    (outer : List ScopeName), deepest? name depth outer (path ++ [scope]) =
      if Scope.covers name scope then some (depth + path.length, path.reverse ++ outer)
      else deepest? name depth outer path
  | [], depth, outer => rfl
  | s :: path, depth, outer => by
    rw [List.cons_append, deepest?, deepest?, deepest?_append name scope path]
    by_cases hscope : Scope.covers name scope = true
    · simp [hscope, Nat.add_right_comm, Nat.add_assoc]
    · simp [hscope]

/-- At the end of a path the rule is as specific as its rank, and the depth is that of the end. -/
theorem specificity?_of_applies (h : r.Applies path scope) : r.specificity? (path ++ [scope]) =
    some ⟨path.length, Scope.segmentCount r.scope, r.parents.length, r.index⟩ := by
  have hparents : Scope.pathCovers r.parents.reverse path.reverse = true :=
    Scope.pathCovers_iff.2 (Scope.Within.reverse_iff.2 h.parents)
  simp [specificity?, deepest?_append, h.covers, hparents]

/-- Where a rule applies, its parents are matched in the path, and it is matched before its end. -/
theorem within_of_specificity? {spec : Specificity} (h : r.specificity? path = some spec) :
    Scope.Within r.parents path ∧ spec.depth < path.length := by
  -- the deepest match is looked for from the outside, so what is taken off is the end
  induction path using List.reverseRecOn generalizing spec with
  | nil => cases h
  | append_singleton path scope ih =>
    rw [specificity?, deepest?_append, Nat.zero_add, List.append_nil] at h
    rw [List.length_append, List.length_singleton]
    by_cases hscope : Scope.covers r.scope scope = true
    · rw [if_pos hscope] at h
      dsimp only at h
      split at h
      · rename_i hparents
        cases h
        have hwithin := Scope.Within.reverse_iff.1 (Scope.pathCovers_iff.1 hparents)
        exact ⟨hwithin.append _, Nat.lt_succ_self _⟩
      · cases h
    · rw [if_neg hscope] at h
      obtain ⟨hwithin, hlt⟩ := ih h
      exact ⟨hwithin.append _, Nat.lt_succ_of_lt hlt⟩

/-- A rule that does not apply at the end of a path is as specific as it was before. -/
theorem specificity?_of_not_applies (h : ¬r.Applies path scope) :
    r.specificity? (path ++ [scope]) = r.specificity? path := by
  by_cases hscope : Scope.covers r.scope scope = true
  · have hwithin : ¬Scope.Within r.parents path := fun hparents => h ⟨hscope, hparents⟩
    have hparents : ¬Scope.pathCovers r.parents.reverse path.reverse = true := fun hcovers =>
      hwithin (Scope.Within.reverse_iff.1 (Scope.pathCovers_iff.1 hcovers))
    have hnone : r.specificity? path = none := by
      cases hspec : r.specificity? path with
      | none => rfl
      | some spec => exact absurd (within_of_specificity? hspec).1 hwithin
    rw [hnone]
    simp [specificity?, deepest?_append, hscope, hparents]
  · simp [specificity?, deepest?_append, hscope]

theorem rank_le_iff {r r' : ThemeRule} : r'.rank ≤ r.rank ↔
    Scope.segmentCount r'.scope < Scope.segmentCount r.scope ∨
      Scope.segmentCount r'.scope = Scope.segmentCount r.scope ∧
        (r'.parents.length < r.parents.length ∨
          r'.parents.length = r.parents.length ∧ r'.index ≤ r.index) := by
  simp [rank, Prod.Lex.toLex_le_toLex]

end ThemeRule

/-! ## Attributes -/

namespace Theme

section Attributes

variable {α : Type} {get : ThemeRule → Option α} {default a : α} {t : Theme} {path : ScopePath}
  {scope : ScopeName}

/-- The attribute that a path inherits: the innermost scope takes it from the rule of the highest
rank among those that set it and apply there; where there is none, it is what the path without that
scope inherits. -/
inductive Inherits (t : Theme) (get : ThemeRule → Option α) (default : α) : ScopePath → α → Prop
  | default : Inherits t get default [] default
  | own {path : ScopePath} {scope : ScopeName} {r : ThemeRule} {a : α} (hr : r ∈ t.rules)
      (happlies : r.Applies path scope) (ha : get r = some a)
      (hmost : ∀ r' ∈ t.rules, r'.Applies path scope → (get r').isSome → r'.rank ≤ r.rank) :
      Inherits t get default (path ++ [scope]) a
  | inherited {path : ScopePath} {scope : ScopeName} {a : α}
      (hnone : ∀ r ∈ t.rules, r.Applies path scope → get r = none)
      (h : Inherits t get default path a) : Inherits t get default (path ++ [scope]) a

theorem strongest_congr {path path' : ScopePath} : ∀ {rules : List ThemeRule}
    (best : Option (Specificity × α)),
    (∀ r ∈ rules, (get r).isSome → r.specificity? path = r.specificity? path') →
      strongest get path best rules = strongest get path' best rules
  | [], _, _ => rfl
  | r :: rs, best, h => by
    have hrest : ∀ best, strongest get path best rs = strongest get path' best rs := fun best =>
      strongest_congr best fun r' hr' => h r' (List.mem_cons_of_mem r hr')
    rw [strongest, strongest]
    cases ha : get r with
    | none => simp [hrest]
    | some a =>
      rw [h r List.mem_cons_self (Option.isSome_of_eq_some ha)]
      simp [hrest]

/-- Where no rule that sets the attribute applies at the end, the path has what it had before. -/
theorem attributeOf_append (h : ∀ r ∈ t.rules, r.Applies path scope → get r = none) :
    t.attributeOf get default (path ++ [scope]) = t.attributeOf get default path := by
  have hspec : ∀ r ∈ t.rules, (get r).isSome →
      r.specificity? (path ++ [scope]) = r.specificity? path := by
    intro r hr hsome
    apply ThemeRule.specificity?_of_not_applies
    intro happlies
    rw [h r hr happlies] at hsome
    cases hsome
  rw [attributeOf, attributeOf, strongest_congr none hspec]

/-- Rules of one place set the same value. -/
def AgreesByPlace (t : Theme) (get : ThemeRule → Option α) : Prop :=
  ∀ r ∈ t.rules, ∀ r' ∈ t.rules, r.index = r'.index → get r = get r'

/-- The rule of the highest rank among those that apply at the end decides. -/
theorem attributeOf_of_rank (hagrees : t.AgreesByPlace get) {r : ThemeRule} (hr : r ∈ t.rules)
    (happlies : r.Applies path scope) (ha : get r = some a)
    (hmost : ∀ r' ∈ t.rules, r'.Applies path scope → (get r').isSome → r'.rank ≤ r.rank) :
    t.attributeOf get default (path ++ [scope]) = a := by
  have hoffer : r.Offers get (path ++ [scope]) (_, a) :=
    ⟨ThemeRule.specificity?_of_applies happlies, ha⟩
  obtain ⟨⟨spec, b⟩, hfound, hle⟩ : ∃ found,
      strongest get (path ++ [scope]) none t.rules = some found ∧ found.1.atLeast
        ⟨path.length, Scope.segmentCount r.scope, r.parents.length, r.index⟩ = true :=
    strongest_atLeast (.inr ⟨r, hr, hoffer⟩)
  obtain ⟨r', hr', hspec', hb⟩ := (offered_of_strongest hfound).resolve_left nofun
  dsimp only at hle hspec' hb
  -- what was found is as deep as the end, so its rule applies there
  have happlies' : r'.Applies path scope := by
    by_contra hnot
    rw [ThemeRule.specificity?_of_not_applies hnot] at hspec'
    have hlt := (ThemeRule.within_of_specificity? hspec').2
    rw [Specificity.atLeast_iff] at hle
    dsimp only at hle
    omega
  rw [ThemeRule.specificity?_of_applies happlies'] at hspec'
  cases hspec'
  have hrank := ThemeRule.rank_le_iff.1 (hmost r' hr' happlies' (Option.isSome_of_eq_some hb))
  have hindex : r.index = r'.index := by
    rw [Specificity.atLeast_iff] at hle
    dsimp only at hle
    omega
  have hget := hagrees r hr r' hr' hindex
  rw [ha, hb] at hget
  cases hget
  rw [attributeOf, hfound]

/-- Of the rules that set the attribute and apply at the end, if there are any, one has the highest
rank. -/
theorem exists_rank (t : Theme) (get : ThemeRule → Option α) (path : ScopePath)
    (scope : ScopeName) : (∀ r ∈ t.rules, r.Applies path scope → get r = none) ∨
      ∃ r ∈ t.rules, r.Applies path scope ∧ (∃ a, get r = some a) ∧
        ∀ r' ∈ t.rules, r'.Applies path scope → (get r').isSome → r'.rank ≤ r.rank := by
  classical
  let setting := t.rules.filter fun r => r.Applies path scope ∧ (get r).isSome
  have hmem : ∀ r, r ∈ setting ↔ r ∈ t.rules ∧ r.Applies path scope ∧ (get r).isSome := by
    simp [setting]
  cases hmax : setting.argmax ThemeRule.rank with
  | none =>
    have hnil : setting = [] := List.argmax_eq_none.1 hmax
    left
    intro r hr happlies
    by_contra hsome
    have : r ∈ setting := (hmem r).2 ⟨hr, happlies, Option.isSome_iff_ne_none.2 hsome⟩
    rw [hnil] at this
    cases this
  | some r =>
    obtain ⟨hr, happlies, hsome⟩ := (hmem r).1 (List.argmax_mem hmax)
    right
    refine ⟨r, hr, happlies, Option.isSome_iff_exists.1 hsome, ?_⟩
    intro r' hr' happlies' hsome'
    exact List.le_of_mem_argmax ((hmem r').2 ⟨hr', happlies', hsome'⟩) hmax

/-- A path has the attribute that it inherits, and no other. -/
theorem inherits_iff (hagrees : t.AgreesByPlace get) (path : ScopePath) :
    t.Inherits get default path a ↔ a = t.attributeOf get default path := by
  have hempty : t.attributeOf get default [] = default := by
    rw [attributeOf]
    cases hfound : strongest get [] none t.rules with
    | none => rfl
    | some found =>
      obtain ⟨r, _, hspec, _⟩ := (offered_of_strongest hfound).resolve_left nofun
      cases hspec
  constructor
  · intro h
    induction h with
    | default => exact hempty.symm
    | own hr happlies ha hmost => exact (attributeOf_of_rank hagrees hr happlies ha hmost).symm
    | inherited hnone _ ih => rw [attributeOf_append hnone, ih]
  · rintro rfl
    induction path using List.reverseRecOn with
    | nil =>
      rw [hempty]
      exact .default
    | append_singleton path scope ih =>
      rcases exists_rank t get path scope with hnone | ⟨r, hr, happlies, ⟨a, ha⟩, hmost⟩
      · rw [attributeOf_append hnone]
        exact .inherited hnone ih
      · rw [attributeOf_of_rank hagrees hr happlies ha hmost]
        exact .own hr happlies ha hmost

end Attributes

/-! ## Compiled themes -/

variable {colors : ColorTable} {place : Nat} {rs : List RawThemeRule} {rules : List ThemeRule}

/-- The rules of one selector each, which a rule of the theme has become, set the same. -/
structure SetsAlike (r r' : ThemeRule) : Prop where
  foreground : r.foreground = r'.foreground
  background : r.background = r'.background
  fontStyle : r.fontStyle = r'.fontStyle

/-- Rules of one place come from one rule of the theme, so they set the same. -/
theorem Compiled.setsAlike (h : Compiled colors place rs rules) :
    (∀ r ∈ rules, place ≤ r.index) ∧
      ∀ r ∈ rules, ∀ r' ∈ rules, r.index = r'.index → SetsAlike r r' := by
  induction h with
  | nil => simp
  | skip _ _ ih => exact ⟨fun r hr => Nat.le_of_succ_le (ih.1 r hr), ih.2⟩
  | @rule place raw rs scope foreground background here rules _ hhere _ ih =>
    have hhere : ∀ r ∈ here, r.index = place ∧ r.foreground = foreground ∧
        r.background = background ∧ r.fontStyle = raw.settings.fontStyle.map FontStyle.parse := by
      intro r hr
      obtain ⟨selector, _, hof⟩ := (hhere.mem_iff r).1 hr
      obtain ⟨scope, _, rfl⟩ := Option.map_eq_some_iff.1 hof
      exact ⟨rfl, rfl, rfl, rfl⟩
    refine ⟨fun r hr => ?_, fun r hr r' hr' hindex => ?_⟩
    · rcases List.mem_append.1 hr with hr | hr
      · exact Nat.le_of_eq (hhere r hr).1.symm
      · exact Nat.le_of_succ_le (ih.1 r hr)
    · -- rules of later places stand behind those of this place
      rcases List.mem_append.1 hr with hr | hr <;> rcases List.mem_append.1 hr' with hr' | hr'
      · obtain ⟨_, hf, hb, hs⟩ := hhere r hr
        obtain ⟨_, hf', hb', hs'⟩ := hhere r' hr'
        exact ⟨hf.trans hf'.symm, hb.trans hb'.symm, hs.trans hs'.symm⟩
      · have hplace := (hhere r hr).1
        have hlater := ih.1 r' hr'
        omega
      · have hplace := (hhere r' hr').1
        have hlater := ih.1 r hr
        omega
      · exact ih.2 r hr r' hr' hindex

theorem compiled_of_compile {raw : RawTheme} {t : Theme} (h : compile raw = .ok t) :
    Compiled t.colors 0 raw.settings t.rules := by
  obtain ⟨⟨foreground, t₁⟩, _, h⟩ := Except.bind_eq_ok.1 h
  obtain ⟨⟨background, t₂⟩, _, h⟩ := Except.bind_eq_ok.1 h
  obtain ⟨t₃, _, h⟩ := Except.bind_eq_ok.1 h
  obtain ⟨⟨rules, t₄⟩, hrules, h⟩ := Except.bind_eq_ok.1 h
  cases h
  exact (compileRules_spec hrules).2

/-- The words of a selector are the parents and the scope of its rule. -/
theorem words_of_ruleOf {foreground background : Option Nat} {fontStyle : Option FontStyle}
    {selector : String} {rule : ThemeRule}
    (h : ruleOf place foreground background fontStyle selector = some rule) :
    rule.index = place ∧ Blank.words selector = rule.parents ++ [rule.scope] := by
  obtain ⟨scope, hscope, rfl⟩ := Option.map_eq_some_iff.1 h
  exact ⟨rfl, (List.dropLast_append_getLast? scope hscope).symm⟩

/-- Each attribute of a path is the one that the path inherits scope by scope, from the rules that
the selectors of the theme have become. -/
theorem style_inherits {raw : RawTheme} {t : Theme} (h : compile raw = .ok t) (path : ScopePath) :
    (∀ a, t.Inherits (·.foreground) t.defaults.foreground path a ↔ a = (t.style path).foreground) ∧
    (∀ a, t.Inherits (·.background) t.defaults.background path a ↔ a = (t.style path).background) ∧
    (∀ a, t.Inherits (·.fontStyle) t.defaults.fontStyle path a ↔ a = (t.style path).fontStyle) ∧
    ∀ r ∈ t.rules, ∃ rule scope selector, raw.settings[r.index]? = some rule ∧
      rule.scope = some scope ∧ selector ∈ scope.selectors ∧
        Blank.words selector = r.parents ++ [r.scope] := by
  have hcompiled := compiled_of_compile h
  have halike := hcompiled.setsAlike.2
  refine ⟨fun a => ?_, fun a => ?_, fun a => ?_, fun r hr => ?_⟩
  · exact inherits_iff (fun r hr r' hr' hindex => (halike r hr r' hr' hindex).foreground) path
  · exact inherits_iff (fun r hr r' hr' hindex => (halike r hr r' hr' hindex).background) path
  · exact inherits_iff (fun r hr r' hr' hindex => (halike r hr r' hr' hindex).fontStyle) path
  · obtain ⟨k, rule, scope, foreground, background, here, hrule, hscope, hhere, hmem⟩ :=
      hcompiled.of_mem hr
    obtain ⟨selector, hselector, hof⟩ := (hhere.mem_iff r).1 hmem
    obtain ⟨hindex, hwords⟩ := words_of_ruleOf hof
    rw [Nat.zero_add] at hindex
    exact ⟨rule, scope, selector, hindex ▸ hrule, hscope, hselector, hwords⟩

theorem dusk_nested : (compile dusk).toOption.map (fun t =>
    ((t.style ["words", "comment.line", "markup"]).foreground,
      (t.style ["words", "comment.line", "markup"]).fontStyle)) =
      some (4, { FontStyle.plain with italic := true }) := by
  decide +kernel

/-- Markup in a comment among words has no rule of its own: it inherits white and italics, which two
different rules set. -/
theorem style_inherits_dusk : ∃ t, compile dusk = .ok t ∧
    t.Inherits (·.foreground) t.defaults.foreground ["words", "comment.line", "markup"] 4 ∧
    t.Inherits (·.fontStyle) t.defaults.fontStyle ["words", "comment.line", "markup"]
      { FontStyle.plain with italic := true } := by
  obtain ⟨t, ht, hstyle⟩ := Option.map_eq_some_iff.1 dusk_nested
  have hcompile := Except.eq_ok_of_toOption ht
  obtain ⟨hforeground, _, hfontStyle, _⟩ :=
    style_inherits hcompile ["words", "comment.line", "markup"]
  obtain ⟨h₁, h₂⟩ := Prod.ext_iff.1 hstyle
  exact ⟨t, hcompile, (hforeground 4).2 h₁.symm, (hfontStyle _).2 h₂.symm⟩

end Theme

end Highlight
