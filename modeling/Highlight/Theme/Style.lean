import Highlight.Scope.Metadata
import Highlight.Theme.Color
import Highlight.Theme.Raw

/-!
# Themes

A theme gives a style to every scope path. Each attribute of the style comes from the most specific
rule that sets it: the one whose scope is matched deepest in the path, then the one with more
segments, then with more parents, then the later one. Attributes that no rule sets have defaults.
-/

namespace Highlight

/-- Colors by number and the font style. -/
structure Style where
  foreground : Nat
  background : Nat
  fontStyle : FontStyle
  deriving Repr, DecidableEq, Inhabited

/-- One selector of a theme rule with the attributes that it sets. -/
structure ThemeRule where
  /-- Matches the scope that gets the style. -/
  scope : ScopeName
  /-- Match scopes around it in order, the innermost last. -/
  parents : List ScopeName
  /-- The place of the rule in the theme. -/
  index : Nat
  foreground : Option Nat
  background : Option Nat
  fontStyle : Option FontStyle
  deriving Repr

/-- What decides between rules: depth, segments, parents and place, in this order. -/
structure Specificity where
  depth : Nat
  segments : Nat
  parents : Nat
  index : Nat
  deriving Repr, DecidableEq

namespace Specificity

/-- Whether `a` is at least as specific as `b`. -/
def atLeast (a b : Specificity) : Bool :=
  b.depth < a.depth || (a.depth == b.depth
    && (b.segments < a.segments || (a.segments == b.segments
      && (b.parents < a.parents || (a.parents == b.parents && b.index ≤ a.index)))))

end Specificity

namespace ThemeRule

/-- The last place in a path whose scope the name matches, with the scopes outside it from the
innermost on. -/
def deepest? (name : ScopeName) : (depth : Nat) → (outer : List ScopeName) → ScopePath →
    Option (Nat × List ScopeName)
  | _, _, [] => none
  | depth, outer, s :: path =>
    match deepest? name (depth + 1) (s :: outer) path with
    | some found => some found
    | none => if Scope.covers name s then some (depth, outer) else none

/-- How specific the rule is for a path, if it applies. Both lists of parents and of scopes around
the match are taken from the innermost on. -/
def specificity? (r : ThemeRule) (path : ScopePath) : Option Specificity :=
  match deepest? r.scope 0 [] path with
  | some (depth, outer) =>
    if Scope.pathCovers r.parents.reverse outer then
      some ⟨depth, Scope.segmentCount r.scope, r.parents.length, r.index⟩
    else none
  | none => none

end ThemeRule

/-- A compiled theme. -/
structure Theme where
  name : Option String
  defaults : Style
  rules : List ThemeRule
  colors : ColorTable
  deriving Inhabited

namespace Theme

/-! ## Styles of paths -/

/-- The value that the most specific of the rules sets, the last one of those that are equally
specific. -/
def strongest {α : Type} (get : ThemeRule → Option α) (path : ScopePath) :
    Option (Specificity × α) → List ThemeRule → Option (Specificity × α)
  | best, [] => best
  | best, r :: rs =>
    match r.specificity? path, get r with
    | some spec, some a =>
      if best.all fun (old, _) => spec.atLeast old then
        strongest get path (some (spec, a)) rs
      else strongest get path best rs
    | _, _ => strongest get path best rs

/-- The attribute of a path. -/
def attributeOf {α : Type} (t : Theme) (get : ThemeRule → Option α) (fallback : α)
    (path : ScopePath) : α :=
  match strongest get path none t.rules with
  | some (_, a) => a
  | none => fallback

/-- The style of a path. -/
def style (t : Theme) (path : ScopePath) : Style where
  foreground := t.attributeOf (·.foreground) t.defaults.foreground path
  background := t.attributeOf (·.background) t.defaults.background path
  fontStyle := t.attributeOf (·.fontStyle) t.defaults.fontStyle path

/-! ## Compilation -/

/-- Whether the rule has no selectors, so that it sets defaults. -/
def isDefault (r : RawThemeRule) : Bool := r.scope.all (·.selectors.isEmpty)

/-- The last of the values that the rules set. -/
def lastSet {α : Type} (get : RawThemeSettings → Option α) (fallback : α)
    (rules : List RawThemeRule) : α :=
  ((rules.filterMap fun r => get r.settings).getLast?).getD fallback

/-- Numbers the backgrounds of rules with scopes. -/
def internBackgrounds : ColorTable → List RawThemeRule → Except ThemeError ColorTable
  | t, [] => .ok t
  | t, r :: rs =>
    match r.scope, r.settings.background with
    | some _, some b => do
      let (_, t) ← t.internBackground b
      internBackgrounds t rs
    | _, _ => internBackgrounds t rs

/-- The number of a color that may be missing. -/
def internOptional (intern : ColorTable → String → Except ThemeError (Nat × ColorTable))
    (t : ColorTable) : Option String → Except ThemeError (Option Nat × ColorTable)
  | none => .ok (none, t)
  | some c => do
    let (id, t) ← intern t c
    return (some id, t)

/-- The rule of one selector. -/
def ruleOf (index : Nat) (foreground background : Option Nat) (fontStyle : Option FontStyle)
    (selector : String) : Option ThemeRule :=
  let words := Blank.words selector
  words.getLast?.map fun scope =>
    ⟨scope, words.dropLast, index, foreground, background, fontStyle⟩

/-- Compiles the rules with scopes, the first of which has the place `index`. -/
def compileRules : (index : Nat) → ColorTable → List RawThemeRule →
    Except ThemeError (List ThemeRule × ColorTable)
  | _, t, [] => .ok ([], t)
  | index, t, r :: rs =>
    match r.scope with
    | none => compileRules (index + 1) t rs
    | some scope => do
      let (foreground, t) ← internOptional ColorTable.internForeground t r.settings.foreground
      let (background, t) ← internOptional ColorTable.internBackground t r.settings.background
      let fontStyle := r.settings.fontStyle.map FontStyle.parse
      let here := scope.selectors.filterMap (ruleOf index foreground background fontStyle)
      let (rest, t) ← compileRules (index + 1) t rs
      return (here ++ rest, t)

/-- Compiles a theme. The default colors get the first numbers, then the backgrounds, whose field is
the smaller one, then the other colors. -/
def compile (raw : RawTheme) : Except ThemeError Theme := do
  let defaults := raw.settings.filter isDefault
  let (foreground, t) ← ColorTable.empty.internForeground
    (lastSet (·.foreground) "#000000" defaults)
  let (background, t) ← t.internBackground (lastSet (·.background) "#FFFFFF" defaults)
  let fontStyle := lastSet (fun s => s.fontStyle.map FontStyle.parse) FontStyle.plain defaults
  let t ← internBackgrounds t raw.settings
  let (rules, t) ← compileRules 0 t raw.settings
  return ⟨raw.name, ⟨foreground, background, fontStyle⟩, rules, t⟩

/-- Reads and compiles a theme from a JSON text. -/
def parse (text : String) : Except ThemeError Theme :=
  match RawTheme.parse? text with
  | some raw => compile raw
  | none => .error .malformed

/-- The theme without rules: black on white. -/
def standard : Theme :=
  ⟨none, ⟨1, 2, FontStyle.plain⟩, [], ⟨["#000000", "#FFFFFF"]⟩⟩

/-- The theme without rules is what a theme without settings compiles to. -/
theorem compile_empty : compile RawTheme.empty = .ok standard := by
  rfl

end Theme

/-! ## Remembered styles -/

/-- The greatest number of paths whose styles are remembered. -/
def StyleCache.capacity : Nat := 4096

/-- Styles of paths that have been asked for. It holds nothing but what the theme says, and no more
paths than fit. -/
structure StyleCache (t : Theme) where
  entries : List (ScopePath × Style)
  sound : ∀ e ∈ entries, e.2 = t.style e.1
  bounded : entries.length ≤ StyleCache.capacity

namespace StyleCache

/-- Nothing is remembered. -/
def empty (t : Theme) : StyleCache t := ⟨[], by simp, by simp⟩

/-- The style of a path and the cache that remembers it. A full cache is emptied first. -/
def style {t : Theme} (c : StyleCache t) (path : ScopePath) : Style × StyleCache t :=
  match c.entries.lookup path with
  | some s => (s, c)
  | none =>
    let s := t.style path
    if h : c.entries.length < capacity then
      (s, ⟨(path, s) :: c.entries, by
        intro e he
        rcases List.mem_cons.1 he with same | old
        · rw [same]
        · exact c.sound e old, by
        rw [List.length_cons]
        omega⟩)
    else
      (s, ⟨[(path, s)], by
        intro e he
        rw [List.mem_singleton.1 he], by
        simp [capacity]⟩)

end StyleCache

end Highlight
