import Highlight.Data.Json
import Highlight.Data.Reading

/-!
# Themes as written

A theme is a list of rules that give styles to scopes. `RawTheme.read?` reads a theme from a value,
`RawTheme.value` writes it as one.
-/

namespace Highlight

/-- The scopes of a theme rule: one text of selectors, or several. -/
inductive RawThemeScope where
  | one (text : String)
  | many (texts : List String)
  deriving Repr, DecidableEq

/-- The style of a theme rule. -/
structure RawThemeSettings where
  foreground : Option String
  background : Option String
  fontStyle : Option String
  deriving Repr, DecidableEq

/-- A rule of a theme. -/
structure RawThemeRule where
  name : Option String
  scope : Option RawThemeScope
  settings : RawThemeSettings
  deriving Repr, DecidableEq

/-- A theme as written. -/
structure RawTheme where
  name : Option String
  settings : List RawThemeRule
  deriving Repr, DecidableEq

/-- What JSON allows. -/
def jsonRules : FormatRules := ⟨127, true⟩

namespace RawThemeScope

/-- The selectors of the scopes: the texts between commas, without blanks around them. -/
def selectors (s : RawThemeScope) : List String :=
  let split := fun (t : String) =>
    ((Blank.split ',' t).map Blank.trimmed).filter (· != "")
  match s with
  | one t => split t
  | many ts => ts.flatMap split

/-- Reads the scopes. -/
def read? : Reading RawThemeScope := fun v =>
  match v with
  | .list vs => (vs.mapM Value.string?).map many
  | v => v.string?.map one

/-- Writes the scopes. -/
def value : RawThemeScope → Value
  | one t => .text t
  | many ts => .list (ts.map .text)

end RawThemeScope

/-- The entry of a field, or none where it is missing. -/
def optionalEntry (key : String) (v : Option Value) : List (Value × Value) :=
  match v with
  | some v => [(.text key, v)]
  | none => []

namespace RawThemeSettings

/-- No style. -/
def unset : RawThemeSettings := ⟨none, none, none⟩

/-- Reads the style. -/
def read? : Reading RawThemeSettings := fun v => do
  let f ← Value.record? jsonRules.recordsAsLists ["foreground", "background", "fontStyle"] v
  return {
    foreground := ← Value.optional? f "foreground" Value.string?
    background := ← Value.optional? f "background" Value.string?
    fontStyle := ← Value.optional? f "fontStyle" Value.string? }

/-- Writes the style. -/
def value (s : RawThemeSettings) : Value :=
  .dict (optionalEntry "foreground" (s.foreground.map .text)
    ++ optionalEntry "background" (s.background.map .text)
    ++ optionalEntry "fontStyle" (s.fontStyle.map .text))

end RawThemeSettings

namespace RawThemeRule

/-- Reads a rule. -/
def read? : Reading RawThemeRule := fun v => do
  let f ← Value.record? jsonRules.recordsAsLists ["name", "scope", "settings"] v
  return {
    name := ← Value.optional? f "name" Value.string?
    scope := ← Value.optional? f "scope" RawThemeScope.read?
    settings := ← Value.default? f "settings" RawThemeSettings.read? .unset }

/-- Writes a rule. -/
def value (r : RawThemeRule) : Value :=
  .dict (optionalEntry "name" (r.name.map .text)
    ++ optionalEntry "scope" (r.scope.map RawThemeScope.value)
    ++ [(.text "settings", r.settings.value)])

end RawThemeRule

namespace RawTheme

/-- A theme without a name and rules. -/
def empty : RawTheme := ⟨none, []⟩

/-- Reads a theme. The rules have two keys. -/
def read? : Reading RawTheme := fun v => do
  let f ← Value.recordWith? [("tokenColors", "settings")] jsonRules.recordsAsLists
    ["name", "settings"] v
  return {
    name := ← Value.optional? f "name" Value.string?
    settings := ← Value.default? f "settings" (Value.list? RawThemeRule.read?) [] }

/-- Writes a theme. -/
def value (t : RawTheme) : Value :=
  .dict (optionalEntry "name" (t.name.map .text)
    ++ [(.text "settings", .list (t.settings.map RawThemeRule.value))])

/-- Reads a theme from a JSON text. -/
def parse? (text : String) : Option RawTheme := (Json.parse? text).bind read?

end RawTheme

end Highlight
