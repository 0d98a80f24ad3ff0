import Highlight.Data.JsonText
import Highlight.Scope.Name
import Highlight.Theme.Raw

/-!
# Language manifests

A manifest lists the grammars, the languages they are for, the language configurations and the theme
that an editor comes with. `Manifest.parse?` reads one from a JSON text and `Manifest.render` writes
it.
-/

namespace Highlight

/-- A grammar of a manifest. -/
structure ManifestGrammar where
  language : Option String
  /-- The grammars injected into this one. -/
  injections : List ScopeName
  /-- The languages of embedded text by the names of its scopes. -/
  embeddedLanguages : List (ScopeName × String)
  path : String
  deriving Repr, DecidableEq

/-- A language manifest. -/
structure Manifest where
  base : String
  grammars : List (ScopeName × ManifestGrammar)
  /-- The languages that have a configuration. -/
  configurations : List String
  theme : RawTheme
  deriving Repr, DecidableEq

namespace ManifestGrammar

/-- Reads a grammar. -/
def read? : Reading ManifestGrammar := fun v => do
  let f ← Value.record? jsonRules.recordsAsLists
    ["language", "injections", "embeddedLanguages", "path"] v
  return {
    language := ← Value.optional? f "language" Value.string?
    injections := ← Value.default? f "injections" (Value.list? Value.string?) []
    embeddedLanguages :=
      ← Value.default? f "embeddedLanguages" (Value.map? Value.string? Value.string?) []
    path := ← Value.required? f "path" Value.string? }

/-- Writes a grammar; what is empty is left out. -/
def value (g : ManifestGrammar) : Value :=
  .dict (optionalEntry "language" (g.language.map .text)
    ++ (if g.injections.isEmpty then []
        else [(.text "injections", .list (g.injections.map .text))])
    ++ (if g.embeddedLanguages.isEmpty then []
        else [(.text "embeddedLanguages",
          .dict (g.embeddedLanguages.map fun (k, v) => (.text k, .text v)))])
    ++ [(.text "path", .text g.path)])

end ManifestGrammar

namespace Manifest

/-- Reads a manifest. -/
def read? : Reading Manifest := fun v => do
  let f ← Value.record? jsonRules.recordsAsLists
    ["baseResourceURI", "grammars", "configurations", "theme"] v
  return {
    base := ← Value.default? f "baseResourceURI" Value.string? ""
    grammars := ← Value.default? f "grammars" (Value.map? Value.string? ManifestGrammar.read?) []
    configurations := ← Value.default? f "configurations" (Value.list? Value.string?) []
    theme := ← Value.default? f "theme" RawTheme.read? .empty }

/-- Writes a manifest. -/
def value (m : Manifest) : Value :=
  .dict [
    (.text "baseResourceURI", .text m.base),
    (.text "grammars", .dict (m.grammars.map fun (k, g) => (.text k, g.value))),
    (.text "configurations", .list (m.configurations.map .text)),
    (.text "theme", m.theme.value)]

/-- Reads a manifest from a JSON text. -/
def parse? (text : String) : Option Manifest := (Json.parse? text).bind read?

/-- The JSON text of a manifest. -/
def render (m : Manifest) : String := Json.render m.value

/-- Where a grammar's text is. -/
def grammarUri (m : Manifest) (path : String) : String := m.base ++ "/grammars/" ++ path

/-- Where the configuration of a language is. -/
def configurationUri (m : Manifest) (language : String) : String :=
  m.base ++ "/configurations/" ++ language ++ ".json"

/-- The scope of the first grammar for a language. -/
def scopeOf? (m : Manifest) (language : String) : Option ScopeName :=
  (m.grammars.find? fun (_, g) => g.language == some language).map (·.1)

/-- The languages of grammars and then those of configurations, each once. -/
def languages (m : Manifest) : List String :=
  (m.grammars.filterMap (·.2.language) ++ m.configurations).foldl
    (fun out l => if out.contains l then out else out ++ [l]) []

end Manifest

end Highlight
