import Highlight.Configuration.Raw
import Highlight.Regex.ConfigurationPattern
import Highlight.Regex.Reach

/-!
# Language configurations

A language configuration with its patterns compiled. The options of a pattern are written in front
of it; options that the dialect does not have are left out.
-/

namespace Highlight

/-- Why a configuration is not accepted. -/
inductive ConfigurationError where
  /-- The text is malformed. -/
  | malformed
  /-- The pattern of a field cannot be compiled. -/
  | invalidRegex (field : String)
  deriving Repr, DecidableEq

/-- A compiled pattern and its text. -/
structure TextPattern where
  source : String
  regex : Regex

namespace TextPattern

/-- The text of a pattern with its options in front of it. -/
def sourceOf (raw : RawPattern) : String :=
  let letters := raw.flags.toList.filter fun c => ['i', 'm', 's'].contains c
  if letters.isEmpty then raw.pattern else "(?" ++ String.ofList letters ++ ")" ++ raw.pattern

/-- Compiles the pattern of a field. -/
def compile (field : String) (raw : RawPattern) : Except ConfigurationError TextPattern :=
  let source := sourceOf raw
  match Regex.ofConfigurationPattern source with
  | .ok r => .ok ⟨source, r⟩
  | .error _ => .error (.invalidRegex field)

/-- Whether the pattern matches anywhere in a text. -/
def occursIn (p : TextPattern) (text : String) : Bool := p.regex.occursIn text

/-- Compiles the pattern of a field that may be missing. -/
def compile? (field : String) : Option RawPattern → Except ConfigurationError (Option TextPattern)
  | none => .ok none
  | some raw => do return some (← compile field raw)

end TextPattern

/-- The patterns that decide on indentation. -/
structure IndentationRules where
  decrease : TextPattern
  increase : TextPattern
  next : Option TextPattern
  unindented : Option TextPattern

namespace IndentationRules

/-- Compiles the patterns. -/
def compile (raw : RawIndentation) : Except ConfigurationError IndentationRules := do
  return {
    decrease := ← TextPattern.compile "indentationRules.decreaseIndentPattern" raw.decrease
    increase := ← TextPattern.compile "indentationRules.increaseIndentPattern" raw.increase
    next := ← TextPattern.compile? "indentationRules.indentNextLinePattern" raw.next
    unindented := ← TextPattern.compile? "indentationRules.unIndentedLinePattern" raw.unindented }

end IndentationRules

/-- How regions fold. -/
structure FoldingRules where
  offside : Bool
  markers : Option (TextPattern × TextPattern)

namespace FoldingRules

/-- Compiles the patterns. -/
def compile (raw : RawFolding) : Except ConfigurationError FoldingRules :=
  match raw.markers with
  | none => .ok ⟨raw.offside, none⟩
  | some (start, stop) => do
    let a ← TextPattern.compile "folding.markers.start" start
    let b ← TextPattern.compile "folding.markers.end" stop
    return ⟨raw.offside, some (a, b)⟩

end FoldingRules

/-- A language configuration. -/
structure LanguageConfiguration where
  comments : Option CommentConfig
  brackets : List (String × String)
  autoClosing : List AutoClosingPair
  surrounding : List (String × String)
  word : Option TextPattern
  indentation : Option IndentationRules
  folding : Option FoldingRules

namespace LanguageConfiguration

/-- Compiles a configuration. -/
def compile (raw : RawConfiguration) : Except ConfigurationError LanguageConfiguration := do
  let word ← TextPattern.compile? "wordPattern" raw.word
  let indentation ← raw.indentation.mapM IndentationRules.compile
  let folding ← raw.folding.mapM FoldingRules.compile
  return ⟨raw.comments, raw.brackets, raw.autoClosing, raw.surrounding, word, indentation, folding⟩

/-- Reads and compiles a configuration from a JSON text. -/
def parse (text : String) : Except ConfigurationError LanguageConfiguration :=
  match RawConfiguration.parse? text with
  | some raw => compile raw
  | none => .error .malformed

/-- The patterns by name, those that are there. -/
def patterns (c : LanguageConfiguration) : List (String × TextPattern) :=
  let all : List (String × Option TextPattern) := [
    ("word", c.word),
    ("decrease", c.indentation.map (·.decrease)),
    ("increase", c.indentation.map (·.increase)),
    ("next", c.indentation.bind (·.next)),
    ("unindented", c.indentation.bind (·.unindented)),
    ("start", (c.folding.bind (·.markers)).map (·.1)),
    ("end", (c.folding.bind (·.markers)).map (·.2))]
  all.filterMap fun (name, p) => p.map fun p => (name, p)

end LanguageConfiguration

end Highlight
