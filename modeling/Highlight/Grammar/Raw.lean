import Highlight.Data.Reading

/-!
# Grammars as written

The rules of a grammar before anything is resolved: which keys are present decides what kind of rule
it is. `RawGrammar.read?` reads a grammar from a document value.
-/

namespace Highlight

/-- A rule as written. The kind of the rule follows from the keys that are present. -/
structure RawRule where
  /-- A reference to other rules. -/
  inclusion : Option String
  matchSource : Option String
  name : Option String
  contentName : Option String
  beginSource : Option String
  endSource : Option String
  whileSource : Option String
  captures : Option (List (Nat × RawRule))
  beginCaptures : Option (List (Nat × RawRule))
  endCaptures : Option (List (Nat × RawRule))
  whileCaptures : Option (List (Nat × RawRule))
  patterns : Option (List RawRule)
  repository : Option (List (String × RawRule))
  applyEndPatternLast : Option Bool
  disabled : Option Bool
  deriving Repr, Inhabited

/-- A grammar as written. -/
structure RawGrammar where
  scopeName : String
  name : Option String
  fileTypes : List String
  firstLineMatch : Option String
  patterns : List RawRule
  repository : List (String × RawRule)
  injections : List (String × RawRule)
  injectionSelector : Option String
  injectTo : List String
  deriving Repr, Inhabited

namespace RawRule

/-- The keys of a rule, in order. -/
def keys : List String :=
  ["include", "match", "name", "contentName", "begin", "end", "while", "captures", "beginCaptures",
   "endCaptures", "whileCaptures", "patterns", "repository", "applyEndPatternLast", "disabled"]

/-- A flag: a boolean, an integer other than zero, or a text that says `1` or `true`. -/
def flag? (v : Value) : Option Bool :=
  match v.resolve with
  | .bool b => some b
  | .int n => some (n != 0)
  | .text s =>
    let word := Blank.trimmed s
    some (word == "1" || word == "true")
  | _ => none

/-- The number that a text writes, with an optional plus sign, if it fits 64 bits. -/
def indexText? (s : String) : Option Nat :=
  let digits :=
    match Blank.trim s.toList with
    | '+' :: cs => cs
    | cs => cs
  if digits.all Char.isDigit then
    (Numeral.value? 10 digits).bind fun n => if n < UInt64.size then some n else none
  else none

/-- The number of a captured group. -/
def index? (v : Value) : Option Nat :=
  match v.resolve with
  | .int n => if 0 ≤ n then some n.toNat else none
  | .text s => indexText? s
  | _ => none

/-- Captures by group, in the order of the groups. -/
def captures? (nested : Reading RawRule) : Reading (List (Nat × RawRule)) := fun v =>
  (Value.map? index? nested v).map fun m => m.mergeSort fun a b => a.1 ≤ b.1

/-- Reads a rule, given how to read the rules in its lists and maps; nothing where those may not
nest. -/
def readWith (rules : FormatRules) (nested : Option (Reading RawRule)) : Reading RawRule :=
  fun v => do
  let f ← Value.record? rules.recordsAsLists keys v
  let inner : Reading RawRule := fun v => nested.bind (· v)
  let container {α : Type} (read : Reading α) : Reading α := fun v =>
    if nested.isSome then read v else none
  return {
    inclusion := ← Value.optional? f "include" Value.string?
    matchSource := ← Value.optional? f "match" Value.string?
    name := ← Value.optional? f "name" Value.string?
    contentName := ← Value.optional? f "contentName" Value.string?
    beginSource := ← Value.optional? f "begin" Value.string?
    endSource := ← Value.optional? f "end" Value.string?
    whileSource := ← Value.optional? f "while" Value.string?
    captures := ← Value.optional? f "captures" (container (captures? inner))
    beginCaptures := ← Value.optional? f "beginCaptures" (container (captures? inner))
    endCaptures := ← Value.optional? f "endCaptures" (container (captures? inner))
    whileCaptures := ← Value.optional? f "whileCaptures" (container (captures? inner))
    patterns := ← Value.optional? f "patterns" (container (Value.list? inner))
    repository := ← Value.optional? f "repository" (container (Value.map? Value.string? inner))
    applyEndPatternLast := ← Value.optional? f "applyEndPatternLast" flag?
    disabled := ← Value.optional? f "disabled" flag? }

/-- Reads a rule where lists and maps may nest to the given depth. -/
def read? (rules : FormatRules) : Nat → Reading RawRule
  | 0 => fun _ => none
  | 1 => readWith rules none
  | levels + 2 => readWith rules (some (read? rules levels))

end RawRule

namespace RawGrammar

/-- The keys of a grammar, in order. -/
def keys : List String :=
  ["scopeName", "name", "fileTypes", "firstLineMatch", "patterns", "repository", "injections",
   "injectionSelector", "injectTo"]

/-- Reads a grammar. -/
def read? (rules : FormatRules) : Reading RawGrammar := fun v => do
  let f ← Value.record? rules.recordsAsLists keys v
  let rule := RawRule.read? rules (rules.levels - 2)
  return {
    scopeName := ← Value.required? f "scopeName" Value.string?
    name := ← Value.optional? f "name" Value.string?
    fileTypes := ← Value.default? f "fileTypes" (Value.list? Value.string?) []
    firstLineMatch := ← Value.optional? f "firstLineMatch" Value.string?
    patterns := ← Value.default? f "patterns" (Value.list? rule) []
    repository := ← Value.default? f "repository" (Value.map? Value.string? rule) []
    injections := ← Value.default? f "injections" (Value.map? Value.string? rule) []
    injectionSelector := ← Value.optional? f "injectionSelector" Value.string?
    injectTo := ← Value.default? f "injectTo" (Value.list? Value.string?) [] }

end RawGrammar

end Highlight
