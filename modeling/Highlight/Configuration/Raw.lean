import Highlight.Data.Json
import Highlight.Data.Reading
import Highlight.Theme.Raw

/-!
# Language configurations as written

What an editor is told about a language beside its grammar: comments, brackets, pairs and patterns.
A pattern is a text or a record with options, a pair is a list of two texts or a record.
-/

namespace Highlight

/-- A pattern and its options as written. -/
structure RawPattern where
  pattern : String
  flags : String
  deriving Repr, DecidableEq

/-- A pair that is closed on its own, and the scopes in which it is not. -/
structure AutoClosingPair where
  openText : String
  closeText : String
  notIn : List String
  deriving Repr, DecidableEq

/-- How comments are written. -/
structure CommentConfig where
  line : Option String
  blockStart : Option String
  blockEnd : Option String
  deriving Repr, DecidableEq

namespace CommentConfig

/-- Line comments only. -/
def ofLine (token : String) : CommentConfig := ⟨some token, none, none⟩

/-- Block comments only. -/
def ofBlock (start stop : String) : CommentConfig := ⟨none, some start, some stop⟩

/-- Whether there are line comments. -/
def hasLine (c : CommentConfig) : Bool := c.line.any (· != "")

/-- Whether there are block comments. -/
def hasBlock (c : CommentConfig) : Bool := c.blockStart.any (· != "") && c.blockEnd.any (· != "")

/-- Whether there are no comments. -/
def isEmpty (c : CommentConfig) : Bool := !c.hasLine && !c.hasBlock

end CommentConfig

/-- The patterns that decide on indentation. -/
structure RawIndentation where
  decrease : RawPattern
  increase : RawPattern
  next : Option RawPattern
  unindented : Option RawPattern
  deriving Repr, DecidableEq

/-- How regions fold. -/
structure RawFolding where
  offside : Bool
  /-- The patterns of the start and the end. -/
  markers : Option (RawPattern × RawPattern)
  deriving Repr, DecidableEq

/-- A language configuration as written. -/
structure RawConfiguration where
  comments : Option CommentConfig
  brackets : List (String × String)
  autoClosing : List AutoClosingPair
  surrounding : List (String × String)
  word : Option RawPattern
  indentation : Option RawIndentation
  folding : Option RawFolding
  deriving Repr, DecidableEq

namespace RawConfiguration

/-- Reads a list of exactly two texts. -/
def tuple? : Reading (String × String)
  | .list [a, b] => do return (← a.string?, ← b.string?)
  | _ => none

/-- Reads a record whose fields JSON has in order or by name. -/
def record? (names : List String) : Reading Value.Fields :=
  Value.record? jsonRules.recordsAsLists names

/-- Reads a value of one of several forms, which may nest less deep the more values are around
it. -/
def within {α : Type} (around : Nat) (read : Reading α) : Reading α := fun v =>
  if around + v.depth ≤ jsonRules.levels then read v else none

/-- Reads a pattern. -/
def pattern? (around : Nat) : Reading RawPattern := within around fun v =>
  match v with
  | .text s => some ⟨s, ""⟩
  | .dict _ => do
    let f ← Value.record? false ["pattern", "flags"] v
    let pattern ← Value.required? f "pattern" Value.string?
    let flags ← Value.optional? f "flags" Value.string?
    return ⟨pattern, flags.getD ""⟩
  | _ => none

/-- Reads a pair. -/
def pair? : Reading AutoClosingPair := within 2 fun v =>
  match v with
  | .list _ => (tuple? v).map fun (a, b) => ⟨a, b, []⟩
  | .dict _ => do
    let f ← Value.record? false ["open", "close", "notIn"] v
    return {
      openText := ← Value.required? f "open" Value.string?
      closeText := ← Value.required? f "close" Value.string?
      notIn := ← Value.default? f "notIn" (Value.list? Value.string?) [] }
  | _ => none

/-- Reads how comments are written. -/
def comments? : Reading CommentConfig := fun v => do
  let f ← record? ["lineComment", "blockComment"] v
  let line ← Value.optional? f "lineComment" Value.string?
  let block ← Value.optional? f "blockComment" tuple?
  return ⟨line, block.map (·.1), block.map (·.2)⟩

/-- Reads the patterns that decide on indentation. -/
def indentation? : Reading RawIndentation := fun v => do
  let f ← record? ["decreaseIndentPattern", "increaseIndentPattern", "indentNextLinePattern",
    "unIndentedLinePattern"] v
  return {
    decrease := ← Value.required? f "decreaseIndentPattern" (pattern? 2)
    increase := ← Value.required? f "increaseIndentPattern" (pattern? 2)
    next := ← Value.optional? f "indentNextLinePattern" (pattern? 2)
    unindented := ← Value.optional? f "unIndentedLinePattern" (pattern? 2) }

/-- Reads the patterns of the start and the end of folded regions. -/
def markers? : Reading (RawPattern × RawPattern) := fun v => do
  let f ← record? ["start", "end"] v
  let a ← Value.required? f "start" (pattern? 3)
  let b ← Value.required? f "end" (pattern? 3)
  return (a, b)

/-- Reads how regions fold. -/
def folding? : Reading RawFolding := fun v => do
  let f ← record? ["offside", "markers"] v
  return {
    offside := ← Value.default? f "offside" Value.bool? false
    markers := ← Value.optional? f "markers" markers? }

/-- Reads a configuration. -/
def read? : Reading RawConfiguration := fun v => do
  let f ← record? ["comments", "brackets", "autoClosingPairs", "surroundingPairs", "wordPattern",
    "indentationRules", "folding"] v
  let surrounding ← Value.default? f "surroundingPairs" (Value.list? pair?) []
  return {
    comments := ← Value.optional? f "comments" comments?
    brackets := ← Value.default? f "brackets" (Value.list? tuple?) []
    autoClosing := ← Value.default? f "autoClosingPairs" (Value.list? pair?) []
    surrounding := surrounding.map fun p => (p.openText, p.closeText)
    word := ← Value.optional? f "wordPattern" (pattern? 1)
    indentation := ← Value.optional? f "indentationRules" indentation?
    folding := ← Value.optional? f "folding" folding? }

/-- Reads a configuration from a JSON text. -/
def parse? (text : String) : Option RawConfiguration := (Json.parse? text).bind read?

end RawConfiguration

end Highlight
