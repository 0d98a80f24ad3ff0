import Highlight.Text.Blank
import Highlight.Text.Bytes

/-!
# Scope names

A scope name is a text of segments separated by dots, such as `comment.line.double-slash`. A
selector name matches the scopes that it equals or that continue it after a dot. The names are not
cut into their segments for this: their bytes are compared, and then the byte of the scope behind
those of the selector is looked at (`covers?`).
-/

namespace Highlight

/-- A dotted name that classifies text or names a grammar. -/
abbrev ScopeName := String

/-- The scopes around a piece of text, from the outermost to the innermost. -/
abbrev ScopePath := List ScopeName

namespace Scope

/-- Whether the selector name matches the scope: it is not empty, and the scope equals it or goes on
with a dot after it. There is no answer where the byte behind the selector is looked at but the
scope has none. -/
def covers? (selector scope : ScopeName) : Option Bool :=
  if selector == "" then some false
  else if scope == selector then some true
  else if selector.utf8ByteSize < scope.utf8ByteSize
      && (utf8 selector.toList).isPrefixOf (utf8 scope.toList) then
    (utf8 scope.toList)[selector.utf8ByteSize]?.map (· == '.'.toUInt8)
  else some false

/-- Whether the selector name matches the scope. -/
def covers (selector scope : ScopeName) : Bool := (covers? selector scope).getD false

/-- The value of the first name in a list that matches the scope. -/
def firstMatch? {α : Type} (entries : List (ScopeName × α)) (scope : ScopeName) : Option α :=
  (entries.find? fun e => covers e.1 scope).map (·.2)

/-- The segments of a scope name. -/
def segments (scope : ScopeName) : List String :=
  if scope == "" then [] else Blank.split '.' scope

/-- The number of segments. -/
def segmentCount (scope : ScopeName) : Nat := (segments scope).length

/-- The path without its outer scopes up to the first one that passes the test. -/
def afterFirst? (test : ScopeName → Bool) : ScopePath → Option ScopePath
  | [] => none
  | s :: rest => if test s then some rest else afterFirst? test rest

/-- Whether the names match scopes of the path in order, each as far out as it can. -/
def pathCovers : List ScopeName → ScopePath → Bool
  | [], _ => true
  | name :: names, path =>
    match afterFirst? (covers name) path with
    | some rest => pathCovers names rest
    | none => false

end Scope

end Highlight
