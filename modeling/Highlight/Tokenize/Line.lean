import Highlight.Tokenize.Scan

/-!
# Tokenizing lines

A line is scanned with a line feed after it, so that patterns can match the end of the line, and cut
into tokens that cover it. The stack that a line ends with is what the next line starts with. A line
that cannot be scanned is one token and leaves the stack as it was.
-/

namespace Highlight

/-- The tokens of a line, in byte offsets, and the stack after it. -/
structure LineTokens where
  tokens : List Token
  stack : RuleStack

namespace Grammar

/-- How deep captured texts may be scanned within captured texts. Nothing limits this but the memory
for nested calls, which does not last for as many. -/
def captureLevels : Nat := 10000

/-- The stack before the first line, with the root of the grammar open. -/
def rootStack (g : Grammar) : Except ScanError RuleStack :=
  match g.root? g.scopeName with
  | none => .error (.unknownRule ⟨g.scopeName, 0⟩)
  | some r =>
    .ok <| RuleStack.initial.push
      { rule := r
        depth := 0
        enterPos := none
        anchorPos := none
        beginReachedEnd := false
        endPattern := none
        nameScopes := [g.scopeName]
        contentScopes := [g.scopeName] }

/-- The stack that a line is scanned with. The root of the grammar opens with the first line. -/
def startStack (g : Grammar) (stack : RuleStack) : Except ScanError RuleStack :=
  if stack.isEmpty then g.rootStack else .ok stack

/-- Tokenizes a line without its terminator; captured texts are scanned to a number of levels. -/
def tryTokenizeLine (g : Grammar) (levels : Nat) (line : String) (stack : RuleStack) :
    Except ScanError LineTokens := do
  let cs := line.toList
  let text := Subject.ofList (cs ++ ['\n'])
  let start ← g.startStack stack
  let s ← g.scanLine levels text start stack.isEmpty
  return ⟨(s.run.finish cs.length).map (·.inBytes text), s.stack.clearPositions⟩

/-- The one token of a line that cannot be scanned. -/
def wholeLine (g : Grammar) (line : String) (stack : RuleStack) : LineTokens :=
  let scopes := if stack.isEmpty then [g.scopeName] else stack.scopes
  ⟨[⟨0, line.utf8ByteSize, scopes⟩], stack⟩

/-- Tokenizes a line without its terminator, or makes it one token if it cannot be scanned. -/
def tokenizeLineWithin (g : Grammar) (levels : Nat) (line : String) (stack : RuleStack) :
    LineTokens :=
  match g.tryTokenizeLine levels line stack with
  | .ok t => t
  | .error _ => g.wholeLine line stack

/-- Tokenizes a line without its terminator. -/
def tokenizeLine (g : Grammar) (line : String) (stack : RuleStack) : LineTokens :=
  g.tokenizeLineWithin captureLevels line stack

/-- Tokenizes lines one after another, the first from the given stack; captured texts are scanned to
a number of levels. -/
def tokenizeLinesWithin (g : Grammar) (levels : Nat) (stack : RuleStack) :
    List String → List LineTokens
  | [] => []
  | line :: lines =>
    let t := g.tokenizeLineWithin levels line stack
    t :: g.tokenizeLinesWithin levels t.stack lines

/-- Tokenizes lines one after another, the first from the given stack. -/
def tokenizeLines (g : Grammar) (stack : RuleStack) (lines : List String) : List LineTokens :=
  g.tokenizeLinesWithin captureLevels stack lines

end Grammar

/-- The lines of a text, which line feeds end; a carriage return before a line feed belongs to it.
-/
def textLines (text : String) : List String :=
  let pieces := Blank.splitFrom '\n' [] text.toList
  let strip := fun (cs : List Char) =>
    if cs.getLast? == some '\r' then cs.dropLast else cs
  let last := pieces.getLast?.getD []
  let lines := pieces.dropLast.map strip ++ (if last.isEmpty then [] else [last])
  lines.map String.ofList

namespace Grammar

/-- Tokenizes a text from its start. -/
def tokenizeText (g : Grammar) (text : String) : List LineTokens :=
  g.tokenizeLines .initial (textLines text)

end Grammar

end Highlight
