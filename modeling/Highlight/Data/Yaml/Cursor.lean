/-!
# Positions in a YAML text

A `Cursor` is the rest of a text with the place where it starts. Line breaks of all kinds end a
line; a carriage return with the line feed after it is one break.
-/

namespace Highlight.Yaml

/-- The rest of a text and where it starts. -/
structure Cursor where
  rest : List Char
  index : Nat
  line : Nat
  column : Nat

/-- A space or a tab. -/
def isBlank (c : Char) : Bool := c == ' ' || c == '\t'

/-- A line break. -/
def isBreak (c : Char) : Bool :=
  c == '\n' || c == '\r' || c == '\u0085' || c == '\u2028' || c == '\u2029'

/-- Blanks, breaks and the end of the text. -/
def isBlankOrEnd : Option Char → Bool
  | some c => isBlank c || isBreak c
  | none => true

/-- Breaks and the end of the text. -/
def isBreakOrEnd : Option Char → Bool
  | some c => isBreak c
  | none => true

namespace Cursor

/-- The start of a text. -/
def ofList (cs : List Char) : Cursor := ⟨cs, 0, 0, 0⟩

/-- The character here. -/
def here (c : Cursor) : Option Char := c.rest.head?

/-- The character after this one. -/
def next (c : Cursor) : Option Char := c.rest[1]?

/-- Past one character within a line. -/
def step (c : Cursor) : Cursor := ⟨c.rest.drop 1, c.index + 1, c.line, c.column + 1⟩

/-- Past `n` characters within a line. -/
def steps (c : Cursor) : Nat → Cursor
  | 0 => c
  | n + 1 => c.step.steps n

/-- Past a line break, and the break as a scalar keeps it. -/
def line' (c : Cursor) : Cursor × List Char :=
  match c.rest with
  | '\r' :: '\n' :: rest => (⟨rest, c.index + 2, c.line + 1, 0⟩, ['\n'])
  | b :: rest =>
    if b == '\u2028' || b == '\u2029' then (⟨rest, c.index + 1, c.line + 1, 0⟩, [b])
    else if isBreak b then (⟨rest, c.index + 1, c.line + 1, 0⟩, ['\n'])
    else (c, [])
  | [] => (c, [])

/-- Past the characters before the next line break. -/
def toBreak (c : Cursor) : Cursor :=
  let n := (c.rest.takeWhile fun x => !isBreak x).length
  ⟨c.rest.drop n, c.index + n, c.line, c.column + n⟩

/-- Past blanks. -/
def skipBlanks (c : Cursor) : Cursor :=
  let n := (c.rest.takeWhile isBlank).length
  ⟨c.rest.drop n, c.index + n, c.line, c.column + n⟩

/-- Whether a line starts here with the three characters on their own. -/
def atMarker (c : Cursor) (mark : Char) : Bool :=
  c.column == 0 && c.rest.take 3 == [mark, mark, mark] && isBlankOrEnd c.rest[3]?

/-- Whether a line that bounds a document starts here. -/
def atDocumentBound (c : Cursor) : Bool := c.atMarker '-' || c.atMarker '.'

end Cursor

end Highlight.Yaml
