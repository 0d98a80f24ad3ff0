import Highlight.Data.Yaml.Cursor
import Highlight.Text.Numeral

/-!
# Scalars of YAML

How plain, quoted and block scalars are read, with their line folding. Each reader takes a cursor at
the start of the scalar and gives its text and the cursor after it, or nothing where the scalar is
malformed.
-/

namespace Highlight.Yaml

/-- White space inside a scalar that is not decided on yet, backwards: blanks, the first line break
and the breaks after it. -/
structure Gap where
  blanks : List Char
  first : List Char
  more : List Char
  /-- A line break has been met. -/
  broken : Bool

namespace Gap

/-- No white space. -/
def empty : Gap := ⟨[], [], [], false⟩

/-- The text that a gap folds to. -/
def fold (g : Gap) : List Char :=
  if g.broken then
    if g.first == ['\n'] then (if g.more.isEmpty then [' '] else g.more) else g.first ++ g.more
  else g.blanks

end Gap

/-- Past blanks and breaks, and the gap they make. Tabs may not stand for indentation where `indent`
is given. -/
def readGap (indent : Option Nat) : Nat → Gap → Cursor → Option (Gap × Cursor)
  | 0, g, c => some (g, c)
  | fuel + 1, g, c =>
    match c.here with
    | none => some (g, c)
    | some x =>
      if isBlank x then
        if g.broken then
          if x == '\t' && (indent.any (c.column < ·)) then none
          else readGap indent fuel g c.step
        else readGap indent fuel { g with blanks := g.blanks ++ [x] } c.step
      else if isBreak x then
        let (c, b) := c.line'
        if g.broken then readGap indent fuel { g with more := g.more ++ b } c
        else readGap indent fuel { g with blanks := [], first := b, broken := true } c
      else some (g, c)

/-! ## Plain scalars -/

/-- Whether a plain scalar ends before the colon or flow indicator here. Nothing where a colon is
followed by a flow indicator. -/
def endsPlain (inFlow : Bool) (x : Char) (next : Option Char) : Option Bool :=
  let flowIndicators := [',', '[', ']', '\x7b', '\x7d']
  if inFlow && x == ':' && next.any (fun y => flowIndicators.contains y || y == '?') then none
  else some ((x == ':' && isBlankOrEnd next) || (inFlow && flowIndicators.contains x))

/-- The characters of a plain scalar up to white space or its end, backwards onto `acc`. The flag
tells that the scalar ends. -/
def plainRun (inFlow : Bool) : Nat → List Char → Cursor → Option (List Char × Bool × Cursor)
  | 0, acc, c => some (acc, true, c)
  | fuel + 1, acc, c =>
    match c.here with
    | none => some (acc, true, c)
    | some x =>
      if isBlank x || isBreak x then some (acc, false, c)
      else
        match endsPlain inFlow x c.next with
        | none => none
        | some true => some (acc, true, c)
        | some false => plainRun inFlow fuel (x :: acc) c.step

/-- The rest of a plain scalar, where `acc` holds backwards what has been read and `gap` the white
space after it. The flag tells that the scalar ended after a line break. -/
def plainFrom (inFlow : Bool) (indent : Nat) :
    Nat → List Char → Gap → Cursor → Option (List Char × Bool × Cursor)
  | 0, acc, gap, c => some (acc.reverse, gap.broken, c)
  | fuel + 1, acc, gap, c =>
    if c.atDocumentBound || c.here == some '#' then some (acc.reverse, gap.broken, c)
    else
      match plainRun inFlow (c.rest.length + 1) [] c with
      | none => none
      | some (run, ends, after) =>
        let read := !run.isEmpty
        let acc := if read then run ++ (gap.fold.reverse ++ acc) else acc
        let gap := if read then Gap.empty else gap
        if ends then some (acc.reverse, gap.broken, after)
        else
          match readGap (some indent) (after.rest.length + 1) gap after with
          | none => none
          | some (gap, after) =>
            if !inFlow && after.column < indent then some (acc.reverse, gap.broken, after)
            else plainFrom inFlow indent fuel acc gap after

/-- A plain scalar, whose lines are indented by at least `indent`. -/
def plainScalar (inFlow : Bool) (indent : Nat) (c : Cursor) : Option (List Char × Bool × Cursor) :=
  plainFrom inFlow indent (c.rest.length + 1) [] .empty c

/-! ## Quoted scalars -/

/-- The character that a letter after a backslash stands for. -/
def escape? : Char → Option Char
  | '0' => some '\x00'
  | 'a' => some '\x07'
  | 'b' => some '\x08'
  | 't' => some '\t'
  | '\t' => some '\t'
  | 'n' => some '\n'
  | 'v' => some '\x0b'
  | 'f' => some '\x0c'
  | 'r' => some '\r'
  | 'e' => some '\x1b'
  | ' ' => some ' '
  | '"' => some '"'
  | '/' => some '/'
  | '\\' => some '\\'
  | 'N' => some '\u0085'
  | '_' => some '\u00a0'
  | 'L' => some '\u2028'
  | 'P' => some '\u2029'
  | _ => none

/-- The number of digits that a letter after a backslash asks for. -/
def codeLength? : Char → Option Nat
  | 'x' => some 2
  | 'u' => some 4
  | 'U' => some 8
  | _ => none

/-- The characters of a quoted scalar up to white space or the closing quote, backwards onto `acc`.
The flag tells that an escaped line break came last. -/
def quotedRun (double : Bool) : Nat → List Char → Cursor → Option (List Char × Bool × Cursor)
  | 0, _, _ => none
  | fuel + 1, acc, c =>
    match c.rest with
    | [] => some (acc, false, c)
    | x :: rest =>
      if isBlank x || isBreak x then some (acc, false, c)
      else if !double && x == '\'' then
        if rest.head? == some '\'' then quotedRun double fuel ('\'' :: acc) (c.steps 2)
        else some (acc, false, c)
      else if double && x == '"' then some (acc, false, c)
      else if double && x == '\\' then
        match rest with
        | [] => none
        | e :: more =>
          if isBreak e then some (acc, true, c.step.line'.1)
          else
            match escape? e, codeLength? e with
            | some y, _ => quotedRun double fuel (y :: acc) (c.steps 2)
            | none, some n =>
              let code := if n ≤ more.length then Numeral.value? 16 (more.take n) else none
              match code.bind Numeral.character? with
              | some y => quotedRun double fuel (y :: acc) (c.steps (n + 2))
              | none => none
            | none, none => none
      else quotedRun double fuel (x :: acc) c.step

/-- The rest of a quoted scalar after its opening quote. -/
def quotedFrom (double : Bool) : Nat → List Char → Cursor → Option (List Char × Cursor)
  | 0, _, _ => none
  | fuel + 1, acc, c =>
    if c.atDocumentBound || c.rest.isEmpty then none
    else
      match quotedRun double (c.rest.length + 1) acc c with
      | none => none
      | some (acc, escapedBreak, c) =>
        if c.here == some (if double then '"' else '\'') then some (acc.reverse, c.step)
        else
          let gap := { Gap.empty with broken := escapedBreak }
          match readGap none (c.rest.length + 1) gap c with
          | none => none
          | some (gap, c) => quotedFrom double fuel (gap.fold.reverse ++ acc) c

/-- A quoted scalar, where the cursor is at its opening quote. -/
def quotedScalar (double : Bool) (c : Cursor) : Option (List Char × Cursor) :=
  quotedFrom double (c.rest.length + 1) [] c.step

/-! ## Block scalars -/

/-- What happens to the line breaks at the end of a block scalar. -/
inductive Chomping where
  | strip
  | clip
  | keep
  deriving DecidableEq

/-- The chomping that a sign asks for. -/
def chomping? : Option Char → Option Chomping
  | some '+' => some .keep
  | some '-' => some .strip
  | _ => none

/-- The indentation that a digit asks for; zero is refused. -/
def increment? (c : Option Char) : Option (Option Nat) :=
  match c with
  | some x => if x == '0' then none else if x.isDigit then some (some (x.toNat - 48)) else some none
  | none => some none

/-- The indicators of a block scalar, in either order. -/
def blockHeader (c : Cursor) : Option (Chomping × Option Nat × Cursor) :=
  match chomping? c.here with
  | some chomp => do
    match ← increment? c.next with
    | some n => return (chomp, some n, c.steps 2)
    | none => return (chomp, none, c.step)
  | none => do
    match ← increment? c.here with
    | some n =>
      match chomping? c.next with
      | some chomp => return (chomp, some n, c.steps 2)
      | none => return (.clip, some n, c.step)
    | none => return (.clip, none, c)

/-- Past the spaces of the indentation: all of them where it is not known yet. -/
def skipIndent (indent : Option Nat) : Nat → Cursor → Cursor
  | 0, c => c
  | fuel + 1, c =>
    if indent.all (c.column < ·) && c.here == some ' ' then skipIndent indent fuel c.step else c

/-- Past indentation and empty lines: the breaks, the widest indentation and the cursor. -/
def blockBreaks (indent : Option Nat) :
    Nat → List Char → Nat → Cursor → Option (List Char × Nat × Cursor)
  | 0, breaks, widest, c => some (breaks, widest, c)
  | fuel + 1, breaks, widest, c =>
    let c := skipIndent indent (c.rest.length + 1) c
    let widest := max widest c.column
    if indent.all (c.column < ·) && c.here == some '\t' then none
    else if c.here.any isBreak then
      let (c, b) := c.line'
      blockBreaks indent fuel (breaks ++ b) widest c
    else some (breaks, widest, c)

/-- The lines of a block scalar, where `acc` holds backwards what has been read, `first` the last
line break and `more` the empty lines after it. -/
def blockLines (literal : Bool) (chomp : Chomping) (indent : Nat) :
    Nat → List Char → List Char → List Char → Bool → Cursor → Option (List Char × Cursor)
  | 0, _, _, _, _, _ => none
  | fuel + 1, acc, first, more, leadingBlank, c =>
    if c.column == indent && !c.rest.isEmpty then
      let blank := c.here.any isBlank
      let joint :=
        if !literal && first == ['\n'] && !leadingBlank && !blank then
          (if more.isEmpty then [' '] else more)
        else first ++ more
      let text := c.rest.takeWhile fun x => !isBreak x
      let acc := text.reverse ++ (joint.reverse ++ acc)
      let (c, first) := c.toBreak.line'
      match blockBreaks (some indent) (c.rest.length + 1) [] 0 c with
      | none => none
      | some (more, _, c) => blockLines literal chomp indent fuel acc first more blank c
    else
      let tail :=
        match chomp with
        | .strip => []
        | .clip => first
        | .keep => first ++ more
      some (acc.reverse ++ tail, c)

/-- A block scalar, where the cursor is at its indicator and `parent` is the indentation around it,
if there is any. -/
def blockScalar (literal : Bool) (parent : Option Nat) (c : Cursor) :
    Option (List Char × Cursor) := do
  let (chomp, increment, c) ← blockHeader c.step
  let c := c.skipBlanks
  let c := if c.here == some '#' then c.toBreak else c
  if !isBreakOrEnd c.here then none
  let c := c.line'.1
  let known := increment.map (· + parent.getD 0)
  let (more, widest, c) ← blockBreaks known (c.rest.length + 1) [] 0 c
  let least :=
    match parent with
    | some n => n + 1
    | none => 0
  let indent := known.getD (max (max widest least) 1)
  blockLines literal chomp indent (c.rest.length + 1) [] [] more false c

end Highlight.Yaml
