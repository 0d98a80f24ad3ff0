import Highlight.Regex.Error
import Highlight.Regex.PropertyName

/-!
# Bracketed classes of configuration patterns

What stands in brackets is first read as pieces, in which escapes are resolved, and then as a set:
items and ranges are joined, `&&` intersects, `--` subtracts and `~~` keeps what is in one of two
sets only. These operators bind less tightly than joining and group to the left.
-/

namespace Highlight.BracketClass

/-- A piece of a bracketed class. -/
inductive Piece where
  /-- A character as written, which may have a meaning. -/
  | plain (c : Char)
  /-- A character without a meaning of its own. -/
  | literal (c : Char)
  /-- A set that cannot be an end of a range. -/
  | item (s : CharSet)
  /-- A set that stands like a class in brackets. -/
  | nested (s : CharSet)
  deriving Repr, DecidableEq

/-- The set of ASCII characters that a name between `[:` and `:]` stands for. -/
def asciiClass? (name : String) : Option CharSet :=
  let digit := CharSet.range '0' '9'
  let lower := CharSet.range 'a' 'z'
  let upper := CharSet.range 'A' 'Z'
  let alpha := CharSet.union lower upper
  let alnum := CharSet.union alpha digit
  [("alnum", alnum), ("alpha", alpha), ("ascii", .range '\x00' '\x7f'),
   ("blank", .ofList ['\t', ' ']), ("cntrl", .union (.range '\x00' '\x1f') (.single '\x7f')),
   ("digit", digit), ("graph", .range '!' '~'), ("lower", lower), ("print", .range ' ' '~'),
   ("punct", .inter (.range '!' '~') (.compl alnum)),
   ("space", .ofList ['\t', '\n', '\x0b', '\x0c', '\r', ' ']), ("upper", upper),
   ("word", .union alnum (.single '_')),
   ("xdigit", .union digit (.union (.range 'a' 'f') (.range 'A' 'F')))].lookup name

/-- A named class after its opening bracket, with what follows it. -/
def namedClass? : List Piece → Option (CharSet × List Piece)
  | .plain ':' :: ps =>
    let (negated, ps) := match ps with
      | .plain '^' :: ps => (true, ps)
      | ps => (false, ps)
    let isLetter : Piece → Bool
      | .plain c => c.isLower
      | _ => false
    let name := String.ofList ((ps.takeWhile isLetter).filterMap fun p =>
      match p with
      | .plain c => some c
      | _ => none)
    match asciiClass? name, ps.dropWhile isLetter with
    | some s, .plain ':' :: .plain ']' :: rest => some (CharSet.complIf negated s, rest)
    | _, _ => none
  | _ => none

/-- How two sets are combined. -/
inductive SetOp where
  | inter
  | diff
  | symDiff
  deriving Repr, DecidableEq

namespace SetOp

/-- The combined set. -/
def apply (a b : CharSet) : SetOp → CharSet
  | inter => .inter a b
  | diff => .inter a (.compl b)
  | symDiff => .inter (.union a b) (.compl (.inter a b))

/-- The operator that a character written twice stands for. -/
def ofChar? : Char → Option SetOp
  | '&' => some inter
  | '-' => some diff
  | '~' => some symDiff
  | _ => none

end SetOp

/-- The set read so far: what stands before the last operator, and what has been joined since. -/
structure Partial where
  before : Option (CharSet × SetOp)
  joined : CharSet

namespace Partial

/-- Nothing has been read. -/
def start : Partial := ⟨none, .nothing⟩

/-- One more set is joined. -/
def join (p : Partial) (s : CharSet) : Partial := { p with joined := .union p.joined s }

/-- The set of all that has been read. -/
def set (p : Partial) : CharSet :=
  match p.before with
  | some (a, op) => op.apply a p.joined
  | none => p.joined

/-- An operator follows. -/
def operate (p : Partial) (op : SetOp) : Partial := ⟨some (p.set, op), .nothing⟩

end Partial

/-- The character that a piece can be as an end of a range. -/
def Piece.end? : Piece → Option Char
  | .plain c => some c
  | .literal c => some c
  | _ => none

/-- Whether the pieces start with an operator. -/
def operator? : List Piece → Option (SetOp × List Piece)
  | .plain a :: .plain b :: ps => if a == b then (SetOp.ofChar? a).map (·, ps) else none
  | _ => none

/-- A range or single item, where `p` comes first. -/
def item (fold : CharSet → CharSet) (p : Piece) (ps : List Piece) :
    Except RegexError (CharSet × List Piece) :=
  let alone : CharSet :=
    match p with
    | .plain c => fold (.single c)
    | .literal c => fold (.single c)
    | .item s => fold s
    | .nested s => s
  match p, ps with
  | .nested _, _ => .ok (alone, ps)
  | _, [] => .error .unclosedClass
  | _, .plain '-' :: [] => .error .unclosedClass
  | _, .plain '-' :: .plain ']' :: _ => .ok (alone, ps)
  | _, .plain '-' :: .plain '-' :: _ => .ok (alone, ps)
  | _, .plain '-' :: q :: rest =>
    match p.end?, q.end? with
    | some a, some b => if a ≤ b then .ok (fold (.range a b), rest) else .error .invalidRange
    | _, _ => .error .invalidRange
  | _, ps => .ok (alone, ps)

/-- Leading pieces that stand for themselves: hyphens, and a closing bracket that comes first. -/
def leading (fold : CharSet → CharSet) (ps : List Piece) : Partial × List Piece :=
  let hyphens := ps.takeWhile (· == .plain '-')
  let rest := ps.dropWhile (· == .plain '-')
  if hyphens.isEmpty then
    match rest with
    | .plain ']' :: rest => (Partial.start.join (fold (.single ']')), rest)
    | rest => (.start, rest)
  else (Partial.start.join (fold (.single '-')), rest)

mutual

/-- A class after its opening bracket. -/
def body (fold : CharSet → CharSet) :
    Nat → List Piece → Except RegexError (CharSet × List Piece)
  | 0, _ => .error .unclosedClass
  | fuel + 1, ps => do
    let (negated, ps) := match ps with
      | .plain '^' :: ps => (true, ps)
      | ps => (false, ps)
    let (p, ps) := leading fold ps
    let (s, rest) ← items fold fuel p ps
    return (CharSet.complIf negated s, rest)

/-- The rest of a class up to its closing bracket. -/
def items (fold : CharSet → CharSet) :
    Nat → Partial → List Piece → Except RegexError (CharSet × List Piece)
  | 0, _, _ => .error .unclosedClass
  | fuel + 1, p, ps =>
    match operator? ps with
    | some (op, rest) => items fold fuel (p.operate op) rest
    | none =>
      match ps with
      | [] => .error .unclosedClass
      | .plain ']' :: rest => .ok (p.set, rest)
      | .plain '[' :: rest =>
        match namedClass? rest with
        | some (s, rest) => items fold fuel (p.join (fold s)) rest
        | none => do
          let (s, rest) ← body fold fuel rest
          items fold fuel (p.join s) rest
      | q :: rest => do
        let (s, rest) ← item fold q rest
        items fold fuel (p.join s) rest

end

/-- The set of the pieces between the outer brackets, the closing one included. -/
def read (ignoreCase : Bool) (ps : List Piece) : Except RegexError CharSet := do
  let fold := fun s => if ignoreCase then CharSet.anyCase s else s
  let (s, rest) ← body fold (ps.length + 1) ps
  if rest.isEmpty then return s else throw .unclosedClass

end Highlight.BracketClass
