import Highlight.Data.Value
import Highlight.Text.Numeral

/-!
# JSON texts

`Json.parse?` reads a JSON text as the standard has it: one value, nothing but blanks around it.
Integers outside 64 bits count as numbers that are not integers, and so does minus zero.
-/

namespace Highlight.Json

/-- The blanks between tokens. -/
def isBlank (c : Char) : Bool := c == ' ' || c == '\n' || c == '\t' || c == '\r'

/-- The text without the blanks at its start. -/
def skip (cs : List Char) : List Char := cs.dropWhile isBlank

/-! ## Strings -/

/-- The number that four digits write. -/
def fourDigits? (cs : List Char) : Option (Nat × List Char) :=
  if 4 ≤ cs.length then (Numeral.value? 16 (cs.take 4)).map (·, cs.drop 4) else none

/-- The character that a letter after a backslash stands for. -/
def escape? : Char → Option Char
  | '"' => some '"'
  | '\\' => some '\\'
  | '/' => some '/'
  | 'b' => some '\x08'
  | 'f' => some '\x0c'
  | 'n' => some '\n'
  | 'r' => some '\r'
  | 't' => some '\t'
  | _ => none

/-- The rest of a string after its opening quote, where `acc` holds backwards what has been read.
The flag tells whether all escapes stood for characters. The `fuel` bounds the characters. -/
def stringFrom (acc : List Char) (sound : Bool) :
    Nat → List Char → Option (List Char × Bool × List Char)
  | 0, _ => none
  | _ + 1, [] => none
  | fuel + 1, c :: cs =>
    if c == '"' then some (acc.reverse, sound, cs)
    else if c == '\\' then
      match cs with
      | 'u' :: cs =>
        match fourDigits? cs with
        | none => none
        | some (n, rest) =>
          if n < 0xD800 || 0xDFFF < n then stringFrom (Char.ofNat n :: acc) sound fuel rest
          else
            let low :=
              match rest with
              | '\\' :: 'u' :: rest => fourDigits? rest
              | _ => none
            match low with
            | some (m, after) =>
              if n < 0xDC00 && 0xDC00 ≤ m && m ≤ 0xDFFF then
                let code := 0x10000 + (n - 0xD800) * 0x400 + (m - 0xDC00)
                stringFrom (Char.ofNat code :: acc) sound fuel after
              else stringFrom acc false fuel rest
            | none => stringFrom acc false fuel rest
      | e :: cs =>
        match escape? e with
        | some c => stringFrom (c :: acc) sound fuel cs
        | none => none
      | [] => none
    else if c.toNat < 32 then none
    else stringFrom (c :: acc) sound fuel cs

/-! ## Numbers -/

/-- The digits at the start, if there are any. -/
def digits? (cs : List Char) : Option (List Char × List Char) :=
  match cs.takeWhile Char.isDigit with
  | [] => none
  | ds => some (ds, cs.dropWhile Char.isDigit)

/-- The digits of an integer, which start with no zero but a lone one. -/
def integerDigits? : List Char → Option (List Char × List Char)
  | '0' :: cs =>
    match cs with
    | c :: _ => if c.isDigit then none else some (['0'], cs)
    | [] => some (['0'], [])
  | cs => digits? cs

/-- What follows a fraction, where there is one. The flag tells that there is. -/
def afterFraction? : List Char → Option (Bool × List Char)
  | '.' :: cs => (digits? cs).map fun (_, rest) => (true, rest)
  | cs => some (false, cs)

/-- What follows an exponent, where there is one. The flag tells that there is. -/
def afterExponent? : List Char → Option (Bool × List Char)
  | c :: cs =>
    if c == 'e' || c == 'E' then
      let cs :=
        match cs with
        | '+' :: cs => cs
        | '-' :: cs => cs
        | cs => cs
      (digits? cs).map fun (_, rest) => (true, rest)
    else some (false, c :: cs)
  | [] => some (false, [])

/-- The number that digits write. -/
def ofDigits (ds : List Char) : Nat := ds.foldl (fun n c => n * 10 + (c.toNat - 48)) 0

/-- The value of an integer with its sign. Zero with a sign is no integer. -/
def integerValue (negative : Bool) (n : Nat) : Value :=
  let value : Int := if negative then -n else n
  if Value.isWord value && !(negative && n == 0) then .int value else .real

/-- The number at the start of a text. -/
def number? (cs : List Char) : Option (Value × List Char) := do
  let (negative, cs) :=
    match cs with
    | '-' :: cs => (true, cs)
    | cs => (false, cs)
  let (ds, cs) ← integerDigits? cs
  let (fraction, cs) ← afterFraction? cs
  let (exponent, cs) ← afterExponent? cs
  return (if fraction || exponent then .real else integerValue negative (ofDigits ds), cs)

/-! ## Values -/

/-- What follows a word. -/
def afterWord? (word : String) (cs : List Char) : Option (List Char) :=
  if word.toList.isPrefixOf cs then some (cs.drop word.length) else none

mutual

/-- The value at the start of a text. -/
def value? : Nat → List Char → Option (Value × List Char)
  | 0, _ => none
  | fuel + 1, cs =>
    match skip cs with
    | [] => none
    | '"' :: cs =>
      match stringFrom [] true (cs.length + 1) cs with
      | some (s, true, rest) => some (.text (String.ofList s), rest)
      | some (_, false, rest) => some (.foreign, rest)
      | none => none
    | '[' :: cs =>
      match skip cs with
      | ']' :: cs => some (.list [], cs)
      | cs => (items? fuel [] cs).map fun (vs, rest) => (.list vs, rest)
    | '\x7b' :: cs =>
      match skip cs with
      | '\x7d' :: cs => some (.dict [], cs)
      | cs => (entries? fuel [] cs).map fun (es, rest) => (.dict es, rest)
    | c :: cs =>
      if c == 't' then (afterWord? "rue" cs).map fun rest => (.bool true, rest)
      else if c == 'f' then (afterWord? "alse" cs).map fun rest => (.bool false, rest)
      else if c == 'n' then (afterWord? "ull" cs).map fun rest => (.null, rest)
      else number? (c :: cs)

/-- The items of a list up to its end, where `acc` holds backwards what has been read. -/
def items? : Nat → List Value → List Char → Option (List Value × List Char)
  | 0, _, _ => none
  | fuel + 1, acc, cs =>
    match value? fuel cs with
    | none => none
    | some (v, rest) =>
      match skip rest with
      | ',' :: rest => items? fuel (v :: acc) rest
      | ']' :: rest => some ((v :: acc).reverse, rest)
      | _ => none

/-- The entries of a dictionary up to its end, where `acc` holds backwards what has been read. -/
def entries? : Nat → List (Value × Value) → List Char → Option (List (Value × Value) × List Char)
  | 0, _, _ => none
  | fuel + 1, acc, cs =>
    match skip cs with
    | '"' :: cs =>
      match stringFrom [] true (cs.length + 1) cs with
      | some (key, true, rest) =>
        match skip rest with
        | ':' :: rest =>
          match value? fuel rest with
          | none => none
          | some (v, rest) =>
            let acc := (.text (String.ofList key), v) :: acc
            match skip rest with
            | ',' :: rest => entries? fuel acc rest
            | '\x7d' :: rest => some (acc.reverse, rest)
            | _ => none
        | _ => none
      | _ => none
    | _ => none

end

/-- Reads a whole text. -/
def parse? (s : String) : Option Value :=
  let cs := s.toList
  match value? (2 * cs.length + 2) cs with
  | some (v, rest) => if (skip rest).isEmpty then some v else none
  | none => none

end Highlight.Json
