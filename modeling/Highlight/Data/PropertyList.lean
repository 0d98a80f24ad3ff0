import Highlight.Data.Markup
import Highlight.Data.Reading

/-!
# Property lists

`PropertyList.parse?` reads a property list in XML. The document element is optional, and nothing
after the first value is looked at.
-/

namespace Highlight.PropertyList

/-- The text up to the end tag of an element without elements in it, and what follows. -/
def textOf? : List (Option Markup) → Option (List Char × List (Option Markup))
  | some (.content s) :: ms => (textOf? ms).map fun (t, rest) => (s ++ t, rest)
  | some (.closeTag _) :: ms => some ([], ms)
  | some .literal :: ms => textOf? ms
  | _ => none

/-- The integer that a text writes. -/
def integer? (cs : List Char) : Option Int :=
  let value : Option Int :=
    match cs with
    | '0' :: 'x' :: ds => (Numeral.value? 16 ds).map fun n => n
    | '-' :: ds => (Numeral.value? 10 ds).map fun n => -(n : Int)
    | '+' :: ds => (Numeral.value? 10 ds).map fun n => n
    | ds => (Numeral.value? 10 ds).map fun n => n
  value.filter Value.isWord

/-- Whether a text writes a real number. -/
def isReal (cs : List Char) : Bool :=
  let unsigned :=
    match cs with
    | '-' :: rest => rest
    | '+' :: rest => rest
    | rest => rest
  Value.isDecimal unsigned
    || ["inf", "infinity", "nan"].contains (String.ofList (unsigned.map Char.toLower))

/-- The value of a digit of the base sixty-four. -/
def sextet? (c : Char) : Option Nat :=
  if 'A' ≤ c && c ≤ 'Z' then some (c.toNat - 65)
  else if 'a' ≤ c && c ≤ 'z' then some (c.toNat - 71)
  else if c.isDigit then some (c.toNat + 4)
  else if c == '+' then some 62
  else if c == '/' then some 63
  else none

/-- Whether a text writes bytes in the base sixty-four, four digits at a time. -/
def isData (cs : List Char) : Bool :=
  let cs := cs.filter fun c => !(c == ' ' || c == '\t' || c == '\n' || c == '\r' || c == '\x0c')
  let body := cs.takeWhile (· != '=')
  let padding := cs.dropWhile (· != '=')
  let last := (body.getLast?.bind sextet?).getD 0
  cs.length % 4 == 0 && body.all (fun c => (sextet? c).isSome)
    && (padding == [] || (padding == ['='] && last % 4 == 0)
      || (padding == ['=', '='] && last % 16 == 0))

/-- Whether a text writes a date and a time of day, such as `2001-02-03T04:05:06Z`. -/
def isDate (cs : List Char) : Bool :=
  let number := fun (start count : Nat) => Numeral.value? 10 ((cs.drop start).take count)
  let within := fun (start low high : Nat) =>
    match number start 2 with
    | some n => low ≤ n && n ≤ high
    | none => false
  (number 0 4).isSome && within 5 1 12 && within 8 1 31 && within 11 0 23 && within 14 0 59
    && within 17 0 60 && cs[4]? == some '-' && cs[7]? == some '-' && cs[10]? == some 'T'
    && cs[13]? == some ':' && cs[16]? == some ':'
    && (cs.drop 19 == ['Z']
      || (cs[19]? == some '.' && (cs.drop 20).getLast? == some 'Z'
        && 21 < cs.length && (cs.drop 20).dropLast.all Char.isDigit))

/-- The scalar that an element of the name and text stands for. -/
def scalar? (name : String) (text : List Char) : Option Value :=
  match name with
  | "key" => some (.text (String.ofList text))
  | "string" => some (.text (String.ofList text))
  | "integer" => (integer? text).map .int
  | "real" => if isReal text then some .real else none
  | "true" => some (.bool true)
  | "false" => some (.bool false)
  | "data" => if isData text then some .foreign else none
  | "date" => if isDate text then some .foreign else none
  | _ => none

/-- The keys and values that alternate in a list. -/
def pair? : List Value → Option (List (Value × Value))
  | [] => some []
  | [_] => none
  | k :: v :: vs => (pair? vs).map ((k, v) :: ·)

mutual

/-- The first value and what follows it. -/
def value? : Nat → List (Option Markup) → Option (Value × List (Option Markup))
  | 0, _ => none
  | fuel + 1, ms =>
    match ms with
    | some (.content s) :: ms => if s.all Property.isWhiteSpace then value? fuel ms else none
    | some (.openTag name) :: ms =>
      if name == "plist" then value? fuel ms
      else if name == "array" then (values? fuel [] ms).map fun (vs, rest) => (.list vs, rest)
      else if name == "dict" then do
        let (vs, rest) ← values? fuel [] ms
        return (.dict (← pair? vs), rest)
      else do
        let (text, rest) ← textOf? ms
        return (← scalar? name text, rest)
    | some (.closeTag "plist") :: ms => value? fuel ms
    | _ => none

/-- The values up to the end of a list or dictionary, where `acc` holds backwards what has been
read. -/
def values? : Nat → List Value → List (Option Markup) →
    Option (List Value × List (Option Markup))
  | 0, _, _ => none
  | fuel + 1, acc, ms =>
    match ms with
    | some (.content s) :: rest =>
      if s.all Property.isWhiteSpace then values? fuel acc rest else none
    | some (.closeTag name) :: rest =>
      if name == "plist" then values? fuel acc rest else some (acc.reverse, rest)
    | ms =>
      match value? fuel ms with
      | some (v, rest) => values? fuel (v :: acc) rest
      | none => none

end

/-- Reads a property list. -/
def parse? (s : String) : Option Value :=
  let cs :=
    match s.toList with
    | '\ufeff' :: cs => cs
    | cs => cs
  let ms := Markup.pieces (cs.length + 1) [] cs
  (value? (2 * ms.length + 2) ms).map (·.1)

end Highlight.PropertyList
