import Highlight.Data.Value
import Highlight.Text.Numeral

/-!
# Values as JSON text

The compact JSON text of a value: no blanks, entries in order, and escapes only where JSON asks for
them.
-/

namespace Highlight.Json

/-- A character within quotes. -/
def escaped (c : Char) : List Char :=
  if c == '"' then ['\\', '"']
  else if c == '\\' then ['\\', '\\']
  else if c == '\n' then ['\\', 'n']
  else if c == '\r' then ['\\', 'r']
  else if c == '\t' then ['\\', 't']
  else if c == '\x08' then ['\\', 'b']
  else if c == '\x0c' then ['\\', 'f']
  else if c < ' ' then '\\' :: 'u' :: Numeral.hexDigits 4 c.toNat
  else [c]

/-- A text in quotes. -/
def quoted (s : String) : List Char := '"' :: s.toList.flatMap escaped ++ ['"']

/-- The text of a key, which JSON writes in quotes. -/
def keyText : Value → String
  | .text s => s
  | .plain s => s
  | _ => ""

/-- The characters of a value. -/
def characters : Value → List Char
  | .null => "null".toList
  | .bool b => (if b then "true" else "false").toList
  | .int n => (toString n).toList
  | .real => "null".toList
  | .text s => quoted s
  | .plain s => quoted s
  | .foreign => "null".toList
  | .list vs => '[' :: items vs ++ [']']
  | .dict es => '\x7b' :: pairs es ++ ['\x7d']
where
  /-- The items of a list. -/
  items : List Value → List Char
    | [] => []
    | [v] => characters v
    | v :: w :: vs => characters v ++ ',' :: items (w :: vs)
  /-- The entries of a dictionary. -/
  pairs : List (Value × Value) → List Char
    | [] => []
    | [(k, v)] => quoted (keyText k) ++ ':' :: characters v
    | (k, v) :: e :: es => quoted (keyText k) ++ ':' :: characters v ++ ',' :: pairs (e :: es)

/-- The compact text of a value. -/
def render (v : Value) : String := String.ofList (characters v)

end Highlight.Json
