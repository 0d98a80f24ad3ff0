import Highlight.Text.Blank

/-!
# Colors

Colors are written with three, four, six or eight hexadecimal digits and are kept in one form: six
or eight digits in upper case. A `ColorTable` numbers the colors of a theme from 1 in the order in
which they are first used. Numbers must fit the fields of packed tokens.
-/

namespace Highlight

/-- Why a theme is not accepted. -/
inductive ThemeError where
  /-- The text is malformed. -/
  | malformed
  | invalidColor (text : String)
  /-- The color would get a number beyond the foreground field. -/
  | tooManyColors (count : Nat)
  /-- The background color would get a number beyond the background field. -/
  | tooManyBackgrounds (count : Nat)
  deriving Repr, DecidableEq

namespace ThemeError

/-- The wording of an error; malformed texts are worded by their kind alone. -/
def message? : ThemeError → Option String
  | malformed => none
  | invalidColor text => some ("invalid color '" ++ text ++ "'")
  | tooManyColors n =>
    some ("theme references " ++ toString n
      ++ " distinct colors, the encoded format supports at most 511")
  | tooManyBackgrounds n =>
    some ("theme references " ++ toString n
      ++ " colors including backgrounds, background colors must fit in 255")

end ThemeError

namespace Color

/-- The form in which a color is kept. -/
def normalize? (text : String) : Option String :=
  match Blank.trim text.toList with
  | '#' :: digits =>
    if digits.all Numeral.isHexDigit then
      if digits.length == 3 || digits.length == 4 then
        some (String.ofList ('#' :: (digits.flatMap fun c => [c, c]).map Char.toUpper))
      else if digits.length == 6 || digits.length == 8 then
        some (String.ofList ('#' :: digits.map Char.toUpper))
      else none
    else none
  | _ => none

end Color

/-- The colors of a theme; the first has number 1. -/
structure ColorTable where
  colors : List String
  deriving Repr, DecidableEq, Inhabited

namespace ColorTable

/-- No colors. -/
def empty : ColorTable := ⟨[]⟩

/-- The greatest number of a foreground color. -/
def maxForeground : Nat := 511

/-- The greatest number of a background color. -/
def maxBackground : Nat := 255

/-- The color with a number. -/
def get? (t : ColorTable) (id : Nat) : Option String :=
  if id = 0 then none else t.colors[id - 1]?

/-- The number of a color in its kept form. -/
def number? (t : ColorTable) (color : String) : Option Nat :=
  (t.colors.findIdx? (· == color)).map (· + 1)

/-- The number of a color in any form. -/
def idOf? (t : ColorTable) (text : String) : Option Nat :=
  (Color.normalize? text).bind t.number?

/-- The number of a color, which is added if it is new; a number beyond `most` is refused. -/
def intern (t : ColorTable) (most : Nat) (overflow : Nat → ThemeError) (text : String) :
    Except ThemeError (Nat × ColorTable) :=
  match Color.normalize? text with
  | none => .error (.invalidColor text)
  | some color =>
    match t.number? color with
    | some id => if most < id then .error (overflow id) else .ok (id, t)
    | none =>
      let id := t.colors.length + 1
      if most < id then .error (overflow id) else .ok (id, ⟨t.colors ++ [color]⟩)

/-- The number of a foreground color. -/
def internForeground (t : ColorTable) (text : String) : Except ThemeError (Nat × ColorTable) :=
  t.intern maxForeground .tooManyColors text

/-- The number of a background color. -/
def internBackground (t : ColorTable) (text : String) : Except ThemeError (Nat × ColorTable) :=
  t.intern maxBackground .tooManyBackgrounds text

end ColorTable

end Highlight
