import Highlight.Text.CaseTables
import Highlight.Text.Property

/-!
# Letter case

`Case.lower` and `Case.upper` give a text its lowercase and uppercase form, `Case.fold` sends all
the case variants of a character to one of them, and `Case.variants` lists them.
-/

namespace Highlight.Case

/-- The entry of an ascending table whose run holds the code point. -/
def find? (shifts : Array Shift) (c : Nat) : Option Shift :=
  let get := fun i => shifts.getD i ⟨Run.void, 0⟩
  match Run.locate (fun i => (get i).run) c 0 shifts.size with
  | some i => if (get i).run.contains c then some (get i) else none
  | none => none

/-- The code point a table maps to, itself where the table is silent. -/
def shifted (shifts : Array Shift) (c : Char) : Char :=
  match find? shifts c.toNat with
  | some s => Char.ofNat ((c.toNat : Int) + s.distance).toNat
  | none => c

/-- All case variants of a character fold to the same character. -/
def fold (c : Char) : Char :=
  if c.toNat < 128 then c.toLower else shifted foldShifts c

/-- The characters that fold to the same character as the given one, itself included. -/
def variants (c : Char) : List Char :=
  let target := fold c
  let ascii :=
    if target.toNat < 128 then
      if target == 'k' then ['k', 'K', '\u212a']
      else if target == 's' then ['s', 'S', '\u017f']
      else if target.isLower then [target, target.toUpper]
      else [target]
    else []
  if target.toNat < 128 then ascii
  else
    target :: (foldShifts.toList.filterMap fun s =>
      let source := (target.toNat : Int) - s.distance
      if 0 ≤ source && s.run.contains source.toNat then some (Char.ofNat source.toNat) else none)

/-- Whether case alone tells the two characters apart, if anything does. -/
def same (a b : Char) : Bool := a == b || fold a == fold b

/-! ## Whole texts -/

/-- Letters that come in two cases. -/
def isCased (c : Char) : Bool :=
  Property.isLowercase c || Property.isUppercase c || Category.titlecaseLetter.holds c

/-- Characters that stand inside a word without being a letter of it. -/
def isIgnorable (c : Char) : Bool :=
  [Category.nonspacingMark, .enclosingMark, .format, .modifierLetter, .modifierSymbol].any
      (·.holds c)
    || ['\'', '.', ':', '\u00b7', '\u0387', '\u055f', '\u05f4', '\u2018', '\u2019', '\u2024',
        '\u2027', '\ufe13', '\ufe52', '\ufe55', '\uff07', '\uff0e', '\uff1a'].contains c

/-- Whether the first character that is not ignorable is cased. -/
def nextIsCased (cs : List Char) : Bool :=
  match cs.dropWhile isIgnorable with
  | c :: _ => isCased c
  | [] => false

/-- Lowercase characters of one character, the last sigma of a word aside. -/
def lowerChar (c : Char) : List Char :=
  if c.toNat < 128 then [c.toLower]
  else if c == '\u0130' then ['i', '\u0307']
  else [shifted lowerShifts c]

/-- Uppercase characters of one character. -/
def upperChar (c : Char) : List Char :=
  if c.toNat < 128 then [c.toUpper]
  else match upperExpansions.lookup c.toNat with
    | some cs => cs.map Char.ofNat
    | none => [shifted upperShifts c]

/-- Lowercase of the characters that follow `before`, which is given backwards. -/
def lowerFrom (before : List Char) : List Char → List Char
  | [] => []
  | c :: cs =>
    let here :=
      if c == '\u03a3' then
        if nextIsCased before && !nextIsCased cs then ['\u03c2'] else ['\u03c3']
      else lowerChar c
    here ++ lowerFrom (c :: before) cs

/-- The lowercase form of a text. -/
def lower (s : String) : String := String.ofList (lowerFrom [] s.toList)

/-- The uppercase form of a text. -/
def upper (s : String) : String := String.ofList (s.toList.flatMap upperChar)

end Highlight.Case
