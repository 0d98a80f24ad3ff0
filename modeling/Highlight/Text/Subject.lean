/-!
# Texts by position

A `Subject` is a text held as its characters, so that a position counts characters and always falls
between two of them. `byteOffset` turns a position into an offset into the UTF-8 form of the text,
`position?` turns an offset back.
-/

namespace Highlight

/-- A text as its characters and the byte offset of each position, one more than there are
characters. -/
structure Subject where
  chars : Array Char
  offsets : Array Nat

namespace Subject

/-- The byte offsets of the positions of a text that starts at byte `n`. -/
def offsetsFrom (n : Nat) : List Char → List Nat
  | [] => [n]
  | c :: cs => n :: offsetsFrom (n + c.utf8Size) cs

/-- The text with the given characters. -/
def ofList (cs : List Char) : Subject := ⟨cs.toArray, (offsetsFrom 0 cs).toArray⟩

/-- The text of a string. -/
def ofString (s : String) : Subject := ofList s.toList

/-- The number of characters. -/
def size (t : Subject) : Nat := t.chars.size

/-- The byte offset of a position; positions beyond the end count as the end. -/
def byteOffset (t : Subject) (p : Nat) : Nat :=
  t.offsets.getD (min p t.size) 0

/-- The first position whose byte offset is not below `n`. -/
def position? (t : Subject) (n : Nat) : Option Nat := t.offsets.findIdx? (n ≤ ·)

/-- The characters between two positions. -/
def slice (t : Subject) (start stop : Nat) : String :=
  String.ofList (t.chars.extract start stop).toList

end Subject

end Highlight
