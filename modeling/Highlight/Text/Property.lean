import Highlight.Text.CategoryTables
import Highlight.Text.Numeral
import Highlight.Text.ScriptTables

/-!
# Properties of characters

`Category.holds` decides the general category of a character, `Property.holds` the properties that
patterns may ask for. Below 128 both are spelled out, above they are looked up in the tables.
-/

namespace Highlight

/-- The general categories of the Unicode character database. -/
inductive Category where
  | uppercaseLetter | lowercaseLetter | titlecaseLetter | modifierLetter | otherLetter
  | nonspacingMark | spacingMark | enclosingMark
  | decimalNumber | letterNumber | otherNumber
  | connectorPunctuation | dashPunctuation | openPunctuation | closePunctuation
  | initialPunctuation | finalPunctuation | otherPunctuation
  | mathSymbol | currencySymbol | modifierSymbol | otherSymbol
  | spaceSeparator | lineSeparator | paragraphSeparator
  | control | format | privateUse
  deriving Repr, DecidableEq

namespace Category

/-- All categories of assigned code points. -/
def all : List Category :=
  [.uppercaseLetter, .lowercaseLetter, .titlecaseLetter, .modifierLetter, .otherLetter,
   .nonspacingMark, .spacingMark, .enclosingMark,
   .decimalNumber, .letterNumber, .otherNumber,
   .connectorPunctuation, .dashPunctuation, .openPunctuation, .closePunctuation,
   .initialPunctuation, .finalPunctuation, .otherPunctuation,
   .mathSymbol, .currencySymbol, .modifierSymbol, .otherSymbol,
   .spaceSeparator, .lineSeparator, .paragraphSeparator,
   .control, .format, .privateUse]

/-- The category of an ASCII code point. -/
def ofASCII (n : Nat) : Category :=
  if n < 32 || n == 127 then .control
  else if n == 32 then .spaceSeparator
  else if 65 ≤ n && n ≤ 90 then .uppercaseLetter
  else if 97 ≤ n && n ≤ 122 then .lowercaseLetter
  else if 48 ≤ n && n ≤ 57 then .decimalNumber
  else if n == 36 then .currencySymbol
  else if n == 43 || (60 ≤ n && n ≤ 62) || n == 124 || n == 126 then .mathSymbol
  else if n == 94 || n == 96 then .modifierSymbol
  else if n == 95 then .connectorPunctuation
  else if n == 45 then .dashPunctuation
  else if n == 40 || n == 91 || n == 123 then .openPunctuation
  else if n == 41 || n == 93 || n == 125 then .closePunctuation
  else .otherPunctuation

/-- The members of a category beyond ASCII. -/
def beyondASCII : Category → Array Run
  | uppercaseLetter => Category.uppercaseLetterRuns
  | lowercaseLetter => Category.lowercaseLetterRuns
  | titlecaseLetter => Category.titlecaseLetterRuns
  | modifierLetter => Category.modifierLetterRuns
  | otherLetter => Category.otherLetterRuns
  | nonspacingMark => Category.nonspacingMarkRuns
  | spacingMark => Category.spacingMarkRuns
  | enclosingMark => Category.enclosingMarkRuns
  | decimalNumber => Category.decimalNumberRuns
  | letterNumber => Category.letterNumberRuns
  | otherNumber => Category.otherNumberRuns
  | connectorPunctuation => Category.connectorPunctuationRuns
  | dashPunctuation => Category.dashPunctuationRuns
  | openPunctuation => Category.openPunctuationRuns
  | closePunctuation => Category.closePunctuationRuns
  | initialPunctuation => Category.initialPunctuationRuns
  | finalPunctuation => Category.finalPunctuationRuns
  | otherPunctuation => Category.otherPunctuationRuns
  | mathSymbol => Category.mathSymbolRuns
  | currencySymbol => Category.currencySymbolRuns
  | modifierSymbol => Category.modifierSymbolRuns
  | otherSymbol => Category.otherSymbolRuns
  | spaceSeparator => Category.spaceSeparatorRuns
  | lineSeparator => Category.lineSeparatorRuns
  | paragraphSeparator => Category.paragraphSeparatorRuns
  | control => Category.controlRuns
  | format => Category.formatRuns
  | privateUse => Category.privateUseRuns

/-- Whether the character has the category. -/
def holds (g : Category) (c : Char) : Bool :=
  if c.toNat < 128 then ofASCII c.toNat == g else Run.table g.beyondASCII c.toNat

/-- The categories of letters. -/
def letters : List Category :=
  [.uppercaseLetter, .lowercaseLetter, .titlecaseLetter, .modifierLetter, .otherLetter]

/-- The categories of marks. -/
def marks : List Category := [.nonspacingMark, .spacingMark, .enclosingMark]

/-- The categories of numbers. -/
def numbers : List Category := [.decimalNumber, .letterNumber, .otherNumber]

/-- The categories of punctuation. -/
def punctuation : List Category :=
  [.connectorPunctuation, .dashPunctuation, .openPunctuation, .closePunctuation,
   .initialPunctuation, .finalPunctuation, .otherPunctuation]

/-- The categories of symbols. -/
def symbols : List Category := [.mathSymbol, .currencySymbol, .modifierSymbol, .otherSymbol]

/-- The categories of separators. -/
def separators : List Category := [.spaceSeparator, .lineSeparator, .paragraphSeparator]

end Category

/-- The scripts that patterns may ask for. -/
inductive Script where
  | latin | greek | cyrillic | armenian | hebrew | arabic | devanagari | thai | georgian
  | hangul | hiragana | katakana | han
  deriving Repr, DecidableEq

namespace Script

/-- The members of a script beyond ASCII. -/
def beyondASCII : Script → Array Run
  | latin => Script.latinRuns
  | greek => Script.greekRuns
  | cyrillic => Script.cyrillicRuns
  | armenian => Script.armenianRuns
  | hebrew => Script.hebrewRuns
  | arabic => Script.arabicRuns
  | devanagari => Script.devanagariRuns
  | thai => Script.thaiRuns
  | georgian => Script.georgianRuns
  | hangul => Script.hangulRuns
  | hiragana => Script.hiraganaRuns
  | katakana => Script.katakanaRuns
  | han => Script.hanRuns

/-- Whether the character belongs to the script: of ASCII, only the letters belong to one. -/
def holds (s : Script) (c : Char) : Bool :=
  if c.toNat < 128 then s == .latin && c.isAlpha else Run.table s.beyondASCII c.toNat

end Script

/-- The properties of characters that patterns can test. -/
inductive Property where
  | any
  | ascii
  | category (members : List Category)
  | script (s : Script)
  | alphabetic
  | lowercase
  | uppercase
  | whiteSpace
  | hexDigit
  | word
  | alphanumeric
  | blank
  | punctuation
  | graphic
  | printable
  | assigned
  deriving Repr, DecidableEq

namespace Property

/-- The white space of Unicode, a closed list. -/
def isWhiteSpace (c : Char) : Bool :=
  let n := c.toNat
  (9 ≤ n && n ≤ 13) || n == 32 || n == 0x85 || n == 0xA0 || n == 0x1680
    || (0x2000 ≤ n && n ≤ 0x200A) || n == 0x2028 || n == 0x2029 || n == 0x202F
    || n == 0x205F || n == 0x3000

/-- The visible characters of ASCII are not white space. -/
theorem isWhiteSpace_of_between {c : Char} (h : 33 ≤ c.toNat ∧ c.toNat ≤ 126) :
    isWhiteSpace c = false := by
  obtain ⟨hlow, hhigh⟩ := h
  have hne : ∀ m, (m < 33 ∨ 126 < m) → (c.toNat == m) = false := by
    intro m hm
    rw [beq_eq_false_iff_ne]
    omega
  have hcontrol : ¬c.toNat ≤ 13 := by omega
  have hspace : ¬0x2000 ≤ c.toNat := by omega
  simp [isWhiteSpace, hcontrol, hspace, hne]

/-- Letters, letter numbers and what else counts as alphabetic. -/
def isAlphabetic (c : Char) : Bool :=
  if c.toNat < 128 then c.isAlpha
  else Category.letters.any (·.holds c) || Category.letterNumber.holds c
    || Run.table Category.otherAlphabeticRuns c.toNat

/-- Lowercase letters and what else counts as lowercase. -/
def isLowercase (c : Char) : Bool :=
  Category.lowercaseLetter.holds c || Run.table Category.otherLowercaseRuns c.toNat

/-- Uppercase letters and what else counts as uppercase. -/
def isUppercase (c : Char) : Bool :=
  Category.uppercaseLetter.holds c || Run.table Category.otherUppercaseRuns c.toNat

/-- What identifiers are written with: alphabetic characters, marks, decimal digits and connector
punctuation. -/
def isWord (c : Char) : Bool :=
  if c.toNat < 128 then c.isAlphanum || c == '_'
  else isAlphabetic c || Category.marks.any (·.holds c) || Category.decimalNumber.holds c
    || Category.connectorPunctuation.holds c

/-- Whether a code point of some category stands for the character. -/
def isAssigned (c : Char) : Bool := Category.all.any (·.holds c)

/-- Whether the character has the property. -/
def holds : Property → Char → Bool
  | any, _ => true
  | ascii, c => c.toNat < 128
  | category members, c => members.any (·.holds c)
  | script s, c => s.holds c
  | alphabetic, c => isAlphabetic c
  | lowercase, c => isLowercase c
  | uppercase, c => isUppercase c
  | whiteSpace, c => isWhiteSpace c
  | hexDigit, c => Numeral.isHexDigit c
  | word, c => isWord c
  | alphanumeric, c => isAlphabetic c || Category.decimalNumber.holds c
  | blank, c => c == '\t' || Category.spaceSeparator.holds c
  | punctuation, c =>
    Category.punctuation.any (·.holds c)
      || (c.toNat < 128 && Category.symbols.any (·.holds c))
  | graphic, c => isAssigned c && !isWhiteSpace c && !Category.control.holds c
  | printable, c =>
    isAssigned c && !Category.control.holds c && c.toNat != 0x2028 && c.toNat != 0x2029
  | assigned, c => isAssigned c

end Property

end Highlight
