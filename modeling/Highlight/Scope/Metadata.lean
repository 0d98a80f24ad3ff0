import Highlight.Scope.Name

/-!
# Token metadata

What an editor needs to know of a token, packed into 32 bits. From the least significant bit: the
language in 8 bits, the kind of text in 2, the bracket flag in 1, the font style in 4, the
foreground color in 9 and the background color in 8. Colors keep their lowest bits.
-/

namespace Highlight

/-- Font styles, which combine freely. -/
structure FontStyle where
  italic : Bool
  bold : Bool
  underline : Bool
  strikethrough : Bool
  deriving Repr, DecidableEq, Inhabited

namespace FontStyle

/-- No style. -/
def plain : FontStyle := ⟨false, false, false, false⟩

/-- The style with the one that a word names; other words name none. -/
def insert (s : FontStyle) (word : String) : FontStyle :=
  if word == "italic" then { s with italic := true }
  else if word == "bold" then { s with bold := true }
  else if word == "underline" then { s with underline := true }
  else if word == "strikethrough" then { s with strikethrough := true }
  else s

/-- The style that a text of words names. -/
def parse (s : String) : FontStyle := (Blank.words s).foldl insert plain

/-- The style as a number: italic counts 1, bold 2, underline 4, strikethrough 8. -/
def bits (s : FontStyle) : Nat :=
  s.italic.toNat + 2 * s.bold.toNat + 4 * s.underline.toNat + 8 * s.strikethrough.toNat

/-- The style of a number. -/
def ofBits (n : Nat) : FontStyle :=
  ⟨n % 2 == 1, n / 2 % 2 == 1, n / 4 % 2 == 1, n / 8 % 2 == 1⟩

theorem bits_lt (s : FontStyle) : s.bits < 16 := by
  obtain ⟨a, b, c, d⟩ := s
  cases a <;> cases b <;> cases c <;> cases d <;> decide

/-- The names of the styles that are set. -/
def names (s : FontStyle) : List String :=
  (if s.italic then ["ITALIC"] else []) ++ (if s.bold then ["BOLD"] else [])
    ++ (if s.underline then ["UNDERLINE"] else [])
    ++ (if s.strikethrough then ["STRIKETHROUGH"] else [])

/-- The style spelled out. -/
def describe (s : FontStyle) : String :=
  "FontStyle(" ++ (if s.names.isEmpty then "0x0" else " | ".intercalate s.names) ++ ")"

end FontStyle

/-- Kinds of text that editors treat differently. -/
inductive TokenType where
  | other
  | comment
  | string
  | regex
  deriving Repr, DecidableEq, Inhabited

namespace TokenType

/-- The kind as a number. -/
def bits : TokenType → Nat
  | other => 0
  | comment => 1
  | string => 2
  | regex => 3

/-- The kind of a number. -/
def ofBits : Nat → TokenType
  | 1 => comment
  | 2 => string
  | 3 => regex
  | _ => other

theorem bits_lt (t : TokenType) : t.bits < 4 := by cases t <;> decide

/-- The name of the kind. -/
def name : TokenType → String
  | other => "Other"
  | comment => "Comment"
  | string => "String"
  | regex => "RegEx"

/-- The kind of a name. -/
def ofName? : String → Option TokenType
  | "Other" => some other
  | "Comment" => some comment
  | "String" => some string
  | "RegEx" => some regex
  | _ => none

/-- The kind that a segment of a scope names. -/
def ofSegment? : String → Option TokenType
  | "comment" => some comment
  | "string" => some string
  | "regex" => some regex
  | _ => none

/-- The kind that a scope names by its first segment that names one. Embedded code is neither
comment nor string, whatever surrounds it. -/
def ofScope? (scope : ScopeName) : Option TokenType :=
  if Scope.covers "meta.embedded" scope then some other
  else (Scope.segments scope).findSome? ofSegment?

/-- The kind that the innermost scope naming one gives to a path. -/
def ofPath (path : ScopePath) : TokenType := (path.reverse.findSome? ofScope?).getD other

end TokenType

/-- A number that stands for a language in packed tokens; 0 stands for none. -/
abbrev LanguageId := UInt8

/-- The fields of a token's metadata in 32 bits. -/
structure Metadata where
  bits : Nat
  bits_lt : bits < 4294967296
  deriving DecidableEq, Repr

namespace Metadata

/-- Packs the fields. -/
def pack (language : LanguageId) (type : TokenType) (balanced : Bool) (style : FontStyle)
    (foreground background : Nat) : Metadata where
  bits := language.toNat + 256 * type.bits + 1024 * balanced.toNat + 2048 * style.bits
    + 32768 * (foreground % 512) + 16777216 * (background % 256)
  bits_lt := by
    have := language.toNat_lt
    have := type.bits_lt
    have := Bool.toNat_le balanced
    have := style.bits_lt
    omega

/-- The metadata of a word, of which 32 bits count. -/
def ofBits (n : Nat) : Metadata := ⟨n % 4294967296, Nat.mod_lt _ (by decide)⟩

/-- The language. -/
def language (m : Metadata) : LanguageId := UInt8.ofNat (m.bits % 256)

/-- The kind of text. -/
def type (m : Metadata) : TokenType := .ofBits (m.bits / 256 % 4)

/-- Whether brackets in the token take part in matching. -/
def balanced (m : Metadata) : Bool := m.bits / 1024 % 2 == 1

/-- The font style. -/
def style (m : Metadata) : FontStyle := .ofBits (m.bits / 2048 % 16)

/-- The number of the foreground color. -/
def foreground (m : Metadata) : Nat := m.bits / 32768 % 512

/-- The number of the background color. -/
def background (m : Metadata) : Nat := m.bits / 16777216 % 256

/-- The metadata spelled out, the bracket flag aside. -/
def describe (m : Metadata) : String :=
  "TokenMetadata \x7b language: " ++ toString m.language.toNat
    ++ ", token_type: " ++ m.type.name
    ++ ", font_style: " ++ m.style.describe
    ++ ", foreground: " ++ toString m.foreground
    ++ ", background: " ++ toString m.background ++ " \x7d"

end Metadata

end Highlight
