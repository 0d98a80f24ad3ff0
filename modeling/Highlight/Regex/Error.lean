import Highlight.Text.Numeral

/-!
# Malformed patterns

The reasons for which a pattern cannot be read, the same for all dialects.
-/

namespace Highlight

/-- Why a pattern cannot be read. -/
inductive RegexError where
  | unexpectedEnd
  | unclosedGroup
  | unmatchedClose
  | nothingToRepeat
  | invalidRepetition
  | emptyClass
  | unclosedClass
  | invalidRange
  | invalidEscape
  | invalidCharacter
  | unknownProperty
  | unknownOption
  | invalidGroupName
  | unknownGroup
  | ambiguousGroup
  | invalidLookBehind
  | endlessCall
  | unsupported
  /-- A cut through the pattern falls inside a character. -/
  | splitCharacter
  deriving Repr, DecidableEq

/-- The character that a pattern gives by its code point. -/
def Regex.character (n : Nat) : Except RegexError Char :=
  match Numeral.character? n with
  | some c => .ok c
  | none => .error .invalidCharacter

end Highlight
