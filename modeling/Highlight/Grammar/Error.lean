import Highlight.Grammar.Pattern

/-!
# Errors of grammars

Why a grammar cannot be loaded, read, compiled or linked, and how that is worded.
-/

namespace Highlight

/-- What is wrong with a rule. -/
inductive RuleFault where
  /-- The rule has an end or a continuation but no begin. -/
  | endWithoutBegin
  /-- A capture has a greater number than any capture may have. -/
  | captureIndex (index : Nat)
  deriving Repr, DecidableEq

/-- The greatest number of a capture. -/
def maxCaptureIndex : Nat := 999

namespace RuleFault

/-- The wording of the fault. -/
def message : RuleFault → String
  | endWithoutBegin => "`end`/`while` without `begin`"
  | captureIndex n => "capture index " ++ toString n ++ " exceeds " ++ toString maxCaptureIndex

end RuleFault

/-- Why a grammar is not available. -/
inductive GrammarError where
  /-- No grammar has the scope. -/
  | notFound (scope : ScopeName)
  /-- The text is malformed. The origin names where it came from. -/
  | malformed (origin : String)
  /-- The loader failed and says why. -/
  | unloadable (scope : ScopeName) (reason : String)
  /-- A rule of the grammar with the scope refers to rules that do not exist. -/
  | unresolved (scope : ScopeName) (reference : String)
  /-- A pattern cannot be compiled. -/
  | badPattern (e : PatternError)
  /-- A rule of the grammar with the scope is faulty. -/
  | badRule (scope : ScopeName) (fault : RuleFault)
  /-- The number of a rule's captures does not fit 64 bits. The program does not get over this. -/
  | overflow
  deriving Repr, DecidableEq

namespace GrammarError

/-- The wording of an error; malformed texts and patterns are worded by their kind alone, and there
is none where the program stops. -/
def message? : GrammarError → Option String
  | notFound scope => some ("no grammar registered for scope '" ++ scope ++ "'")
  | malformed _ => none
  | unloadable scope reason => some ("failed to load grammar '" ++ scope ++ "': " ++ reason)
  | unresolved scope reference =>
    some ("unresolved rule reference '" ++ reference ++ "' in grammar '" ++ scope ++ "'")
  | badPattern _ => none
  | badRule scope fault => some ("invalid rule in grammar '" ++ scope ++ "': " ++ fault.message)
  | overflow => none

/-- What comes of a capture whose number is too great. A rule needs a place for every number from
zero to that one, and the places are counted before the number is reported. -/
def ofCaptureIndex (scope : ScopeName) (index : Nat) : GrammarError :=
  if index + 1 < UInt64.size then badRule scope (.captureIndex index) else overflow

end GrammarError

end Highlight
