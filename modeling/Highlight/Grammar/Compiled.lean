import Highlight.Grammar.Pattern
import Highlight.Scope.Selector

/-!
# Compiled grammars

A `CompiledGrammar` is one grammar with its patterns compiled. Its rules stand in a table and refer
to each other by their places in it; references to other grammars keep the name of the scope.
-/

namespace Highlight

/-- The place of a rule in the table of its grammar. -/
abbrev RuleId := Nat

/-- What a reference to rules stands for. -/
inductive IncludeTarget where
  /-- A rule of the same grammar. -/
  | rule (id : RuleId)
  /-- The root of the grammar that the reference is written in. -/
  | ownRoot
  /-- The root of the grammar that a text is tokenized with. -/
  | baseRoot
  /-- Another grammar, or one entry of its repository. -/
  | grammar (scope : ScopeName) (entry : Option String)
  deriving Repr, DecidableEq

/-- The pattern that ends or continues a region. -/
inductive EndPattern where
  | fixed (p : Pattern)
  /-- Refers to what the begin match captured. -/
  | dynamic (source : String)

/-- The rules for the groups of a match, by number. -/
abbrev CaptureRules := List (Option RuleId)

/-- A rule that gives a scope to what it matches. -/
structure MatchRule where
  name : Option String
  pattern : Pattern
  captures : CaptureRules

/-- A rule that opens a region which lasts until its end matches. -/
structure BeginEndRule where
  name : Option String
  contentName : Option String
  beginPattern : Pattern
  beginCaptures : CaptureRules
  endPattern : EndPattern
  endCaptures : CaptureRules
  patterns : List RuleId
  /-- The end is tried after the patterns inside, not before them. -/
  endLast : Bool

/-- A rule that opens a region which lasts while its pattern matches at the start of lines. -/
structure BeginWhileRule where
  name : Option String
  contentName : Option String
  beginPattern : Pattern
  beginCaptures : CaptureRules
  whilePattern : EndPattern
  whileCaptures : CaptureRules
  patterns : List RuleId

/-- A list of rules. -/
structure GroupRule where
  name : Option String
  contentName : Option String
  patterns : List RuleId

/-- A rule of a compiled grammar. -/
inductive Rule where
  | matching (r : MatchRule)
  | beginEnd (r : BeginEndRule)
  | beginWhile (r : BeginWhileRule)
  | group (r : GroupRule)
  | inclusion (target : IncludeTarget)

namespace Rule

/-- A group of nothing, which holds the place of a rule that is not compiled yet. -/
def placeholder : Rule := .group ⟨none, none, []⟩

instance : Inhabited Rule := ⟨placeholder⟩

/-- The name that a rule gives to its match. -/
def name? : Rule → Option String
  | matching r => r.name
  | beginEnd r => r.name
  | beginWhile r => r.name
  | group r => r.name
  | inclusion _ => none

/-- The name that a rule gives to what its region contains. -/
def contentName? : Rule → Option String
  | matching _ => none
  | beginEnd r => r.contentName
  | beginWhile r => r.contentName
  | group r => r.contentName
  | inclusion _ => none

/-- The rules that apply inside a rule. -/
def children : Rule → List RuleId
  | matching _ => []
  | beginEnd r => r.patterns
  | beginWhile r => r.patterns
  | group r => r.patterns
  | inclusion _ => []

end Rule

/-- The rules that names of a repository stand for. -/
abbrev Repository := List (String × RuleId)

/-- A compiled grammar. -/
structure CompiledGrammar where
  scopeName : ScopeName
  name : Option String
  fileTypes : List String
  firstLineMatch : Option String
  injectionSelector : Option Selector
  injectTo : List ScopeName
  rules : Array Rule
  root : RuleId
  repository : Repository
  /-- Rules that the grammar injects into texts tokenized with it. -/
  injections : List (Selector × RuleId)
  /-- The other grammars that rules refer to, in the order of the first reference. -/
  embedded : List ScopeName
  deriving Inhabited

namespace CompiledGrammar

/-- The rule at a place of the table. -/
def rule? (d : CompiledGrammar) (id : RuleId) : Option Rule := d.rules[id]?

/-- The rule of an entry of the repository. -/
def entry? (d : CompiledGrammar) (name : String) : Option RuleId := d.repository.lookup name

/-- The references to other grammars. -/
def externalIncludes (d : CompiledGrammar) : List (ScopeName × Option String) :=
  d.rules.toList.filterMap fun r =>
    match r with
    | .inclusion (.grammar scope entry) => some (scope, entry)
    | _ => none

end CompiledGrammar

end Highlight
