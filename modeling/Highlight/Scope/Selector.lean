import Highlight.Scope.Name

/-!
# Scope selectors

A selector is a list of alternatives, each a condition on scope paths with a priority. Reading never
fails: what cannot be read ends the selector. Commas separate alternatives, a blank stands between
the names of a path and between conditions that must all hold, a hyphen excludes, parentheses group
conditions separated by bars or commas.
-/

namespace Highlight

/-- How the patterns injected by a selector rank against the patterns around them. -/
inductive Priority where
  | before
  | normal
  | after
  deriving Repr, DecidableEq, Inhabited

/-- A condition on scope paths. -/
inductive ScopeCondition where
  /-- Scopes that match the names follow each other, others between them. -/
  | path (names : List ScopeName)
  | excluding (c : ScopeCondition)
  | all (cs : List ScopeCondition)
  | any (cs : List ScopeCondition)
  deriving Repr, Inhabited

namespace ScopeCondition

/-- Whether the condition holds of a path. -/
def holds (path : ScopePath) : ScopeCondition → Bool
  | .path names => Scope.pathCovers names path
  | .excluding c => !c.holds path
  | .all cs => allHold path cs
  | .any cs => anyHolds path cs
where
  /-- Whether all conditions hold. -/
  allHold (path : ScopePath) : List ScopeCondition → Bool
    | [] => true
    | c :: cs => c.holds path && allHold path cs
  /-- Whether one of the conditions holds. -/
  anyHolds (path : ScopePath) : List ScopeCondition → Bool
    | [] => false
    | c :: cs => c.holds path || anyHolds path cs

end ScopeCondition

/-- A condition with its priority. -/
structure Alternative where
  priority : Priority
  condition : ScopeCondition
  deriving Repr, Inhabited

/-- A selector and the text it was read from. -/
structure Selector where
  source : String
  alternatives : List Alternative
  deriving Repr, Inhabited

namespace Selector

/-! ## Tokens -/

/-- Whether a character ends a word. -/
def endsWord (c : Char) : Bool := Property.isWhiteSpace c || [',', '|', '(', ')'].contains c

/-- The tokens of a selector, where `word` holds backwards what has been read of a word. A word ends
at white space, at a separator or parenthesis, and after `L:` and `R:`. -/
def tokensFrom (word : List Char) : List Char → List String
  | [] => if word.isEmpty then [] else [String.ofList word.reverse]
  | c :: cs =>
    let flush := fun (ts : List String) =>
      if word.isEmpty then ts else String.ofList word.reverse :: ts
    if Property.isWhiteSpace c then flush (tokensFrom [] cs)
    else if [',', '|', '(', ')'].contains c || (c == '-' && word.isEmpty) then
      flush (String.singleton c :: tokensFrom [] cs)
    else if c == ':' && (word == ['L'] || word == ['R']) then
      String.ofList (c :: word).reverse :: tokensFrom [] cs
    else tokensFrom (c :: word) cs

/-- The tokens of a selector. -/
def tokens (source : String) : List String := tokensFrom [] source.toList

/-- Whether a token is a scope name. -/
def isName (token : String) : Bool := !([",", "|", "-", "(", ")", "L:", "R:"].contains token)

/-! ## Conditions -/

/-- The leading names and what follows them. -/
def spanNames : List String → List String × List String
  | [] => ([], [])
  | t :: ts =>
    if isName t then
      let (names, rest) := spanNames ts
      (t :: names, rest)
    else ([], t :: ts)

/-- One condition stands for itself, several for their combination, none for nothing. -/
def combine (join : List ScopeCondition → ScopeCondition) :
    List ScopeCondition → Option ScopeCondition
  | [] => none
  | [c] => some c
  | cs => some (join cs)

mutual

/-- The operands that must all hold. -/
def operands : Nat → List String → List ScopeCondition × List String
  | 0, ts => ([], ts)
  | fuel + 1, ts =>
    match operand fuel ts with
    | (some c, rest) =>
      let (cs, rest) := operands fuel rest
      (c :: cs, rest)
    | (none, rest) => ([], rest)

/-- One operand: an exclusion, a group in parentheses or a path. -/
def operand : Nat → List String → Option ScopeCondition × List String
  | 0, ts => (none, ts)
  | fuel + 1, ts =>
    match ts with
    | [] => (none, [])
    | t :: rest =>
      if t == "-" then
        match operand fuel rest with
        | (some c, rest) => (some (.excluding c), rest)
        | (none, rest) => (none, rest)
      else if t == "(" then
        let (cs, rest) := choices fuel rest
        (combine .any cs, if rest.head? == some ")" then rest.tail else rest)
      else if isName t then
        let (names, rest) := spanNames (t :: rest)
        (some (.path names), rest)
      else (none, t :: rest)

/-- The conditions of a group of which one must hold. -/
def choices : Nat → List String → List ScopeCondition × List String
  | 0, ts => ([], ts)
  | fuel + 1, ts =>
    let (cs, rest) := operands fuel ts
    let here := (combine .all cs).toList
    if rest.head? == some "|" || rest.head? == some "," then
      let (more, rest) := choices fuel rest.tail
      (here ++ more, rest)
    else (here, rest)

end

/-- The alternatives of a selector: reading stops where no comma follows. -/
def alternativesFrom : Nat → List String → List Alternative
  | 0, _ => []
  | _ + 1, [] => []
  | fuel + 1, t :: ts =>
    let (priority, rest) :=
      if t == "L:" then (Priority.before, ts)
      else if t == "R:" then (Priority.after, ts)
      else (Priority.normal, t :: ts)
    let (cs, rest) := operands (3 * rest.length + 3) rest
    let here := (combine .all cs).toList.map (⟨priority, ·⟩)
    if rest.head? == some "," then here ++ alternativesFrom fuel rest.tail else here

/-- Reads a selector. -/
def parse (source : String) : Selector :=
  let ts := tokens source
  ⟨source, alternativesFrom ts.length ts⟩

/-- The priority of the first alternative that holds of a path. -/
def priority? (s : Selector) (path : ScopePath) : Option Priority :=
  (s.alternatives.find? (·.condition.holds path)).map (·.priority)

/-- Whether some alternative holds of a path. -/
def covers (s : Selector) (path : ScopePath) : Bool := (s.priority? path).isSome

end Selector

end Highlight
