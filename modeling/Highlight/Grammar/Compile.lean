import Highlight.Grammar.Compiled
import Highlight.Grammar.Error
import Highlight.Grammar.Raw

/-!
# Compiling grammars

`CompiledGrammar.compile` turns a grammar as written into a table of rules. A rule takes its place
in the table before the rules inside it do; the entries of a repository all take theirs before the
first of them is compiled, so they can refer to each other. A name stands for the entry of the
innermost repository around it that has one.
-/

namespace Highlight

/-- The table while it is being filled, and the other grammars met so far. -/
structure Draft where
  rules : Array Rule
  embedded : List ScopeName

/-- A step of compilation. -/
abbrev Compiling (α : Type) := Draft → Except GrammarError (α × Draft)

namespace Compiling

/-- The value and no change. -/
def pure {α : Type} (a : α) : Compiling α := fun d => .ok (a, d)

/-- One step after another. -/
def bind {α β : Type} (x : Compiling α) (f : α → Compiling β) : Compiling β := fun d =>
  match x d with
  | .ok (a, d) => f a d
  | .error e => .error e

instance : Monad Compiling where
  pure := Compiling.pure
  bind := Compiling.bind

/-- Gives up. -/
def fail {α : Type} (e : GrammarError) : Compiling α := fun _ => .error e

/-- The result of something that may have failed. -/
def lift {α : Type} (x : Except PatternError α) : Compiling α := fun d =>
  match x with
  | .ok a => .ok (a, d)
  | .error e => .error (.badPattern e)

/-- Takes the next place of the table. -/
def reserve : Compiling RuleId := fun d =>
  .ok (d.rules.size, { d with rules := d.rules.push .placeholder })

/-- Puts a rule at its place. -/
def fill (id : RuleId) (r : Rule) : Compiling Unit := fun d =>
  .ok ((), { d with rules := d.rules.setIfInBounds id r })

/-- Notes a reference to another grammar. -/
def embed (scope : ScopeName) : Compiling Unit := fun d =>
  .ok ((), if d.embedded.contains scope then d else { d with embedded := d.embedded ++ [scope] })

/-- Compiles a rule at the next place of the table. -/
def place (build : Compiling Rule) : Compiling RuleId := do
  let id ← reserve
  let r ← build
  fill id r
  return id

/-- Takes a place for each name. -/
def reserveAll : List String → Compiling Repository
  | [] => pure []
  | n :: ns => do
    let id ← reserve
    let rest ← reserveAll ns
    return (n, id) :: rest

end Compiling

/-- The repositories around a rule, the innermost first. -/
abbrev Chain := List Repository

namespace Chain

/-- The rule of the innermost entry with a name. -/
def lookup (chain : Chain) (name : String) : Option RuleId :=
  chain.findSome? (·.lookup name)

/-- The rule of the grammar's own entry with a name. -/
def outermost (chain : Chain) (name : String) : Option RuleId :=
  chain.getLast?.bind (·.lookup name)

end Chain

/-- The text before the first hash and, if there is one, the text after it. -/
def splitReference (reference : String) : String × Option String :=
  let cs := reference.toList
  let scope := cs.takeWhile (· != '#')
  match cs.dropWhile (· != '#') with
  | [] => (reference, none)
  | _ :: entry => (String.ofList scope, some (String.ofList entry))

/-- The rule that a name stands for. -/
def localTarget (own : ScopeName) (reference : String) (id? : Option RuleId) :
    Compiling IncludeTarget :=
  match id? with
  | some id => pure (.rule id)
  | none => .fail (.unresolved own reference)

/-- What a reference in the grammar with the scope `own` stands for. -/
def resolveInclude (own : ScopeName) (chain : Chain) (reference : String) :
    Compiling IncludeTarget :=
  if reference == "$self" then pure .ownRoot
  else if reference == "$base" then pure .baseRoot
  else
    match splitReference reference with
    | ("", some name) => localTarget own reference (chain.lookup name)
    | ("", none) => .fail (.unresolved own reference)
    | (scope, entry) =>
      if scope == own then
        match entry with
        | none => pure .ownRoot
        | some name => localTarget own reference (chain.outermost name)
      else do
        .embed scope
        return .grammar scope entry

/-- The pattern that ends or continues a region. One with references must compile without them. -/
def compileEnd (source : String) : Compiling EndPattern :=
  if hasReferences source.toList then do
    let _ ← Compiling.lift (Pattern.compile (dropReferences source))
    return .dynamic source
  else do
    let p ← Compiling.lift (Pattern.compile source)
    return .fixed p

/-- The end of regions that never end. -/
def unendingSource : String := String.singleton neverMatched

/-- The rules by group, with nothing for groups that have none. -/
def captureTable (ids : List (Nat × RuleId)) : CaptureRules :=
  (List.range ((ids.map (·.1 + 1)).foldl max 0)).map fun n => ids.lookup n

/-- The rules of captures with the given numbers, none of which may be too great, where `compile`
compiles them. -/
def compileCaptures (own : ScopeName) (numbers : List Nat)
    (compile : Compiling (List (Nat × RuleId))) : Compiling CaptureRules :=
  let greatest := numbers.foldl max 0
  if maxCaptureIndex < greatest then .fail (.ofCaptureIndex own greatest)
  else do
    let ids ← compile
    return captureTable ids

/-- How the rules inside a rule are compiled, with nothing for captures that are not written. -/
structure InnerRules where
  captures : Option (Compiling CaptureRules)
  beginCaptures : Option (Compiling CaptureRules)
  endCaptures : Option (Compiling CaptureRules)
  whileCaptures : Option (Compiling CaptureRules)
  patterns : Compiling (List RuleId)

namespace InnerRules

/-- The captures of one kind. Where they are not written, those of every kind stand for them. -/
def orCaptures (inner : InnerRules) (kind : Option (Compiling CaptureRules)) :
    Compiling CaptureRules :=
  (kind.or inner.captures).getD (pure [])

end InnerRules

/-- Compiles a rule that opens a region. -/
def buildRegion (raw : RawRule) (inner : InnerRules) (start : String) (ids : List RuleId) :
    Compiling Rule := do
  let bs ← inner.orCaptures inner.beginCaptures
  let p ← Compiling.lift (Pattern.compile start)
  match raw.whileSource with
  | some source => do
    let w ← compileEnd source
    let ws ← inner.orCaptures inner.whileCaptures
    return .beginWhile ⟨raw.name, raw.contentName, p, bs, w, ws, ids⟩
  | none => do
    let e ← compileEnd (raw.endSource.getD unendingSource)
    let es ← inner.orCaptures inner.endCaptures
    return .beginEnd
      ⟨raw.name, raw.contentName, p, bs, e, es, ids, raw.applyEndPatternLast.getD false⟩

/-- Compiles what a rule says, as its keys decide. -/
def buildBody (own : ScopeName) (chain : Chain) (raw : RawRule) (inner : InnerRules) :
    Compiling Rule :=
  match raw.inclusion, raw.matchSource with
  | some reference, _ => do
    let target ← resolveInclude own chain reference
    return .inclusion target
  | none, some source => do
    let p ← Compiling.lift (Pattern.compile source)
    let cs ← inner.orCaptures none
    return .matching ⟨raw.name, p, cs⟩
  | none, none => do
    let ids ← inner.patterns
    match raw.beginSource with
    | some start => buildRegion raw inner start ids
    | none =>
      if raw.endSource.isSome || raw.whileSource.isSome then .fail (.badRule own .endWithoutBegin)
      else return .group ⟨raw.name, raw.contentName, ids⟩

mutual

/-- Compiles the repository of a rule and then what the rule says. -/
def buildRule (own : ScopeName) (chain : Chain) : RawRule → Compiling Rule
  | raw@⟨_, _, _, _, _, _, _, captures, beginCaptures, endCaptures, whileCaptures, patterns,
      repository, _, _⟩ => do
    let chain ← compileRepository own chain repository
    buildBody own chain raw
      { captures := compileCaptures? own chain captures
        beginCaptures := compileCaptures? own chain beginCaptures
        endCaptures := compileCaptures? own chain endCaptures
        whileCaptures := compileCaptures? own chain whileCaptures
        patterns := compilePatterns? own chain patterns }

/-- Compiles the repository of a rule, which then comes before those around the rule. -/
def compileRepository (own : ScopeName) (chain : Chain) :
    Option (List (String × RawRule)) → Compiling Chain
  | some (e :: es) => do
    let ids ← Compiling.reserveAll (e.1 :: es.map (·.1))
    compileEntries own (ids :: chain) (e :: es) ids
    return ids :: chain
  | _ => pure chain

/-- Compiles captures, where they are written. -/
def compileCaptures? (own : ScopeName) (chain : Chain) :
    Option (List (Nat × RawRule)) → Option (Compiling CaptureRules)
  | some cs => some (compileCaptures own (cs.map (·.1)) (compileNumbered own chain cs))
  | none => none

/-- Compiles the rules of a list, where it is written. -/
def compilePatterns? (own : ScopeName) (chain : Chain) :
    Option (List RawRule) → Compiling (List RuleId)
  | some raws => compilePatterns own chain raws
  | none => pure []

/-- Compiles the entries of a repository at the places reserved for them. -/
def compileEntries (own : ScopeName) (chain : Chain) :
    List (String × RawRule) → Repository → Compiling Unit
  | (_, raw) :: es, (_, id) :: ids => do
    let r ← buildRule own chain raw
    Compiling.fill id r
    compileEntries own chain es ids
  | _, _ => pure ()

/-- Compiles the rules of a list that are not disabled. -/
def compilePatterns (own : ScopeName) (chain : Chain) : List RawRule → Compiling (List RuleId)
  | [] => pure []
  | raw :: raws =>
    if raw.disabled.getD false then compilePatterns own chain raws
    else do
      let id ← Compiling.place (buildRule own chain raw)
      let ids ← compilePatterns own chain raws
      return id :: ids

/-- Compiles the rules of captures one after another. -/
def compileNumbered (own : ScopeName) (chain : Chain) :
    List (Nat × RawRule) → Compiling (List (Nat × RuleId))
  | [] => pure []
  | (n, raw) :: cs => do
    let id ← Compiling.place (buildRule own chain raw)
    let ids ← compileNumbered own chain cs
    return (n, id) :: ids

end

/-- Compiles the rules that a grammar injects. -/
def compileInjections (own : ScopeName) (chain : Chain) :
    List (String × RawRule) → Compiling (List (Selector × RuleId))
  | [] => pure []
  | (selector, raw) :: rest => do
    let id ← Compiling.place (buildRule own chain raw)
    let ids ← compileInjections own chain rest
    return (Selector.parse selector, id) :: ids

/-- What a grammar's rules come to: the places of its repository, its root and its injections. -/
def compileAll (raw : RawGrammar) : Compiling (Repository × RuleId × List (Selector × RuleId)) := do
  let own := raw.scopeName
  let ids ← Compiling.reserveAll (raw.repository.map (·.1))
  compileEntries own [ids] raw.repository ids
  let root ← Compiling.reserve
  let patterns ← compilePatterns own [ids] raw.patterns
  Compiling.fill root (.group ⟨none, none, patterns⟩)
  let injections ← compileInjections own [ids] raw.injections
  return (ids, root, injections)

namespace CompiledGrammar

/-- Compiles a grammar. -/
def compile (raw : RawGrammar) : Except GrammarError CompiledGrammar :=
  match compileAll raw ⟨#[], []⟩ with
  | .error e => .error e
  | .ok ((repository, root, injections), draft) =>
    .ok {
      scopeName := raw.scopeName
      name := raw.name
      fileTypes := raw.fileTypes
      firstLineMatch := raw.firstLineMatch
      injectionSelector := raw.injectionSelector.map Selector.parse
      injectTo := raw.injectTo
      rules := draft.rules
      root := root
      repository := repository
      injections := injections
      embedded := draft.embedded }

end CompiledGrammar

end Highlight
