import Highlight.Grammar.Link
import Highlight.Grammar.Source
import Highlight.Theme.Style

/-!
# Libraries of grammars

A `Library` loads grammars by scope, compiles them, links them with all that they refer to, and
keeps what came of it, failures included, until a scope is forgotten. What is loaded gets a serial
number, which tells a grammar from the same grammar loaded again.
-/

namespace Highlight

/-- What a loader says about a scope that it knows. -/
inductive SourceAnswer where
  | source (s : GrammarSource)
  /-- Loading failed, with the reason. -/
  | failure (reason : String)
  deriving Repr, DecidableEq

/-- Where grammars come from. -/
structure Loader where
  /-- What is known of scopes; other scopes are unknown. -/
  sources : List (ScopeName × SourceAnswer)
  /-- The grammars injected into the grammars with the given scopes. -/
  injectors : List (ScopeName × List ScopeName)
  deriving Repr

/-- A value with the serial number that it got when it was loaded. -/
structure Loaded (α : Type) where
  serial : Nat
  value : α

/-- What came of a load. -/
abbrev LoadResult (α : Type) := Except GrammarError (Loaded α)

/-- What has been loaded, and the theme. -/
structure Library where
  compiled : List (ScopeName × LoadResult CompiledGrammar)
  linked : List (ScopeName × LoadResult Grammar)
  /-- Injections that grammars or hosts have asked for: the injected grammars by target, in the
  order in which they were registered. -/
  registered : List (ScopeName × List ScopeName)
  /-- The scopes that the loader has been asked for, the last one first. -/
  requests : List ScopeName
  /-- The next serial number. -/
  serial : Nat
  theme : Theme
  styles : StyleCache theme

namespace Library

/-- A library with nothing loaded. -/
def empty (theme : Theme) : Library := ⟨[], [], [], [], 0, theme, .empty theme⟩

/-- The library with another theme. -/
def setTheme (l : Library) (theme : Theme) : Library :=
  { l with theme := theme, styles := .empty theme }

/-- The value with the next serial number. -/
def stamp {α : Type} (l : Library) (a : α) : Loaded α × Library :=
  (⟨l.serial, a⟩, { l with serial := l.serial + 1 })

/-! ## Injections -/

/-- The list with one more member, unless it is in it. -/
def addOnce (injector : ScopeName) (l : List ScopeName) : List ScopeName :=
  if l.contains injector then l else l ++ [injector]

/-- Registers an injected grammar for a target. -/
def registerOne (injector target : ScopeName) (table : List (ScopeName × List ScopeName)) :
    List (ScopeName × List ScopeName) :=
  Value.put target (addOnce injector ((table.lookup target).getD [])) table

/-- Registers an injected grammar for targets. -/
def register (l : Library) (injector : ScopeName) (targets : List ScopeName) : Library :=
  { l with
    registered := targets.foldl (fun t target => registerOne injector target t) l.registered }

/-- The grammars injected into a grammar: those that the loader gives, then the registered ones that
it does not give. -/
def injectorsOf (l : Library) (loader : Loader) (target : ScopeName) : List ScopeName :=
  ((l.registered.lookup target).getD []).foldl (fun out i => addOnce i out)
    ((loader.injectors.lookup target).getD [])

/-! ## Loading -/

/-- What a loader's answer comes to. -/
def compileAnswer (scope : ScopeName) : Option SourceAnswer → Except GrammarError CompiledGrammar
  | none => .error (.notFound scope)
  | some (.failure reason) => .error (.unloadable scope reason)
  | some (.source s) => do
    let raw ← s.parse scope
    CompiledGrammar.compile raw

/-- Asks the loader for a grammar and registers what it injects itself into. -/
def fetch (l : Library) (loader : Loader) (scope : ScopeName) :
    LoadResult CompiledGrammar × Library :=
  let l := { l with requests := scope :: l.requests }
  match compileAnswer scope (loader.sources.lookup scope) with
  | .error e => (.error e, l)
  | .ok g =>
    let (g, l) := l.stamp g
    (.ok g, l.register scope g.value.injectTo)

/-- The compiled grammar with a scope, which is loaded if it has not been. -/
def load (l : Library) (loader : Loader) (scope : ScopeName) :
    LoadResult CompiledGrammar × Library :=
  match l.compiled.lookup scope with
  | some r => (r, l)
  | none =>
    let (r, l) := l.fetch loader scope
    (r, { l with compiled := (scope, r) :: l.compiled })

/-- The compiled grammars with several scopes. -/
def loadAll (l : Library) (loader : Loader) : List ScopeName →
    List (ScopeName × LoadResult CompiledGrammar) × Library
  | [] => ([], l)
  | scope :: scopes =>
    let (r, l) := l.load loader scope
    let (rs, l) := l.loadAll loader scopes
    ((scope, r) :: rs, l)

/-! ## Linking -/

/-- A walk through the grammars that a grammar refers to. -/
structure Walk where
  /-- Scopes that have been met. -/
  seen : List ScopeName
  /-- Scopes that a grammar refers to with the scope of the grammar that did so first. -/
  includers : List (ScopeName × ScopeName)
  /-- The grammars loaded so far, the last one first. -/
  found : List CompiledGrammar

namespace Walk

/-- The walk with the scopes that are new, and those scopes in order. -/
def meet (w : Walk) : List ScopeName → List ScopeName × Walk
  | [] => ([], w)
  | s :: ss =>
    if w.seen.contains s then w.meet ss
    else
      let (fresh, w) := { w with seen := s :: w.seen }.meet ss
      (s :: fresh, w)

/-- The walk with a loaded grammar, and the scopes that it refers to first. -/
def add (w : Walk) (g : CompiledGrammar) : List ScopeName × Walk :=
  let (fresh, w) := w.meet g.embedded
  (fresh, { w with
    includers := (fresh.map fun s => (s, g.scopeName)) ++ w.includers
    found := g :: w.found })

/-- Why the walk cannot go on where loading a scope failed: an unknown grammar is the fault of the
grammar that refers to it, if one does. -/
def blame (w : Walk) (scope : ScopeName) (e : GrammarError) : GrammarError :=
  match e, w.includers.lookup scope with
  | .notFound _, some includer => .unresolved includer scope
  | e, _ => e

/-- The walk with the results of loading, and the scopes met first there. -/
def addAll (w : Walk) : List (ScopeName × LoadResult CompiledGrammar) →
    Except GrammarError (List ScopeName × Walk)
  | [] => .ok ([], w)
  | (_, .ok g) :: rs => do
    let (here, w) := w.add g.value
    let (later, w) ← w.addAll rs
    return (here ++ later, w)
  | (scope, .error e) :: _ => .error (w.blame scope e)

end Walk

/-- Loads the scopes of a wave, then those that the grammars of the wave refer to, and so on. -/
def walkFrom (loader : Loader) : Nat → Library → Walk → List ScopeName →
    Except GrammarError Walk × Library
  | 0, l, w, _ => (.ok w, l)
  | _ + 1, l, w, [] => (.ok w, l)
  | waves + 1, l, w, wave =>
    let (results, l) := l.loadAll loader wave
    match w.addAll results with
    | .error e => (.error e, l)
    | .ok (next, w) => walkFrom loader waves l w next

/-- More waves than there can be: each brings a scope that is known. -/
def waves (l : Library) (loader : Loader) : Nat :=
  loader.sources.length + l.compiled.length + 2

/-- Loads a grammar and all that it refers to and links them. -/
def link (l : Library) (loader : Loader) (scope : ScopeName) : LoadResult Grammar × Library :=
  match l.load loader scope with
  | (.error e, l) => (.error e, l)
  | (.ok root, l) =>
    let root := root.value
    let injectors := l.injectorsOf loader scope
    let (wave, w) := Walk.meet ⟨[scope], root.embedded.map fun s => (s, scope), []⟩
      (root.embedded ++ injectors)
    match walkFrom loader (l.waves loader) l w wave with
    | (.error e, l) => (.error e, l)
    | (.ok w, l) =>
      match Grammar.link root w.found.reverse injectors with
      | .error e => (.error e, l)
      | .ok g =>
        let (g, l) := l.stamp g
        (.ok g, l)

/-- The linked grammar with a scope, which is loaded if it has not been. -/
def loadGrammar (l : Library) (loader : Loader) (scope : ScopeName) :
    LoadResult Grammar × Library :=
  match l.linked.lookup scope with
  | some r => (r, l)
  | none =>
    let (r, l) := l.link loader scope
    (r, { l with linked := (scope, r) :: l.linked })

/-- Forgets what came of loading a scope; grammars linked with it are kept. -/
def forget (l : Library) (scope : ScopeName) : Library :=
  { l with
    compiled := l.compiled.filter (·.1 != scope)
    linked := l.linked.filter (·.1 != scope) }

end Library

end Highlight
