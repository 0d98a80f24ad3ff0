import Highlight.Command.Arguments
import Highlight.Manifest.Provider

/-!
# The command line

The command tokenizes a file with the grammar that a manifest has for a language and prints each
line with its tokens. `Command.run` is all of it on files that have been read; a file is found by any
path that leads to it.
-/

namespace Highlight.Command

/-- How the command ends: with a status, after printing a text. -/
structure Outcome where
  status : Nat
  output : String
  deriving Repr, DecidableEq

/-- The command failed. -/
def failed : Outcome := ⟨1, ""⟩

/-! ## Paths -/

/-- The parts of a path that are names. -/
def nameParts (path : String) : List String :=
  (Blank.split '/' path).filter fun p => !(p == "" || p == ".")

/-- Whether a file lies below the place whose path has these parts. -/
def isDirectory (files : Files) (place : List String) : Bool :=
  place.isEmpty || files.any fun f =>
    place.isPrefixOf (nameParts f.1) && place.length < (nameParts f.1).length

/-- Where the parts of a path lead from a place. The parts of both places stand with the last one
first. Only a directory can be gone on from, and nothing is known of what is above the first one. -/
def follow? (files : Files) : List String → List String → Option (List String)
  | place, [] => some place
  | place, p :: ps =>
    if isDirectory files place.reverse then
      if p == "" || p == "." then follow? files place ps
      else if p == ".." then
        match place with
        | _ :: above => follow? files above ps
        | [] => none
      else follow? files (p :: place) ps
    else none

/-- What is at a path. -/
def fileAt (files : Files) (path : String) : Option FileAnswer :=
  match files.lookup path with
  | some a => some a
  | none =>
    if path.startsWith "/" then none
    else do
      let place ← follow? files [] (Blank.split '/' path)
      let file ← files.find? fun f => nameParts f.1 == place.reverse
      return file.2

/-- The text at a path. -/
def textAt? (files : Files) (path : String) : Option String :=
  match fileAt files path with
  | some (.text s) => some s
  | _ => none

/-- The directory of a path, with nothing for the place itself. -/
def directory (path : String) : String :=
  let parts := Blank.split '/' path
  let above := parts.reverse.dropWhile (fun p => p == "" || p == ".") |>.drop 1
  let above := above.dropWhile (· == "")
  if above.isEmpty then (if path.startsWith "/" then "/" else "")
  else "/".intercalate above.reverse

/-- The path of a name seen from a directory. -/
def join (dir name : String) : String :=
  if name.startsWith "/" then name
  else if dir == "" || dir.endsWith "/" then dir ++ name
  else dir ++ "/" ++ name

/-- The manifest at a path, with the place of its resources seen from its directory. -/
def manifestAt? (files : Files) (path : String) : Option Manifest := do
  let text ← textAt? files path
  let m ← Manifest.parse? text
  return { m with base := join (directory path) m.base }

/-- The places of all resources of a manifest. -/
def resources (m : Manifest) : List String :=
  m.grammars.map (fun (_, g) => m.grammarUri g.path)
    ++ m.configurations.map m.configurationUri

/-- The files by the places that the manifest has for them. -/
def resourceFiles (m : Manifest) (files : Files) : Files :=
  (resources m).filterMap fun uri => (fileAt files uri).map fun a => (uri, a)

/-! ## Printing -/

/-- A token with its scopes. -/
def describeToken (line : Subject) (t : Token) : String :=
  let text := match line.position? t.start, line.position? t.stop with
    | some a, some b => line.slice a b
    | _, _ => ""
  "  token from " ++ toString t.start ++ " to " ++ toString t.stop ++ " (" ++ text
    ++ ") with scopes " ++ ", ".intercalate t.scopes

/-- A color of the theme, or a hyphen. -/
def describeColor (colors : ColorTable) (id : Nat) : String := (colors.get? id).getD "-"

/-- A packed token. -/
def describePacked (colors : ColorTable) (t : PackedToken) : String :=
  "  token at " ++ toString t.start
    ++ ": language=" ++ toString t.metadata.language.toNat
    ++ " type=" ++ t.metadata.type.name
    ++ " style=" ++ t.metadata.style.describe
    ++ " foreground=" ++ describeColor colors t.metadata.foreground
    ++ " background=" ++ describeColor colors t.metadata.background

/-- The head of a line. -/
def describeLine (number : Nat) (line : String) : String :=
  "line " ++ toString number ++ ": " ++ line

/-- The lines from a stack on with their tokens. -/
def printScopes (g : Grammar) (stack : RuleStack) (number : Nat) : List String → List String
  | [] => []
  | line :: lines =>
    let result := g.tokenizeLine line stack
    describeLine number line :: result.tokens.map (describeToken (Subject.ofString line))
      ++ printScopes g result.stack (number + 1) lines

/-- The lines from a stack on with their packed tokens. -/
def printPacked (l : Library) (t : Tokenizer) (stack : RuleStack) (number : Nat) :
    List String → List String
  | [] => []
  | line :: lines =>
    let (result, l) := l.packLine t line stack
    describeLine number line :: result.tokens.map (describePacked l.theme.colors)
      ++ printPacked l t result.stack (number + 1) lines

/-! ## The command -/

/-- Tokenizes the file of a request. -/
def tokenizeFile (files : Files) (r : Request) : Outcome :=
  let outcome? : Option Outcome := do
    let m ← manifestAt? files r.manifest
    let p ← (LanguageProvider.new m).toOption
    let (info, p) := p.info (resourceFiles m files) r.language
    let info ← info.toOption
    let t ← info.tokenizer
    let text ← textAt? files r.file
    let lines :=
      if r.encoded then printPacked p.workshop.library t.value .initial 1 (textLines text)
      else printScopes t.value.grammar.value .initial 1 (textLines text)
    return ⟨0, String.join (lines.map (· ++ "\n"))⟩
  outcome?.getD failed

/-- Runs the command on files with arguments. -/
def run (files : Files) (args : List String) : Outcome :=
  match parse args with
  | .run r => tokenizeFile files r
  | .help => ⟨0, helpText⟩
  | .misuse => ⟨2, ""⟩

/-- The places that are read before the manifest is known. -/
def firstPlaces (args : List String) : List String :=
  match parse args with
  | .run r => [r.manifest, r.file]
  | _ => []

/-- The places that the manifest adds to them. -/
def furtherPlaces (files : Files) (args : List String) : List String :=
  match parse args with
  | .run r => ((manifestAt? files r.manifest).map resources).getD []
  | _ => []

end Highlight.Command
