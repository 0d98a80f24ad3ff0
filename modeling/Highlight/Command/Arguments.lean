/-!
# Arguments of the command line

Options have a long name, a short one or both; a value follows its option or is attached to it.
Options are given once, and everything after `--` is a file.
-/

namespace Highlight.Command

/-- What the command line asks for. -/
structure Request where
  manifest : String
  language : String
  /-- Packed metadata is printed in place of scopes. -/
  encoded : Bool
  verbose : Bool
  file : String
  deriving Repr, DecidableEq

/-- Arguments read so far. -/
structure Given where
  manifest : Option String
  language : Option String
  encoded : Bool
  verbose : Bool
  file : Option String

namespace Given

/-- No arguments. -/
def empty : Given := ⟨none, none, false, false, none⟩

/-- The request that the arguments make, if nothing is missing. -/
def request? (g : Given) : Option Request := do
  let manifest ← g.manifest
  let language ← g.language
  let file ← g.file
  return ⟨manifest, language, g.encoded, g.verbose, file⟩

end Given

/-- What arguments come to. -/
inductive Parsed where
  | run (r : Request)
  | help
  /-- The arguments are not understood. -/
  | misuse
  deriving Repr, DecidableEq

/-- The options. -/
inductive OptionName where
  | manifest
  | language
  | encoded
  | verbose
  | help
  deriving Repr, DecidableEq

namespace OptionName

/-- The option of a long name. -/
def ofLong? : String → Option OptionName
  | "manifest" => some manifest
  | "language" => some language
  | "encoded" => some encoded
  | "verbose" => some verbose
  | "help" => some help
  | _ => none

/-- The option of a letter. -/
def ofShort? : Char → Option OptionName
  | 'm' => some manifest
  | 'l' => some language
  | 'e' => some encoded
  | 'v' => some verbose
  | 'h' => some help
  | _ => none

/-- Whether the option has a value. -/
def hasValue : OptionName → Bool
  | manifest => true
  | language => true
  | _ => false

end OptionName

namespace Given

/-- The arguments with the value of an option, which is given once. Paths are not empty. -/
def setValue? (g : Given) (o : OptionName) (v : String) : Option Given :=
  match o with
  | .manifest =>
    if g.manifest.isSome || v == "" then none else some { g with manifest := some v }
  | .language => if g.language.isSome then none else some { g with language := some v }
  | _ => none

/-- The arguments with an option that has no value, which is given once. -/
def setFlag? (g : Given) (o : OptionName) : Option Given :=
  match o with
  | .encoded => if g.encoded then none else some { g with encoded := true }
  | .verbose => if g.verbose then none else some { g with verbose := true }
  | _ => none

/-- The arguments with the file, which is given once. -/
def setFile? (g : Given) (v : String) : Option Given :=
  if g.file.isSome || v == "" then none else some { g with file := some v }

end Given

/-- Whether an argument is taken for an option: it starts with a hyphen and goes on. -/
def isOption (arg : String) : Bool := arg.startsWith "-" && arg != "-"

/-- What the letters of an argument do: arguments with all of them, or an option that waits for its
value. -/
inductive Letters where
  | given (g : Given)
  | waiting (g : Given) (o : OptionName)
  | help
  | misuse

/-- Reads letters after a hyphen. The letters after an option with a value are that value. -/
def letters (g : Given) : List Char → Letters
  | [] => .given g
  | c :: cs =>
    match OptionName.ofShort? c with
    | none => .misuse
    | some .help => .help
    | some o =>
      if o.hasValue then
        match cs with
        | [] => .waiting g o
        | '=' :: v =>
          match g.setValue? o (String.ofList v) with
          | some g => .given g
          | none => .misuse
        | v =>
          match g.setValue? o (String.ofList v) with
          | some g => .given g
          | none => .misuse
      else
        match g.setFlag? o with
        | some g => letters g cs
        | none => .misuse

/-- Reads a long option without its hyphens. -/
def long (g : Given) (cs : List Char) : Letters :=
  let name := String.ofList (cs.takeWhile (· != '='))
  let value := match cs.dropWhile (· != '=') with
    | [] => none
    | _ :: v => some (String.ofList v)
  match OptionName.ofLong? name, value with
  | none, _ => .misuse
  | some .help, none => .help
  | some o, none =>
    if o.hasValue then .waiting g o
    else
      match g.setFlag? o with
      | some g => .given g
      | none => .misuse
  | some o, some v =>
    if o.hasValue then
      match g.setValue? o v with
      | some g => .given g
      | none => .misuse
    else .misuse

/-- Reads one argument. -/
def argument (g : Given) (arg : String) : Letters :=
  match arg.toList with
  | '-' :: '-' :: cs => long g cs
  | '-' :: c :: cs => letters g (c :: cs)
  | _ =>
    match g.setFile? arg with
    | some g => .given g
    | none => .misuse

/-- Reads the arguments after `--`. -/
def filesOnly (g : Given) : List String → Option Given
  | [] => some g
  | arg :: args => (g.setFile? arg).bind fun g => filesOnly g args

/-- What the arguments come to in the end. -/
def conclude (g : Option Given) : Parsed :=
  match g.bind Given.request? with
  | some r => .run r
  | none => .misuse

/-- Reads arguments. -/
def parseFrom (g : Given) : List String → Parsed
  | [] => conclude (some g)
  | arg :: args =>
    if arg == "--" then conclude (filesOnly g args)
    else
      match argument g arg with
      | .misuse => .misuse
      | .help => .help
      | .given g => parseFrom g args
      | .waiting g o =>
        match args with
        | [] => .misuse
        | v :: args =>
          if isOption v then .misuse
          else
            match g.setValue? o v with
            | some g => parseFrom g args
            | none => .misuse

/-- Reads the arguments of the command line. -/
def parse (args : List String) : Parsed := parseFrom .empty args

/-- What the command line says about itself. -/
def helpText : String := "\n".intercalate [
  "Tokenize a file with TextMate grammars and print the tokens",
  "",
  "Usage: textmate-tokenize [OPTIONS] --manifest <PATH> --language <LANGUAGE> <FILE>",
  "",
  "Arguments:",
  "  <FILE>  File to tokenize",
  "",
  "Options:",
  "  -m, --manifest <PATH>      Language manifest (JSON)",
  "  -l, --language <LANGUAGE>  Language id to tokenize as",
  "  -e, --encoded              Print encoded token metadata instead of scope paths",
  "  -v, --verbose              Verbose logging",
  "  -h, --help                 Print help",
  ""]

end Highlight.Command
