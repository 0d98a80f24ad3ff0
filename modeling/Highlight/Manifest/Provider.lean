import Highlight.Configuration.Compile
import Highlight.Library.Tokenizer
import Highlight.Manifest.Basic

/-!
# Languages of a manifest

A `LanguageProvider` gives, for a language of a manifest, the tokenizer of its grammar and its
configuration. Languages are numbered from 1 in the order of the manifest. Files are fetched by
their place and the places asked for are noted.
-/

namespace Highlight

/-- What fetching a place gives. -/
inductive FileAnswer where
  | text (s : String)
  /-- Fetching failed, with the reason. -/
  | failure (reason : String)
  deriving Repr, DecidableEq

/-- The places that something is known of. -/
abbrev Files := List (String × FileAnswer)

/-- Why languages are not available. -/
inductive ManifestError where
  /-- The text is malformed. -/
  | malformed
  | theme (e : ThemeError)
  | grammar (e : GrammarError)
  /-- Fetching from a place failed, with the reason. -/
  | unfetchable (uri reason : String)
  /-- The configuration of a language is not accepted. -/
  | configuration (language : String) (e : ConfigurationError)
  /-- There are more languages than packed tokens have numbers for. -/
  | tooManyLanguages (count : Nat)
  deriving Repr, DecidableEq

namespace ManifestError

/-- The wording of an error; malformed texts and configurations are worded by their kind alone. -/
def message? : ManifestError → Option String
  | malformed => none
  | theme e => e.message?
  | grammar e => e.message?
  | unfetchable uri reason => some ("failed to fetch '" ++ uri ++ "': " ++ reason)
  | configuration _ _ => none
  | tooManyLanguages n =>
    some ("manifest declares " ++ toString n
      ++ " languages, encoded tokens support at most 255")

end ManifestError

namespace Manifest

/-- The answer of the loader for a grammar of the manifest. -/
def answer (m : Manifest) (files : Files) (g : ManifestGrammar) : SourceAnswer :=
  let uri := m.grammarUri g.path
  match files.lookup uri with
  | some (.text s) => .source ⟨s, GrammarFormat.ofPath g.path⟩
  | some (.failure reason) => .failure reason
  | none => .failure ("grammar file '" ++ uri ++ "' does not exist")

/-- The loader of the manifest's grammars. -/
def loader (m : Manifest) (files : Files) : Loader where
  sources := m.grammars.map fun (scope, g) => (scope, m.answer files g)
  injectors := m.grammars.map fun (scope, g) => (scope, g.injections)

end Manifest

/-- The languages of a manifest with what has been loaded for them. -/
structure LanguageProvider where
  manifest : Manifest
  workshop : Workshop
  /-- The languages in the order of their numbers. -/
  languages : List String
  /-- The places that have been asked for, the last one first. -/
  places : List String

/-- What is known of a language. -/
structure LanguageInfo where
  tokenizer : Option (Loaded Tokenizer)
  configuration : Option LanguageConfiguration

namespace LanguageProvider

/-- The greatest number of languages. -/
def maxLanguages : Nat := 255

/-- A provider for a manifest. -/
def new (m : Manifest) : Except ManifestError LanguageProvider :=
  match Theme.compile m.theme with
  | .error e => .error (.theme e)
  | .ok theme =>
    let languages := m.languages
    if maxLanguages < languages.length then .error (.tooManyLanguages languages.length)
    else .ok ⟨m, .empty theme, languages, []⟩

/-- The number of a language. -/
def languageId? (p : LanguageProvider) (language : String) : Option LanguageId :=
  (p.languages.findIdx? (· == language)).map fun i => UInt8.ofNat (i + 1)

/-- The number of a language, 0 for one that the manifest does not know. -/
def languageId (p : LanguageProvider) (language : String) : LanguageId :=
  (p.languageId? language).getD 0

/-- The place of a grammar of the manifest. -/
def grammarPlace? (p : LanguageProvider) (scope : ScopeName) : Option String :=
  (p.manifest.grammars.lookup scope).map fun g => p.manifest.grammarUri g.path

/-- The provider with the places of the grammars that another state of its library has requested
since, and that state. -/
def advance (p : LanguageProvider) (w : Workshop) : LanguageProvider :=
  let fresh := w.library.requests.take
    (w.library.requests.length - p.workshop.library.requests.length)
  { p with workshop := w, places := fresh.filterMap p.grammarPlace? ++ p.places }

/-- The tokenizer of a language that has a grammar. -/
def tokenizer (p : LanguageProvider) (files : Files) (language : String) :
    Except ManifestError (Option (Loaded Tokenizer)) × LanguageProvider :=
  match p.manifest.grammars.find? fun (_, g) => g.language == some language with
  | none => (.ok none, p)
  | some (scope, g) =>
    let embedded := g.embeddedLanguages.map fun (name, l) => (name, p.languageId l)
    let (r, w) :=
      p.workshop.tokenizer (p.manifest.loader files) scope (p.languageId language) embedded
    let p := p.advance w
    match r with
    | .ok t => (.ok (some t), p)
    | .error e => (.error (.grammar e), p)

/-- The configuration of a language that has one. A place where there is nothing gives none. -/
def configuration (p : LanguageProvider) (files : Files) (language : String) :
    Except ManifestError (Option LanguageConfiguration) × LanguageProvider :=
  if p.manifest.configurations.contains language then
    let uri := p.manifest.configurationUri language
    let p := { p with places := uri :: p.places }
    match files.lookup uri with
    | none => (.ok none, p)
    | some (.failure reason) => (.error (.unfetchable uri reason), p)
    | some (.text s) =>
      match LanguageConfiguration.parse s with
      | .ok c => (.ok (some c), p)
      | .error e => (.error (.configuration language e), p)
  else (.ok none, p)

/-- What is known of a language. Both parts are asked for, whatever becomes of the first. -/
def info (p : LanguageProvider) (files : Files) (language : String) :
    Except ManifestError LanguageInfo × LanguageProvider :=
  let (t, p) := p.tokenizer files language
  let (c, p) := p.configuration files language
  match t, c with
  | .error e, _ => (.error e, p)
  | .ok _, .error e => (.error e, p)
  | .ok t, .ok c => (.ok ⟨t, c⟩, p)

/-- The colors of the theme. -/
def colors (p : LanguageProvider) : ColorTable := p.workshop.library.theme.colors

end LanguageProvider

end Highlight
