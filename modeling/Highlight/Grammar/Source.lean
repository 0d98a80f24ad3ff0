import Highlight.Data.Json
import Highlight.Data.PropertyList
import Highlight.Data.Yaml.Document
import Highlight.Grammar.Error
import Highlight.Grammar.Raw

/-!
# Sources of grammars

A grammar's text in one of three formats. All formats have the same model; they differ in syntax, in
how deep values may nest and in whether a record may be written as a list.
-/

namespace Highlight

/-- The formats of grammars. -/
inductive GrammarFormat where
  | json
  | propertyList
  | yaml
  deriving Repr, DecidableEq, Inhabited

namespace GrammarFormat

/-- The components of a path, without empty ones and those that stand for the place itself. -/
def components (path : String) : List String :=
  let parts := Blank.split '/' path
  match parts with
  | [] => []
  | first :: rest =>
    (if first == "" then [] else [first]) ++ rest.filter fun p => p != "" && p != "."

/-- The name of the file that a path leads to. -/
def fileName? (path : String) : Option String :=
  (components path).getLast?.bind fun n => if n == ".." || n == "." then none else some n

/-- What follows the last dot of a file name, unless nothing comes before that dot. -/
def extension? (path : String) : Option String :=
  (fileName? path).bind fun n =>
    let after := n.toList.reverse.takeWhile (· != '.')
    let before := n.toList.reverse.drop (after.length + 1)
    if before.isEmpty then none else some (String.ofList after.reverse)

/-- The format that the extension of a path names, without regard to the case of ASCII letters.
Anything else is a property list. -/
def ofPath (path : String) : GrammarFormat :=
  match (extension? path).map String.toLower with
  | some "json" => json
  | some "yaml" => yaml
  | some "yml" => yaml
  | _ => propertyList

/-- The names of the formats. -/
def name : GrammarFormat → String
  | json => "json"
  | propertyList => "plist"
  | yaml => "yaml"

/-- The format of a name. -/
def ofName? : String → Option GrammarFormat
  | "json" => some json
  | "plist" => some propertyList
  | "yaml" => some yaml
  | _ => none

/-- The syntax of a format. -/
def value? (format : GrammarFormat) (content : String) : Option Value :=
  match format with
  | json => Json.parse? content
  | propertyList => PropertyList.parse? content
  | yaml => Yaml.parse? content

/-- What a format allows when the value is read. Property lists nest without limit. -/
def rules (format : GrammarFormat) (v : Value) : FormatRules :=
  match format with
  | json => ⟨127, true⟩
  | propertyList => ⟨v.depth + 1, false⟩
  | yaml => ⟨128, false⟩

end GrammarFormat

/-- A grammar's text and its format. -/
structure GrammarSource where
  content : String
  format : GrammarFormat
  deriving Repr, DecidableEq

namespace GrammarSource

/-- Reads the grammar; `origin` names where the text came from. -/
def parse (s : GrammarSource) (origin : String) : Except GrammarError RawGrammar :=
  match (s.format.value? s.content).bind fun v => RawGrammar.read? (s.format.rules v) v with
  | some g => .ok g
  | none => .error (.malformed origin)

end GrammarSource

end Highlight
