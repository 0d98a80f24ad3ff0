import Highlight.Text.Property

/-!
# Markup

The tags and texts of an XML document, as far as property lists need them: attributes, comments,
declarations and processing instructions are skipped, and an element without content counts as a
start tag with its end tag.
-/

namespace Highlight

/-- A piece of a document. -/
inductive Markup where
  | openTag (name : String)
  | closeTag (name : String)
  | content (s : List Char)
  /-- Text that is marked not to be read as markup. -/
  | literal
  deriving Repr, DecidableEq

namespace Markup

/-- What follows the first place where the marker stands. -/
def after? (marker : List Char) : List Char → Option (List Char)
  | [] => if marker.isEmpty then some [] else none
  | c :: cs =>
    if marker.isPrefixOf (c :: cs) then some ((c :: cs).drop marker.length)
    else after? marker cs

/-- What follows the end of a document type, where brackets nest to the given depth. -/
def afterType? : Nat → List Char → Option (List Char)
  | _, [] => none
  | depth, c :: cs =>
    if c == '<' then afterType? (depth + 1) cs
    else if c == '>' then
      match depth with
      | 0 => some cs
      | depth + 1 => afterType? depth cs
    else afterType? depth cs

/-- The text of a tag up to its end, which quotes hide, and what follows it. -/
def tagText? (quote : Option Char) : List Char → Option (List Char × List Char)
  | [] => none
  | c :: cs =>
    match quote with
    | some q =>
      (tagText? (if c == q then none else quote) cs).map fun (t, rest) => (c :: t, rest)
    | none =>
      if c == '>' then some ([], cs)
      else
        let quote := if c == '"' || c == '\'' then some c else none
        (tagText? quote cs).map fun (t, rest) => (c :: t, rest)

/-- The name at the start of a tag, without the name space in front of it. -/
def localName (cs : List Char) : String :=
  let name := cs.takeWhile fun c => !(c == ' ' || c == '\t' || c == '\n' || c == '\r')
  match name.dropWhile (· != ':') with
  | ':' :: rest => String.ofList rest
  | _ => String.ofList name

/-- The character that an entity stands for. -/
def entity? (name : List Char) : Option Char :=
  match String.ofList name with
  | "lt" => some '<'
  | "gt" => some '>'
  | "amp" => some '&'
  | "apos" => some '\''
  | "quot" => some '"'
  | _ =>
    let code :=
      match name with
      | '#' :: 'x' :: ds => Numeral.value? 16 ds
      | '#' :: ds => Numeral.value? 10 ds
      | _ => none
    (code.filter (0 < ·)).bind Numeral.character?

/-- The text with its entities replaced. The `fuel` is at least the number of characters. -/
def unescape? : Nat → List Char → Option (List Char)
  | 0, cs => if cs.isEmpty then some [] else none
  | _ + 1, [] => some []
  | fuel + 1, c :: cs =>
    if c == '&' then
      match cs.dropWhile (· != ';') with
      | _ :: rest => do return (← entity? (cs.takeWhile (· != ';'))) :: (← unescape? fuel rest)
      | [] => none
    else (unescape? fuel cs).map (c :: ·)

/-- The pieces of a document, where `opened` holds the names of the elements around them, the inner
ones first. Nothing where a piece is malformed, after the pieces before it. The `fuel` bounds the
pieces. -/
def pieces : Nat → List String → List Char → List (Option Markup)
  | 0, _, _ => []
  | _ + 1, _, [] => []
  | fuel + 1, opened, '<' :: cs =>
    match cs with
    | '!' :: '-' :: '-' :: cs =>
      match after? ['-', '-', '>'] cs with
      | some rest => pieces fuel opened rest
      | none => [none]
    | '!' :: '[' :: 'C' :: 'D' :: 'A' :: 'T' :: 'A' :: '[' :: cs =>
      match after? [']', ']', '>'] cs with
      | some rest => some .literal :: pieces fuel opened rest
      | none => [none]
    | '!' :: cs =>
      match afterType? 0 cs with
      | some rest => pieces fuel opened rest
      | none => [none]
    | '?' :: cs =>
      match after? ['?', '>'] cs with
      | some rest => pieces fuel opened rest
      | none => [none]
    | '/' :: cs =>
      match tagText? none cs with
      | none => [none]
      | some (text, rest) =>
        let name := localName text
        match opened with
        | o :: opened =>
          if o == name then some (.closeTag name) :: pieces fuel opened rest else [none]
        | [] => [none]
    | cs =>
      match tagText? none cs with
      | none => [none]
      | some (text, rest) =>
        if text.getLast? == some '/' then
          let name := localName text.dropLast
          some (.openTag name) :: some (.closeTag name) :: pieces fuel opened rest
        else
          let name := localName text
          some (.openTag name) :: pieces fuel (name :: opened) rest
  | fuel + 1, opened, cs =>
    let text := cs.takeWhile (· != '<')
    (unescape? text.length text).map .content :: pieces fuel opened (cs.dropWhile (· != '<'))

end Markup

end Highlight
