import Highlight.Data.Value
import Highlight.Data.Yaml.Token

/-!
# Documents of YAML

A text with exactly one document as a value. An alias stands for the value that its anchor was last
set on; inside that value it stands for nothing that can be read.
-/

namespace Highlight.Yaml

/-- The values of anchors: each name gets a number when it is set, each number a value when that
is complete. -/
structure Anchored where
  names : List (String × Nat)
  values : List (Nat × Value)

namespace Anchored

/-- No anchors. -/
def empty : Anchored := ⟨[], []⟩

/-- Sets an anchor on a value to come, and its number. -/
def start (a : Anchored) (name : Option String) : Anchored × Option Nat :=
  match name with
  | some n => ({ a with names := (n, a.names.length) :: a.names }, some a.names.length)
  | none => (a, none)

/-- Completes the value with a number. -/
def close (a : Anchored) (number : Option Nat) (v : Value) : Anchored :=
  match number with
  | some n => { a with values := (n, v) :: a.values }
  | none => a

/-- The value of an alias. -/
def value? (a : Anchored) (name : String) : Option Value :=
  (a.names.lookup name).map fun n => (a.values.lookup n).getD .foreign

end Anchored

/-- The expansions of tag handles. -/
abbrev TagHandles := List (String × String)

/-- The expansions that need no directive. -/
def defaultHandles : TagHandles := [("!", "!"), ("!!", "tag:yaml.org,2002:")]

/-- The tags of scalars that are read like scalars without quotes. -/
def isResolvingTag (tag : String) : Bool :=
  ["bool", "int", "float", "null"].any fun t => tag == "tag:yaml.org,2002:" ++ t

/-- The value of a scalar with an optional tag. -/
def scalarValue (tag : Option String) (text : String) (isPlain : Bool) : Value :=
  match tag with
  | some t => if isResolvingTag t then .plain text else .text text
  | none => if isPlain then .plain text else .text text

/-- What an omitted scalar stands for. -/
def omitted : Value := .plain ""

/-- What comes before a value: its anchor and tag, in either order. -/
structure Properties where
  anchor : Option String
  tag : Option (String × String)

/-- The properties of a value and the tokens after them. -/
def properties : List Token → Properties × List Token
  | .anchor n :: .tag h s :: ts => (⟨some n, some (h, s)⟩, ts)
  | .tag h s :: .anchor n :: ts => (⟨some n, some (h, s)⟩, ts)
  | .anchor n :: ts => (⟨some n, none⟩, ts)
  | .tag h s :: ts => (⟨none, some (h, s)⟩, ts)
  | ts => (⟨none, none⟩, ts)

/-- The tag with its handle expanded; nothing where the handle is unknown. -/
def expandTag (handles : TagHandles) : Option (String × String) → Option (Option String)
  | none => some none
  | some (h, s) => if h == "" then some (some s) else (handles.lookup h).map fun x => some (x ++ s)

/-- A result with the anchors and the tokens left after it. -/
abbrev After (α : Type) := α × Anchored × List Token

/-- Where a value may be omitted: the tokens that follow instead of it. -/
abbrev Followers := Token → Bool

/-- Followers of an entry of a block list. -/
def afterEntry : Followers := fun t => t == .entry || t == .blockEnd

/-- Followers of a key or value of a block collection. -/
def afterBlockPart : Followers := fun t => t == .key || t == .value || t == .blockEnd

/-- Followers of an entry of a list that shares the indentation of its key. -/
def afterSharedEntry : Followers := fun t => t == .entry || afterBlockPart t

/-- Followers of a key of a flow collection with its closing token. -/
def afterFlowKey (close : Token) : Followers := fun t => t == .value || t == .comma || t == close

/-- Followers of a value of a flow collection with its closing token. -/
def afterFlowValue (close : Token) : Followers := fun t => t == .comma || t == close

/-- The tokens after the comma that separates an entry from the one before it. -/
def afterComma (first : Bool) : List Token → Option (List Token)
  | .comma :: ts => if first then some (.comma :: ts) else some ts
  | ts => if first then some ts else none

mutual

/-- A value. Block collections are allowed in a block, and lists that share the indentation of their
key where `shared`. -/
def node (handles : TagHandles) :
    Nat → (block shared : Bool) → Anchored → List Token → Option (After Value)
  | 0, _, _, _, _ => none
  | fuel + 1, block, shared, a, ts =>
    match ts with
    | .alias n :: ts => (a.value? n).map fun v => (v, a, ts)
    | ts => do
      let (p, ts) := properties ts
      let tag ← expandTag handles p.tag
      let (a, number) := a.start p.anchor
      let (v, a, ts) ← content handles fuel block shared p tag a ts
      return (v, a.close number v, ts)

/-- What follows the properties of a value. -/
def content (handles : TagHandles) :
    Nat → (block shared : Bool) → Properties → Option String → Anchored → List Token →
      Option (After Value)
  | 0, _, _, _, _, _, _ => none
  | fuel + 1, block, shared, p, tag, a, ts =>
    match ts with
    | .scalar s isPlain :: ts => some (scalarValue tag s isPlain, a, ts)
    | .openList :: ts => (flowEntries handles fuel true a ts).map fun (vs, r) => (.list vs, r)
    | .openDict :: ts => (flowPairs handles fuel true a ts).map fun (es, r) => (.dict es, r)
    | t :: rest =>
      if shared && t == .entry then
        (sharedEntries handles fuel a ts).map fun (vs, r) => (.list vs, r)
      else if block && t == .blockList then
        (blockEntries handles fuel a rest).map fun (vs, r) => (.list vs, r)
      else if block && t == .blockDict then
        (blockPairs handles fuel a rest).map fun (es, r) => (.dict es, r)
      else if p.anchor.isSome || p.tag.isSome then some (scalarValue tag "" tag.isNone, a, ts)
      else none
    | [] => if p.anchor.isSome || p.tag.isSome then some (omitted, a, []) else none

/-- A value, or its omission where one of the followers comes. -/
def nodeUnless (handles : TagHandles) :
    Nat → Followers → (block shared : Bool) → Anchored → List Token → Option (After Value)
  | 0, _, _, _, _, _ => none
  | fuel + 1, followers, block, shared, a, ts =>
    match ts with
    | t :: _ => if followers t then some (omitted, a, ts) else node handles fuel block shared a ts
    | [] => none

/-- The entries of a block list. -/
def blockEntries (handles : TagHandles) : Nat → Anchored → List Token → Option (After (List Value))
  | 0, _, _ => none
  | fuel + 1, a, ts =>
    match ts with
    | .entry :: ts => do
      let (v, a, ts) ← nodeUnless handles fuel afterEntry true false a ts
      let (vs, r) ← blockEntries handles fuel a ts
      return (v :: vs, r)
    | .blockEnd :: ts => some ([], a, ts)
    | _ => none

/-- The entries of a list that shares the indentation of its key. -/
def sharedEntries (handles : TagHandles) : Nat → Anchored → List Token → Option (After (List Value))
  | 0, _, _ => none
  | fuel + 1, a, ts =>
    match ts with
    | .entry :: ts => do
      let (v, a, ts) ← nodeUnless handles fuel afterSharedEntry true false a ts
      let (vs, r) ← sharedEntries handles fuel a ts
      return (v :: vs, r)
    | ts => some ([], a, ts)

/-- The pairs of a block dictionary. -/
def blockPairs (handles : TagHandles) :
    Nat → Anchored → List Token → Option (After (List (Value × Value)))
  | 0, _, _ => none
  | fuel + 1, a, ts =>
    match ts with
    | .key :: ts => do
      let (k, a, ts) ← nodeUnless handles fuel afterBlockPart true true a ts
      let (v, a, ts) ← blockValue handles fuel a ts
      let (es, r) ← blockPairs handles fuel a ts
      return ((k, v) :: es, r)
    | .blockEnd :: ts => some ([], a, ts)
    | _ => none

/-- The value of a pair of a block dictionary. -/
def blockValue (handles : TagHandles) : Nat → Anchored → List Token → Option (After Value)
  | 0, _, _ => none
  | fuel + 1, a, ts =>
    match ts with
    | .value :: ts => nodeUnless handles fuel afterBlockPart true true a ts
    | ts => some (omitted, a, ts)

/-- The entries of a flow list; a pair with a key mark makes a dictionary of its own. -/
def flowEntries (handles : TagHandles) :
    Nat → (first : Bool) → Anchored → List Token → Option (After (List Value))
  | 0, _, _, _ => none
  | fuel + 1, first, a, ts =>
    match ts with
    | .closeList :: ts => some ([], a, ts)
    | ts => do
      let ts ← afterComma first ts
      match ts with
      | .key :: ts =>
        let (k, a, ts) ← flowListKey handles fuel a ts
        let (v, a, ts) ← flowValue handles fuel .closeList a ts
        let (vs, r) ← flowEntries handles fuel false a ts
        return (.dict [(k, v)] :: vs, r)
      | .closeList :: ts => return ([], a, ts)
      | ts =>
        let (v, a, ts) ← node handles fuel false false a ts
        let (vs, r) ← flowEntries handles fuel false a ts
        return (v :: vs, r)

/-- The key of a pair in a flow list. Where it is omitted, the token after it is passed over. -/
def flowListKey (handles : TagHandles) : Nat → Anchored → List Token → Option (After Value)
  | 0, _, _ => none
  | fuel + 1, a, ts =>
    match ts with
    | t :: rest =>
      if afterFlowKey .closeList t then some (omitted, a, rest)
      else node handles fuel false false a ts
    | [] => none

/-- The value of a pair of a flow collection. -/
def flowValue (handles : TagHandles) : Nat → Token → Anchored → List Token → Option (After Value)
  | 0, _, _, _ => none
  | fuel + 1, close, a, ts =>
    match ts with
    | .value :: ts => nodeUnless handles fuel (afterFlowValue close) false false a ts
    | ts => some (omitted, a, ts)

/-- The pairs of a flow dictionary; a value without a key mark is a key whose value is omitted. -/
def flowPairs (handles : TagHandles) :
    Nat → (first : Bool) → Anchored → List Token → Option (After (List (Value × Value)))
  | 0, _, _, _ => none
  | fuel + 1, first, a, ts =>
    match ts with
    | .closeDict :: ts => some ([], a, ts)
    | ts => do
      let ts ← afterComma first ts
      match ts with
      | .key :: ts =>
        let (k, a, ts) ← nodeUnless handles fuel (afterFlowKey .closeDict) false false a ts
        let (v, a, ts) ← flowValue handles fuel .closeDict a ts
        let (es, r) ← flowPairs handles fuel false a ts
        return ((k, v) :: es, r)
      | .closeDict :: ts => return ([], a, ts)
      | ts =>
        let (k, a, ts) ← node handles fuel false false a ts
        let (es, r) ← flowPairs handles fuel false a ts
        return ((k, omitted) :: es, r)

end

/-- The tokens after the directives, with the tag handles: one version, which must be known, and
each handle once. -/
def directives (version : Bool) (handles : TagHandles) :
    List Token → Option (TagHandles × List Token)
  | .version major minor :: ts =>
    if version || major != 1 || !(minor == 1 || minor == 2) then none
    else directives true handles ts
  | .tagShorthand h x :: ts =>
    if (handles.lookup h).isSome then none else directives version ((h, x) :: handles) ts
  | ts => some (handles, ts)

/-- The tokens that no document content starts with. -/
def endsDocument : List Token → Bool
  | .version _ _ :: _ => true
  | .tagShorthand _ _ :: _ => true
  | .documentStart :: _ => true
  | .documentEnd :: _ => true
  | [] => true
  | _ => false

/-- The content of a document, which must be all there is. -/
def documentOf (handles : TagHandles) (ts : List Token) : Option Value := do
  let (v, _, rest) ←
    if endsDocument ts then some (omitted, Anchored.empty, ts)
    else node handles (4 * ts.length + 4) true false .empty ts
  if rest.all (· == .documentEnd) then some v else none

/-- The value of a list of tokens. -/
def ofTokens? (ts : List Token) : Option Value :=
  match ts with
  | [] => some omitted
  | .documentEnd :: _ => none
  | .version _ _ :: _ | .tagShorthand _ _ :: _ | .documentStart :: _ => do
    let (handles, ts) ← directives false [] ts
    match ts with
    | .documentStart :: ts =>
      documentOf (handles ++ defaultHandles.filter fun (h, _) => (handles.lookup h).isNone) ts
    | _ => none
  | ts => documentOf defaultHandles ts

/-- Reads a text. A byte order mark may come first. -/
def parse? (text : String) : Option Value :=
  let cs := text.toList
  (tokens? (if cs.head? == some '\ufeff' then cs.tail else cs)).bind ofTokens?

end Highlight.Yaml
