import Highlight.Regex.GrammarLexer
import Highlight.Regex.Match

/-!
# Grammar patterns

The dialect that the patterns of grammars are written in. Every parenthesis that is not marked
otherwise opens a numbered group, names or not; an option without a body holds to the end of the
group around it, alternatives included. `Regex.ofGrammarPattern` reads a pattern.
-/

namespace Highlight.GrammarPattern

/-! ## Bracketed classes -/

/-- What the last items of a class were: whether a character or a range waits for its end. -/
inductive ClassState where
  | start
  | character (c : Char)
  | afterSet
  | rangeFrom (c : Char)
  | complete

/-- The items read so far, and the set they are to be intersected with. -/
structure ClassItems where
  set : CharSet
  others : Option CharSet

namespace ClassItems

/-- The items with one set more. -/
def insert (items : ClassItems) (s : CharSet) : ClassItems :=
  { items with set := .union items.set s }

/-- The items with the character that waits. -/
def settle (items : ClassItems) : ClassState → ClassItems
  | .character c => items.insert (.single c)
  | _ => items

/-- The set of the whole class. -/
def toSet (items : ClassItems) : CharSet :=
  match items.others with
  | some s => .inter s items.set
  | none => items.set

/-- The items before a `&&`, kept for the intersection. -/
def close (items : ClassItems) : ClassItems := ⟨.nothing, some items.toSet⟩

end ClassItems

/-- The state and items after a character. -/
def classChar (state : ClassState) (items : ClassItems) (c : Char) :
    Except RegexError (ClassState × ClassItems) :=
  match state with
  | .rangeFrom a =>
    if c < a then .error .invalidRange else .ok (.complete, items.insert (.range a c))
  | state => .ok (.character c, items.settle state)

/-- Whether a bracket that is not escaped closes something further on. -/
def hasClose : List Char → Bool
  | [] => false
  | '\\' :: _ :: cs => hasClose cs
  | c :: cs => c == ']' || hasClose cs

/-- How a class starts after its opening bracket: whether it is negated, and a closing bracket that
stands for itself because another one follows. -/
def classStart (cs : List Char) : Except RegexError (Bool × ClassState × List Char) :=
  let (negated, cs) :=
    match cs with
    | '^' :: cs => (true, cs)
    | cs => (false, cs)
  match cs with
  | ']' :: rest =>
    if hasClose rest then .ok (negated, .character ']', rest) else .error .emptyClass
  | cs => .ok (negated, .start, cs)

/-- Whether a dash before the rest of a class stands for itself. -/
def dashIsLiteral (cs : List Char) : Except RegexError Bool := do
  match ← lexInClass cs with
  | (.close, _) => return true
  | (.conjunction, _) => return true
  | _ => return false

/-- Reads the rest of a class to its closing bracket. The `fuel` bounds the tokens. -/
def classBody (fuel : Nat) (state : ClassState) (items : ClassItems) (cs : List Char) :
    Except RegexError (CharSet × List Char) :=
  match fuel with
  | 0 => .error .unclosedClass
  | fuel + 1 => do
    match ← lexInClass cs with
    | (.close, rest) => return ((items.settle state).toSet, rest)
    | (.char c, rest) =>
      let (state, items) ← classChar state items c
      classBody fuel state items rest
    | (.set s, rest) =>
      match state with
      | .rangeFrom _ => throw .invalidRange
      | state => classBody fuel .afterSet ((items.settle state).insert s) rest
    | (.conjunction, rest) => classBody fuel .start (items.settle state).close rest
    | (.openClass, rest) =>
      let (negated, inner, rest) ← classStart rest
      let (s, rest) ← classBody fuel inner ⟨.nothing, none⟩ rest
      classBody fuel .complete ((items.settle state).insert (CharSet.complIf negated s)) rest
    | (.dash, rest) =>
      match state with
      | .character c =>
        if ← dashIsLiteral rest then classBody fuel (.character '-') (items.settle state) rest
        else classBody fuel (.rangeFrom c) items rest
      | .afterSet =>
        if ← dashIsLiteral rest then classBody fuel (.character '-') items rest
        else throw .invalidRange
      | state =>
        let (state, items) ← classChar state items '-'
        classBody fuel state items rest

/-- Reads a class after its opening bracket. -/
def charClass (ignoreCase : Bool) (cs : List Char) : Except RegexError (CharSet × List Char) := do
  let (negated, state, rest) ← classStart cs
  let (s, rest) ← classBody rest.length state ⟨.nothing, none⟩ rest
  return (CharSet.complIf negated (if ignoreCase then .anyCase s else s), rest)

/-! ## Whole patterns -/

/-- What reading has found so far. -/
structure Reader where
  rest : List Char
  options : Options
  /-- How many groups have been opened. -/
  count : Nat
  /-- The names of groups and their numbers, the latest first. -/
  names : List (String × Nat)
  /-- The groups that have been closed. -/
  groups : List (Nat × Node)
  /-- The names of the whole pattern, once they are known. -/
  known : Option (List (String × Nat))

/-- A reading step. -/
abbrev Read := StateT Reader (Except RegexError)

/-- The numbers of the groups of a name, the latest first. -/
def numbersOf (names : List (String × Nat)) (name : String) : List Nat :=
  names.filterMap fun (n, i) => if n == name then some i else none

/-- The next token, which is left to be read. -/
def peek : Read (Token × List Char) := fun r => do
  let t ← lex r.options r.count r.rest
  return (t, r)

/-- Continues with the given rest of the pattern. -/
def advance (rest : List Char) : Read Unit := modify fun r => { r with rest := rest }

/-- A character, in either case where case does not matter. -/
def oneChar (o : Options) (c : Char) : Node :=
  if o.ignoreCase && 1 < (Case.variants c).length then .set (.anyCase (.single c)) else .char c

/-- The end of a line, `\r\n` as one. -/
def newline : Node :=
  .atomic (.alt (.seq (.char '\r') (.char '\n'))
    (.set (.union (.range '\n' '\r') (.ofList ['\u0085', '\u2028', '\u2029']))))

/-- Whether a quantifier may follow: tests of positions cannot be repeated. -/
def isRepeatable : Node → Bool
  | .assertion _ => false
  | .lookAhead _ _ => false
  | .lookBehind _ _ _ _ => false
  | .keep => false
  | .alt a b => isRepeatable a && isRepeatable b
  | _ => true

/-- The repetition that a quantifier asks for. -/
def repeated (q : Quantifier) (n : Node) : Node :=
  let n := .repetition n q.low q.high q.greedy
  if q.possessive then .atomic n else n

/-- Whether the node is a numbered group. -/
def isGroup : Node → Bool
  | .group _ _ => true
  | _ => false

/-- The number that a reference names, given the groups of its name. -/
def resolve (names : List (String × Nat)) : GroupRef → Except RegexError (List Nat)
  | .number n => .ok [n]
  | .name s =>
    match numbersOf names s with
    | [] => .error .unknownGroup
    | ns => .ok ns

/-- The number of the group that a call names. A call may come before the group, so names count as
the whole pattern until they are known. -/
def callee (known : Option (List (String × Nat))) : GroupRef → Except RegexError Nat
  | .number n => .ok n
  | .name s =>
    match known.map (numbersOf · s) with
    | none => .ok 0
    | some [n] => .ok n
    | some [] => .error .unknownGroup
    | some _ => .error .ambiguousGroup

/-- The options of a group, up to the colon or the closing parenthesis, which is given back. -/
def optionLetters (on : Bool) (o : Options) :
    List Char → Except RegexError (Options × Char × List Char)
  | [] => .error .unexpectedEnd
  | ')' :: cs => .ok (o, ')', cs)
  | ':' :: cs => .ok (o, ':', cs)
  | '-' :: cs => optionLetters false o cs
  | 'i' :: cs => optionLetters on { o with ignoreCase := on } cs
  | 'm' :: cs => optionLetters on { o with dotAll := on } cs
  | 'x' :: cs => optionLetters on { o with extended := on } cs
  | _ => .error .unknownOption

/-- The kinds of parentheses. -/
inductive Opening where
  | plain
  | named (name : String)
  | bare
  | atomic
  | ahead (negated : Bool)
  | behind (negated : Bool)
  | options (o : Options) (wraps : Bool)
  | conditional (r : GroupRef)

/-- The kind of a parenthesis, where `cs` follows it. -/
def opening (o : Options) (count : Nat) (cs : List Char) :
    Except RegexError (Opening × List Char) := do
  match cs with
  | '?' :: cs =>
    match cs with
    | [] => throw .unexpectedEnd
    | ':' :: cs => return (.bare, cs)
    | '=' :: cs => return (.ahead false, cs)
    | '!' :: cs => return (.ahead true, cs)
    | '>' :: cs => return (.atomic, cs)
    | '<' :: '=' :: cs => return (.behind false, cs)
    | '<' :: '!' :: cs => return (.behind true, cs)
    | '<' :: cs => groupName '>' cs
    | '\'' :: cs => groupName '\'' cs
    | '(' :: cs => condition cs
    | cs =>
      let (o, final, cs) ← optionLetters true o cs
      return (.options o (final == ':'), cs)
  | '*' :: _ => throw .unsupported
  | cs => return (.plain, cs)
where
  /-- The name of a group and what follows its delimiter. -/
  groupName (close : Char) (cs : List Char) : Except RegexError (Opening × List Char) :=
    match upTo? close cs with
    | some (name, rest) =>
      if isGroupName name then .ok (.named (String.ofList name), rest)
      else .error .invalidGroupName
    | none => .error .invalidGroupName
  /-- The group that a conditional tests. -/
  condition (cs : List Char) : Except RegexError (Opening × List Char) := do
    match upTo? ')' cs with
    | some ('<' :: name, rest) => return (.conditional (← groupRef count name.dropLast), rest)
    | some (text, rest) =>
      match decimal? text with
      | some (n, []) => return (.conditional (.number n), rest)
      | _ => throw .unsupported
    | none => throw .unclosedGroup

/-- The node of a token that stands for itself. -/
def tokenNode (t : Token) : Read Node := do
  let r ← get
  match t with
  | .char c => return oneChar r.options c
  | .dot => return .set (if r.options.dotAll then .everything else .notNewline)
  | .set s => return .set s
  | .property s => return .set (if r.options.ignoreCase then .anyCase s else s)
  | .newline => return newline
  | .assertion a => return .assertion a
  | .keep => return .keep
  | .backReference g => return .backReference (← resolve r.names g) r.options.ignoreCase
  | .call g => return .call (← callee r.known g)
  | _ => return .empty

/-- A fresh group number. -/
def openGroup : Read Nat := modifyGet fun r => (r.count + 1, { r with count := r.count + 1 })

/-- Steps past the parenthesis that closes a group. -/
def closeGroup : Read Unit := do
  match ← peek with
  | (.closeGroup, rest) => advance rest
  | _ => throw .unclosedGroup

/-- Steps past what stands unread before the end of a group, or of the pattern. -/
def skipToEnd : Read Unit := do
  match ← peek with
  | (.closeGroup, rest) => advance (')' :: rest)
  | (.done, rest) => advance rest
  | _ => return

/-- Runs a step under other options. -/
def withOptions (o : Options) (step : Read Node) : Read Node := do
  let old := (← get).options
  modify fun r => { r with options := o }
  let n ← step
  modify fun r => { r with options := old }
  return n

/-- The node of a group, given how to read what is inside it. -/
def groupNode (kind : Opening) (inside : Read Node) : Read Node := do
  match kind with
  | .plain =>
    let i ← openGroup
    let body ← inside
    closeGroup
    let n := .group i body
    modify fun r => { r with groups := (i, n) :: r.groups }
    return n
  | .named name =>
    let i ← openGroup
    modify fun r => { r with names := (name, i) :: r.names }
    let body ← inside
    closeGroup
    let n := .group i body
    modify fun r => { r with groups := (i, n) :: r.groups }
    return n
  | .bare =>
    let body ← inside
    closeGroup
    return body
  | .atomic =>
    let body ← inside
    closeGroup
    return .atomic body
  | .ahead negated =>
    let body ← inside
    closeGroup
    return .lookAhead negated body
  | .behind negated =>
    let body ← inside
    closeGroup
    if negated && body.exists? isGroup then throw .invalidLookBehind
    return .lookBehind negated body.width.low body.width.high body
  | .options o wraps =>
    if wraps then
      withOptions o do
        let body ← inside
        closeGroup
        return body
    else
      withOptions o do
        let body ← inside
        skipToEnd
        return body
  | .conditional g =>
    let r ← get
    let indices ← resolve r.names g
    let body ← inside
    closeGroup
    match indices, body with
    | i :: _, .alt yes no => return .ifGroup i yes no
    | i :: _, yes => return .ifGroup i yes .empty
    | [], _ => throw .unknownGroup

mutual

/-- Reads alternatives up to a closing parenthesis or the end. -/
def alternatives : Nat → Read Node
  | 0 => throw .unexpectedEnd
  | fuel + 1 => do
    let n ← branch fuel
    match ← peek with
    | (.bar, rest) =>
      advance rest
      return .alt n (← alternatives fuel)
    | _ => return n

/-- Reads a sequence. -/
def branch : Nat → Read Node
  | 0 => throw .unexpectedEnd
  | fuel + 1 => do
    match ← peek with
    | (.done, _) => return .empty
    | (.bar, _) => return .empty
    | (.closeGroup, _) => return .empty
    | (t, rest) =>
      advance rest
      let n ← atom fuel t
      match ← branch fuel with
      | .empty => return n
      | more => return .seq n more

/-- Reads what a token starts, with the quantifiers after it. -/
def atom : Nat → Token → Read Node
  | 0, _ => throw .unexpectedEnd
  | fuel + 1, t => do
    match t with
    | .repetition _ => throw .nothingToRepeat
    | .openGroup =>
      let r ← get
      let (kind, rest) ← opening r.options r.count r.rest
      advance rest
      let n ← groupNode kind (alternatives fuel)
      match kind with
      | .options _ false => return n
      | _ => quantified fuel n
    | .openClass =>
      let r ← get
      let (s, rest) ← charClass r.options.ignoreCase r.rest
      advance rest
      quantified fuel (.set s)
    | t => quantified fuel (← tokenNode t)

/-- Reads the quantifiers that follow a node. -/
def quantified : Nat → Node → Read Node
  | 0, _ => throw .unexpectedEnd
  | fuel + 1, n => do
    match ← peek with
    | (.repetition q, rest) =>
      if isRepeatable n then
        advance rest
        quantified fuel (repeated q n)
      else throw .nothingToRepeat
    | _ => return n

end

/-- Reads a whole pattern under what is known of its names. -/
def readAll (known : Option (List (String × Nat))) (pattern : List Char) :
    Except RegexError (Node × Reader) := do
  let start : Reader := ⟨pattern, ⟨false, false, false⟩, 0, [], [], known⟩
  let (n, r) ← (alternatives (4 * pattern.length + 4)).run start
  match ← lex r.options r.count r.rest with
  | (.done, _) => return (n, r)
  | _ => throw .unmatchedClose

/-! ## Calls -/

/-- How a pattern comes back to a group: it can, it must, and it must before it consumes. -/
structure Recursion where
  possible : Bool
  certain : Bool
  immediate : Bool

namespace Recursion

/-- No way back. -/
def never : Recursion := ⟨false, false, false⟩

/-- Back to the group at once. -/
def back (head : Bool) : Recursion := ⟨true, true, head⟩

/-- Both in turn. -/
def both (a b : Recursion) : Recursion :=
  ⟨a.possible || b.possible, a.certain || b.certain, a.immediate || b.immediate⟩

/-- One or the other. -/
def either (a b : Recursion) : Recursion :=
  ⟨a.possible || b.possible, a.certain && b.certain, a.immediate || b.immediate⟩

end Recursion

/-- How a node comes back to group `goal`, where the groups in `entered` are being looked at and
`head` tells that nothing has been consumed. -/
def recursion (called : List Nat → Nat → Bool → Recursion) (goal : Nat) (entered : List Nat) :
    Node → Bool → Recursion
  | .seq a b, head =>
    let ra := recursion called goal entered a head
    if ra.immediate then ra
    else ra.both (recursion called goal entered b (head && a.width.low == 0))
  | .alt a b, head =>
    (recursion called goal entered a head).either (recursion called goal entered b head)
  | .repetition body low high _, head =>
    if high == some 0 then .never
    else
      let r := recursion called goal entered body head
      if low == 0 then { r with certain := false } else r
  | .group i body, head =>
    if entered.contains i then .never
    else if i == goal then .back head
    else recursion called goal (i :: entered) body head
  | .atomic body, head => recursion called goal entered body head
  | .lookAhead _ body, head => recursion called goal entered body head
  | .lookBehind _ _ _ body, head => recursion called goal entered body head
  | .ifGroup _ yes no, head =>
    (recursion called goal entered yes head).either (recursion called goal entered no head)
  | .call i, head =>
    if entered.contains i then .never
    else if i == goal then .back head
    else called (i :: entered) i head
  | _, _ => .never

/-- How a called group comes back to group `goal`. -/
def calledRecursion (bodies : Nat → Node) (goal : Nat) : Nat → List Nat → Nat → Bool → Recursion
  | 0, _, _, _ => .never
  | fuel + 1, entered, i, head =>
    recursion (calledRecursion bodies goal fuel) goal entered (bodies i) head

/-- Whether every match of a group would have to match the group again first. -/
def isEndless (bodies : Nat → Node) (count goal : Nat) : Bool :=
  let r := recursion (calledRecursion bodies goal (count + 1)) goal [] (bodies goal) true
  r.certain || r.immediate

/-- The body of a group node. -/
def bodyOf : Node → Node
  | .group _ body => body
  | n => n

/-- The groups that a node calls. -/
def calls : Node → List Nat
  | .call i => [i]
  | .seq a b => calls a ++ calls b
  | .alt a b => calls a ++ calls b
  | .repetition body _ _ _ => calls body
  | .group _ body => calls body
  | .atomic body => calls body
  | .lookAhead _ body => calls body
  | .lookBehind _ _ _ body => calls body
  | .ifGroup _ yes no => calls yes ++ calls no
  | _ => []

/-- Whether a node refers back to a group beyond the last one. -/
def refersBeyond (count : Nat) : Node → Bool
  | .backReference is _ => is.any (count < ·)
  | .ifGroup i _ _ => count < i
  | _ => false

end Highlight.GrammarPattern

namespace Highlight.Regex

open GrammarPattern in
/-- Reads a grammar pattern. Names are gathered first, so that calls may come before their group. -/
def ofGrammarPattern (pattern : String) : Except RegexError Regex := do
  let cs := pattern.toList
  let (_, first) ← readAll none cs
  let (body, r) ← readAll (some first.names) cs
  if body.exists? (refersBeyond r.count) then throw .unknownGroup
  let called := (calls body).eraseDups
  if called.any (r.count < ·) then throw .unknownGroup
  let node := fun i => if i = 0 then body else (r.groups.lookup i).getD .fail
  if called.any (isEndless (fun i => bodyOf (node i)) r.count) then throw .endlessCall
  return ⟨body, ((List.range (r.count + 1)).map node).toArray⟩

end Highlight.Regex
