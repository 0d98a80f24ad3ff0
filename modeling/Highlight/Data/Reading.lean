import Highlight.Data.Value
import Highlight.Text.Blank
import Highlight.Text.Numeral

/-!
# Typed reading of document values

How a document value is read as a text, a flag, a list, a map or a record. A map that repeats a key
keeps its first place and its last value; a record refuses a known key given twice and skips unknown
ones; an optional field that is null is absent. A reading fails without saying why.
-/

namespace Highlight

/-- What a format allows. -/
structure FormatRules where
  /-- How deep lists and dictionaries that are read may nest. -/
  levels : Nat
  /-- Records may be written as the list of their fields. -/
  recordsAsLists : Bool

/-- How a value is read. -/
abbrev Reading (α : Type) := Value → Option α

namespace Value

/-! ## Scalars -/

/-- Words for null without quotes. -/
def isNullWord (s : String) : Bool := ["", "~", "null", "Null", "NULL"].contains s

/-- Whether the value stands for nothing at all. -/
def isNull : Value → Bool
  | .null => true
  | .plain s => isNullWord s
  | _ => false

/-- A text; scalars without quotes are their own text. -/
def string? : Reading String
  | .text s => some s
  | .plain s => some s
  | _ => none

/-- The truth value that a word without quotes stands for. -/
def boolWord? (s : String) : Option Bool :=
  if ["true", "True", "TRUE"].contains s then some true
  else if ["false", "False", "FALSE"].contains s then some false
  else none

/-- The magnitude of a number without quotes: digits of the base sixteen, eight, two or ten. Several
digits that start with a zero are no number. -/
def magnitude? : List Char → Option Nat
  | '0' :: 'x' :: cs => Numeral.value? 16 cs
  | '0' :: 'o' :: cs => Numeral.value? 8 cs
  | '0' :: 'b' :: cs => Numeral.value? 2 cs
  | ['0'] => some 0
  | '0' :: _ => none
  | cs => Numeral.value? 10 cs

/-- The integer that a word without quotes stands for. -/
def integerWord? (s : String) : Option Int :=
  match s.toList with
  | '-' :: cs => (magnitude? cs).map fun n => -(n : Int)
  | '+' :: cs => (magnitude? cs).map fun n => (n : Int)
  | cs => (magnitude? cs).map fun n => (n : Int)

/-- Whether the text is an optional exponent with its digits. -/
def isExponent : List Char → Bool
  | [] => true
  | c :: cs =>
    if c == 'e' || c == 'E' then
      let cs :=
        match cs with
        | '+' :: cs => cs
        | '-' :: cs => cs
        | cs => cs
      !cs.isEmpty && cs.all Char.isDigit
    else false

/-- Whether the text is a decimal number with or without a fraction and an exponent. -/
def isDecimal (cs : List Char) : Bool :=
  let whole := cs.takeWhile Char.isDigit
  match cs.dropWhile Char.isDigit with
  | '.' :: rest =>
    let fraction := rest.takeWhile Char.isDigit
    !(whole.isEmpty && fraction.isEmpty) && isExponent (rest.dropWhile Char.isDigit)
  | rest => !whole.isEmpty && isExponent rest

/-- Whether a word without quotes stands for a number with a fraction or exponent. Several digits
that start with a zero do not. -/
def isRealWord (s : String) : Bool :=
  let cs := s.toList
  let unsigned :=
    match cs with
    | '-' :: rest => rest
    | '+' :: rest => rest
    | rest => rest
  let zeros := 1 < unsigned.length && unsigned.head? == some '0' && unsigned.all Char.isDigit
  [".inf", ".Inf", ".INF"].contains (String.ofList unsigned)
    || [".nan", ".NaN", ".NAN"].contains s
    || (!zeros && isDecimal unsigned)

/-- What a scalar without quotes stands for where any kind of scalar is welcome. -/
def resolve : Value → Value
  | .plain s =>
    if isNullWord s then .null
    else match boolWord? s with
      | some b => .bool b
      | none =>
        match integerWord? s with
        | some n => if isWord n then .int n else .real
        | none => if isRealWord s then .real else .text s
  | v => v

/-- A boolean. -/
def bool? : Reading Bool
  | .bool b => some b
  | .plain s => boolWord? s
  | _ => none

/-! ## Lists, maps and records -/

/-- A list whose items are read by `item`. A scalar that is empty stands for the empty list. -/
def list? {α : Type} (item : Reading α) : Reading (List α)
  | .list vs => vs.mapM item
  | .plain s => if s == "" then some [] else none
  | _ => none

/-- The entries with the value of one key replaced, or with the key added at the end. -/
def put {κ α : Type} [BEq κ] (key : κ) (value : α) : List (κ × α) → List (κ × α)
  | [] => [(key, value)]
  | (k, v) :: es => if k == key then (k, value) :: es else (k, v) :: put key value es

theorem lookup_put_self {κ α : Type} [BEq κ] [LawfulBEq κ] (key : κ) (value : α) :
    ∀ es : List (κ × α), (put key value es).lookup key = some value
  | [] => by simp [put]
  | (k, v) :: es => by
    rw [put]
    split
    · rename_i hk
      rw [beq_iff_eq] at hk
      simp [hk]
    · rename_i hk
      have hne : (key == k) = false := by
        rw [beq_eq_false_iff_ne]
        intro heq
        exact hk (beq_iff_eq.2 heq.symm)
      rw [List.lookup_cons, hne]
      exact lookup_put_self key value es

theorem lookup_put_of_ne {κ α : Type} [BEq κ] [LawfulBEq κ] {key k : κ} (h : k ≠ key) (value : α) :
    ∀ es : List (κ × α), (put key value es).lookup k = es.lookup k
  | [] => by
    have hne : (k == key) = false := beq_eq_false_iff_ne.2 h
    rw [put, List.lookup_cons, hne]
  | (k', v) :: es => by
    rw [put]
    split
    · rename_i hk
      have hne : (k == k') = false := beq_eq_false_iff_ne.2 (beq_iff_eq.1 hk ▸ h)
      rw [List.lookup_cons, List.lookup_cons, hne]
    · rw [List.lookup_cons, List.lookup_cons, lookup_put_of_ne h value es]

/-- A map from keys to values: each key keeps its first place and its last value. -/
def map? {κ α : Type} [BEq κ] (key : Reading κ) (value : Reading α) : Reading (List (κ × α))
  | .dict es => do
    let es ← es.mapM fun (k, v) => do return (← key k, ← value v)
    return es.foldl (fun m (k, v) => put k v m) []
  | .plain s => if s == "" then some [] else none
  | _ => none

/-- The fields of a record by name. -/
abbrev Fields := List (String × Value)

/-- The fields of a record, where `names` lists them in order and `aliases` gives other keys for
some of them: known keys are given once, unknown keys are skipped. -/
def recordWith? (aliases : List (String × String)) (recordsAsLists : Bool) (names : List String) :
    Reading Fields
  | .dict es => do
    let es ← es.mapM fun (k, v) => do
      let k ← k.string?
      return ((aliases.lookup k).getD k, v)
    let known := es.filter fun (k, _) => names.contains k
    if (known.map (·.1)).eraseDups.length == known.length then some known else none
  | .list vs =>
    if recordsAsLists && vs.length ≤ names.length then some (names.zip vs) else none
  | .plain s => if s == "" then some [] else none
  | _ => none

/-- The fields of a record without other keys. -/
def record? (recordsAsLists : Bool) (names : List String) : Reading Fields :=
  recordWith? [] recordsAsLists names

/-- A field that must be there. -/
def required? {α : Type} (fields : Fields) (name : String) (read : Reading α) : Option α :=
  (fields.lookup name).bind read

/-- A field that may be missing but may not be null. -/
def default? {α : Type} (fields : Fields) (name : String) (read : Reading α) (value : α) :
    Option α :=
  match fields.lookup name with
  | some v => read v
  | none => some value

/-- A field that may be missing or null. -/
def optional? {α : Type} (fields : Fields) (name : String) (read : Reading α) :
    Option (Option α) :=
  match fields.lookup name with
  | some v => if v.isNull then some none else (read v).map some
  | none => some none

end Value

end Highlight
