/-!
# Document values

What a JSON text, a property list and a YAML text have in common once they are read: scalars, lists
and dictionaries that keep the order of their entries and may repeat a key.
-/

namespace Highlight

/-- A document, or a part of one. -/
inductive Value where
  | null
  | bool (b : Bool)
  | int (n : Int)
  /-- A number that is not an integer of 64 bits. -/
  | real
  | text (s : String)
  /-- A scalar without quotes, which is what its reader takes it for. -/
  | plain (s : String)
  /-- A scalar that is none of the above. -/
  | foreign
  | list (items : List Value)
  | dict (entries : List (Value × Value))
  deriving Repr, Inhabited

namespace Value

/-- Whether an integer has 64 bits, with a sign or without one. -/
def isWord (n : Int) : Bool := -9223372036854775808 ≤ n && n ≤ 18446744073709551615

/-- How deep lists and dictionaries nest. -/
def depth : Value → Nat
  | .list items => depthOfList items + 1
  | .dict entries => depthOfEntries entries + 1
  | _ => 0
where
  /-- The greatest depth of the items. -/
  depthOfList : List Value → Nat
    | [] => 0
    | v :: vs => max v.depth (depthOfList vs)
  /-- The greatest depth of the keys and values. -/
  depthOfEntries : List (Value × Value) → Nat
    | [] => 0
    | (k, v) :: es => max (max k.depth v.depth) (depthOfEntries es)

end Value

end Highlight
