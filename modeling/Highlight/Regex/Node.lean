import Highlight.Regex.CharSet

/-!
# Patterns as trees

The tree of a pattern, whatever dialect it was written in, and the least and greatest number of
characters that a match of it can span.
-/

namespace Highlight

/-- Tests of a position that consume nothing. -/
inductive Assertion where
  /-- At the start of the text, or after a line feed that does not end it. -/
  | lineStart
  /-- At the start of the text or after any line feed. -/
  | lineStartStrict
  /-- At the end of the text or before a line feed. -/
  | lineEnd
  | textStart
  | textEnd
  /-- At the end of the text, or before a line feed that ends it. -/
  | textEndOrLastNewline
  /-- Where the search began. -/
  | searchStart
  | wordBoundary
  | notWordBoundary
  | wordStart
  | wordEnd
  deriving Repr, DecidableEq

/-- The tree of a pattern. Groups are numbered from 1 by their opening parentheses; number 0 stands
for the whole pattern. -/
inductive Node where
  | empty
  /-- Matches nowhere. -/
  | fail
  | char (c : Char)
  | set (s : CharSet)
  | seq (a b : Node)
  | alt (a b : Node)
  /-- `body` at least `low` and at most `high` times, as often as possible where `greedy`. -/
  | repetition (body : Node) (low : Nat) (high : Option Nat) (greedy : Bool)
  | group (index : Nat) (body : Node)
  /-- The first match of the body only. -/
  | atomic (body : Node)
  | lookAhead (negated : Bool) (body : Node)
  /-- A match of the body that ends here and spans from `low` to `high` characters. -/
  | lookBehind (negated : Bool) (low : Nat) (high : Option Nat) (body : Node)
  /-- The text last matched by the first of the groups that took part and reads the same here. -/
  | backReference (indices : List Nat) (ignoreCase : Bool)
  /-- The pattern of a group, matched anew. -/
  | call (index : Nat)
  | assertion (a : Assertion)
  /-- The match counts from here. -/
  | keep
  /-- One of two patterns, as the group took part or not. -/
  | ifGroup (index : Nat) (yes no : Node)
  deriving Repr, Inhabited

namespace Node

/-- The sequence of the nodes. -/
def ofList : List Node → Node
  | [] => empty
  | [a] => a
  | a :: as => seq a (ofList as)

/-- The alternatives of the nodes. -/
def anyOf : List Node → Node
  | [] => fail
  | [a] => a
  | a :: as => alt a (anyOf as)

/-- The sequence of the characters. -/
def literal (cs : List Char) : Node := ofList (cs.map char)

end Node

/-- The least number of characters of a match, and the greatest where there is one. -/
structure Width where
  low : Nat
  high : Option Nat
  deriving Repr, DecidableEq

namespace Width

/-- The width of matches of nothing. -/
def zero : Width := ⟨0, some 0⟩

/-- The width of one character. -/
def one : Width := ⟨1, some 1⟩

/-- The width of a match followed by another. -/
def add (a b : Width) : Width :=
  ⟨a.low + b.low, match a.high, b.high with | some m, some n => some (m + n) | _, _ => none⟩

/-- The width of either of two matches. -/
def join (a b : Width) : Width :=
  ⟨min a.low b.low, match a.high, b.high with | some m, some n => some (max m n) | _, _ => none⟩

/-- The width of a repeated match. -/
def times (a : Width) (low : Nat) (high : Option Nat) : Width :=
  ⟨a.low * low,
   match a.high, high with
   | some 0, _ => some 0
   | some m, some n => some (m * n)
   | _, some 0 => some 0
   | _, _ => none⟩

end Width

namespace Node

/-- The width of a node, given the widths of the groups it calls. -/
def widthWith (called : Nat → Width) : Node → Width
  | empty => .zero
  | fail => .zero
  | char _ => .one
  | set _ => .one
  | seq a b => (a.widthWith called).add (b.widthWith called)
  | alt a b => (a.widthWith called).join (b.widthWith called)
  | repetition body low high _ => (body.widthWith called).times low high
  | group _ body => body.widthWith called
  | atomic body => body.widthWith called
  | lookAhead _ _ => .zero
  | lookBehind _ _ _ _ => .zero
  | backReference _ _ => ⟨0, none⟩
  | call index => called index
  | assertion _ => .zero
  | keep => .zero
  | ifGroup _ yes no => (yes.widthWith called).join (no.widthWith called)

/-- The width of a node where calls can span anything. -/
def width (n : Node) : Width := n.widthWith fun _ => ⟨0, none⟩

/-- Whether some part of the tree, itself included, passes the test. -/
def exists? (test : Node → Bool) : Node → Bool
  | n@(seq a b) => test n || a.exists? test || b.exists? test
  | n@(alt a b) => test n || a.exists? test || b.exists? test
  | n@(repetition body _ _ _) => test n || body.exists? test
  | n@(group _ body) => test n || body.exists? test
  | n@(atomic body) => test n || body.exists? test
  | n@(lookAhead _ body) => test n || body.exists? test
  | n@(lookBehind _ _ _ body) => test n || body.exists? test
  | n@(ifGroup _ yes no) => test n || yes.exists? test || no.exists? test
  | n => test n

end Node

end Highlight
