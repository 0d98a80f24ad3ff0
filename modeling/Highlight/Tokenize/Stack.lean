import Highlight.Grammar.Link

/-!
# Rule stacks

The regions open at a place of a text, the innermost first. A stack is what one line hands to the
next. Frames also hold positions within the line that pushed them; these mean nothing on later
lines, are cleared at the end of a line and do not count when stacks are compared.
-/

namespace Highlight

/-- An open region. -/
structure Frame where
  rule : RuleRef
  /-- The number of open regions up to this one, the root of the grammar among them. -/
  depth : Nat
  /-- Where the scan stood when the region was opened. -/
  enterPos : Option Nat
  /-- Where the last begin match before the region ended. -/
  anchorPos : Option Nat
  /-- The begin match reached the end of the text. -/
  beginReachedEnd : Bool
  /-- The end or continuation of the region with the captured text in it. -/
  endPattern : Option Pattern
  /-- The scopes of the region with its delimiters. -/
  nameScopes : ScopePath
  /-- The scopes of what the region contains. -/
  contentScopes : ScopePath

namespace Frame

/-- Whether two frames differ at most in their positions; ends are compared by their text. -/
def same (f g : Frame) : Bool :=
  f.depth == g.depth && f.rule == g.rule && f.beginReachedEnd == g.beginReachedEnd
    && f.endPattern.map (·.source) == g.endPattern.map (·.source)
    && f.nameScopes == g.nameScopes && f.contentScopes == g.contentScopes

/-- Whether the frame holds no positions. -/
def isClean (f : Frame) : Bool := f.enterPos.isNone && f.anchorPos.isNone

/-- The frame while its end is applied: what is left of the region has the scopes of its
delimiters. -/
def atEnd (f : Frame) : Frame := { f with contentScopes := f.nameScopes }

/-- The frame without positions. -/
def cleared (f : Frame) : Frame := { f with enterPos := none, anchorPos := none }

end Frame

/-- The open regions, the innermost first. -/
abbrev RuleStack := List Frame

namespace RuleStack

/-- The state before a text. -/
def initial : RuleStack := []

/-- The number of open regions, the root of the grammar among them. -/
def depth : RuleStack → Nat
  | [] => 0
  | f :: _ => f.depth

/-- The scopes at the top of the stack. -/
def scopes : RuleStack → ScopePath
  | [] => []
  | f :: _ => f.contentScopes

/-- The stack with a frame on top, one deeper than what is below. -/
def push (s : RuleStack) (f : Frame) : RuleStack := { f with depth := s.depth + 1 } :: s

/-- The stack without its top, unless that is all there is. -/
def safePop (s : RuleStack) : RuleStack := if 1 < s.depth then s.tail else s

/-- The stack without positions, where frames below a clean one are clean already. -/
def clearPositions : RuleStack → RuleStack
  | [] => []
  | f :: rest => if f.isClean then f :: rest else f.cleared :: clearPositions rest

/-- Whether two stacks describe the same regions. -/
def same : RuleStack → RuleStack → Bool
  | [], [] => true
  | f :: s, g :: t => f.same g && same s t
  | _, _ => false

/-- Whether a frame at the top that was entered at a position runs the rule. -/
def entered (s : RuleStack) (r : RuleRef) (position : Nat) : Bool :=
  (s.takeWhile (·.enterPos == some position)).any (·.rule == r)

end RuleStack

end Highlight
