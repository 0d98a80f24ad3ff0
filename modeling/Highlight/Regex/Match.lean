import Highlight.Regex.Node
import Highlight.Text.Subject

/-!
# Matching

`Node.run` tries a pattern at one position and hands every way to match it, best first, to a
continuation until one succeeds. The recursion is on the pattern: a repetition makes progress with
every round, so the characters left bound its rounds, and calls of groups nest to a fixed depth.
`Regex.search` tries the positions in turn; a match that it finds lies between where the search
began and where the text ends.
-/

namespace Highlight

/-- The part of a text that a search may see, and where the search began. -/
structure Window where
  chars : Array Char
  /-- The text ends here. -/
  stop : Nat
  /-- The search began here. -/
  start : Nat

namespace Window

/-- The character at a position. -/
def at? (w : Window) (p : Nat) : Option Char := if p < w.stop then w.chars[p]? else none

/-- The character before a position. -/
def before? (w : Window) (p : Nat) : Option Char := if p = 0 then none else w.at? (p - 1)

/-- Whether a character of the kind that words are made of is there. -/
def isWord : Option Char → Bool
  | some c => Property.isWord c
  | none => false

/-- Whether the assertion holds at a position. -/
def satisfies (w : Window) (p : Nat) : Assertion → Bool
  | .lineStart => p = 0 || (w.before? p == some '\n' && p < w.stop)
  | .lineStartStrict => p = 0 || w.before? p == some '\n'
  | .lineEnd => p = w.stop || w.at? p == some '\n'
  | .textStart => p = 0
  | .textEnd => p = w.stop
  | .textEndOrLastNewline => p = w.stop || (p + 1 = w.stop && w.at? p == some '\n')
  | .searchStart => p = w.start
  | .wordBoundary => isWord (w.before? p) != isWord (w.at? p)
  | .notWordBoundary => isWord (w.before? p) == isWord (w.at? p)
  | .wordStart => !isWord (w.before? p) && isWord (w.at? p)
  | .wordEnd => isWord (w.before? p) && !isWord (w.at? p)

/-- How many characters from a position on, at most `limit`, pass the test. -/
def run (w : Window) (test : Char → Bool) (p : Nat) : Nat → Nat
  | 0 => 0
  | limit + 1 =>
    match w.at? p with
    | some c => if test c then run w test (p + 1) limit + 1 else 0
    | none => 0

/-- Where the text between two positions, read again at `p`, ends. -/
def reread (w : Window) (ignoreCase : Bool) (p source : Nat) : Nat → Option Nat
  | 0 => some p
  | count + 1 =>
    match w.at? p, w.at? source with
    | some a, some b =>
      if a == b || (ignoreCase && Case.same a b) then reread w ignoreCase (p + 1) (source + 1) count
      else none
    | _, _ => none

end Window

/-- Where each group was entered last, at even places, and left last, at odd places. -/
abbrev Slots := Array (Option Nat)

/-- A successful attempt: where it ended and what the groups hold. -/
abbrev Attempt := Option (Nat × Slots)

/-- What remains to be matched. -/
abbrev Continuation := Nat → Slots → Attempt

/-- A pattern as a function of what follows it. -/
abbrev Step := Nat → Slots → Continuation → Attempt

namespace Step

/-- The step exactly `n` times. -/
def times (step : Step) : Nat → Step
  | 0, p, m, k => k p m
  | n + 1, p, m, k => step p m fun p' m' => times step n p' m' k

/-- The step at most `n` times, more rounds first where `greedy`. A round that consumes nothing is
the last one. -/
def upTo (step : Step) (greedy : Bool) : Nat → Step
  | 0, p, m, k => k p m
  | n + 1, p, m, k =>
    let round := fun (_ : Unit) =>
      step p m fun p' m' => if p' ≤ p then k p' m' else upTo step greedy n p' m' k
    if greedy then
      match round () with
      | some r => some r
      | none => k p m
    else
      match k p m with
      | some r => some r
      | none => round ()

/-- The continuation after `n` single characters or fewer, the most first. -/
def longestFirst (p : Nat) (m : Slots) (k : Continuation) (low : Nat) : Nat → Attempt
  | 0 => k p m
  | n + 1 =>
    match k (p + (n + 1)) m with
    | some r => some r
    | none => if n < low then none else longestFirst p m k low n

/-- The continuation after `low` single characters or more, the fewest first. -/
def shortestFirst (p : Nat) (m : Slots) (k : Continuation) (more : Nat → Bool) : Nat → Attempt
  | 0 => k p m
  | n + 1 =>
    match k p m with
    | some r => some r
    | none => if more p then shortestFirst (p + 1) m k more n else none

/-- Tries a step at `q` and at the `n` positions before it. -/
def backwards (attempt : Nat → Attempt) (q : Nat) : Nat → Attempt
  | 0 => attempt q
  | n + 1 =>
    match attempt q with
    | some r => some r
    | none => if q = 0 then none else backwards attempt (q - 1) n

end Step

namespace Node

/-- The test of a node that matches exactly one character. -/
def single? : Node → Option (Char → Bool)
  | char c => some (· == c)
  | set s => some s.mem
  | _ => none

/-- How many characters a bound allows where `left` of them are left. -/
def atMost (high : Option Nat) (left : Nat) : Nat :=
  match high with
  | some n => min n left
  | none => left

/-- How many more than `low` a bound allows; `left` where it has no greatest number. -/
def beyond (low : Nat) (high : Option Nat) (left : Nat) : Nat :=
  match high with
  | some n => n - low
  | none => left

/-- The end of the first of the groups that took part and reads the same at `p`. -/
def reread (w : Window) (ignoreCase : Bool) (p : Nat) (m : Slots) : List Nat → Option Nat
  | [] => none
  | i :: is =>
    match m.getD (2 * i) none, m.getD (2 * i + 1) none with
    | some a, some b =>
      match w.reread ignoreCase p a (b - a) with
      | some q => some q
      | none => reread w ignoreCase p m is
    | _, _ => reread w ignoreCase p m is

/-- Matches of a node at a position, in order of preference. -/
def run (w : Window) (called : Nat → Step) : Node → Step
  | empty, p, m, k => k p m
  | fail, _, _, _ => none
  | char c, p, m, k => if w.at? p == some c then k (p + 1) m else none
  | set s, p, m, k =>
    match w.at? p with
    | some c => if s.mem c then k (p + 1) m else none
    | none => none
  | seq a b, p, m, k => a.run w called p m fun p' m' => b.run w called p' m' k
  | alt a b, p, m, k =>
    match a.run w called p m k with
    | some r => some r
    | none => b.run w called p m k
  | repetition body low high greedy, p, m, k =>
    match body.single? with
    | some test =>
      let most := atMost high (w.stop - p)
      if greedy then
        let n := w.run test p most
        if n < low then none else Step.longestFirst p m k low n
      else if w.run test p (min low most) < low then none
      else Step.shortestFirst (p + low) m k (fun q => (w.at? q).any test) (most - low)
    | none =>
      let step : Step := fun p m k => body.run w called p m k
      Step.times step low p m fun p' m' =>
        Step.upTo step greedy (beyond low high (w.stop + 1 - p')) p' m' k
  | group i body, p, m, k =>
    body.run w called p (m.setIfInBounds (2 * i) (some p)) fun p' m' =>
      k p' (m'.setIfInBounds (2 * i + 1) (some p'))
  | atomic body, p, m, k =>
    match body.run w called p m (fun p' m' => some (p', m')) with
    | some (p', m') => k p' m'
    | none => none
  | lookAhead negated body, p, m, k =>
    match body.run w called p m (fun p' m' => some (p', m')), negated with
    | some (_, m'), false => k p m'
    | none, true => k p m
    | _, _ => none
  | lookBehind negated low high body, p, m, k =>
    let attempt := fun q =>
      body.run w called q m fun p' m' => if p' = p then some (p', m') else none
    let found :=
      if p < low then none
      else Step.backwards attempt (p - low) (beyond low high (p - low))
    match found, negated with
    | some (_, m'), false => k p m'
    | none, true => k p m
    | _, _ => none
  | backReference indices ignoreCase, p, m, k =>
    match reread w ignoreCase p m indices with
    | some q => k q m
    | none => none
  | call i, p, m, k => called i p m k
  | assertion a, p, m, k => if w.satisfies p a then k p m else none
  | keep, p, m, k => k p (m.setIfInBounds 0 (some p))
  | ifGroup i yes no, p, m, k =>
    if (m.getD (2 * i + 1) none).isSome then yes.run w called p m k else no.run w called p m k

end Node

/-- A pattern ready to be searched for. -/
structure Regex where
  body : Node
  /-- The groups by number, for calls; number 0 is the whole pattern. -/
  groups : Array Node
  deriving Inhabited

/-- A range of positions. -/
structure Span where
  start : Nat
  stop : Nat
  deriving Repr, DecidableEq

/-- A match: its range and the ranges of the groups that took part, number 0 being the whole. -/
structure Match where
  start : Nat
  stop : Nat
  groups : List (Option Span)
  deriving Repr, DecidableEq

namespace Regex

/-- How deep calls of groups nest. -/
def callDepth : Nat := 24

/-- Calls of groups that nest at most to the given depth. -/
def called (r : Regex) (w : Window) : Nat → Nat → Step
  | 0, _, _, _, _ => none
  | depth + 1, i, p, m, k => ((r.groups[i]?).getD .fail).run w (called r w depth) p m k

/-- No group has taken part yet. -/
def blank (r : Regex) : Slots := Array.replicate (2 * r.groups.size) none

/-- The best attempt at one position. -/
def attempt (r : Regex) (w : Window) (m : Slots) (p : Nat) : Attempt :=
  r.body.run w (r.called w callDepth) p m fun p' m' => some (p', m')

/-- The range of group `i` that the slots hold, if it lies in a text that ends at `stop`. -/
def span? (m : Slots) (stop i : Nat) : Option Span :=
  match m.getD (2 * i) none, m.getD (2 * i + 1) none with
  | some a, some b => if a ≤ b && b ≤ stop then some ⟨a, b⟩ else none
  | _, _ => none

/-- The match that an attempt from `p` describes, if it lies between `p` and `stop`. -/
def match? (r : Regex) (stop p : Nat) : Attempt → Option Match
  | none => none
  | some (q, m) =>
    let start := (m.getD 0 none).getD p
    if p ≤ start && start ≤ q && q ≤ stop then
      let groups := (List.range (r.groups.size - 1)).map fun i => span? m stop (i + 1)
      some ⟨start, q, some ⟨start, q⟩ :: groups⟩
    else none

/-- The match at the first of the `n + 1` positions from `p` on that has one. -/
def searchFrom (r : Regex) (w : Window) (m : Slots) (p : Nat) : Nat → Option Match
  | 0 => r.match? w.stop p (r.attempt w m p)
  | n + 1 =>
    match r.match? w.stop p (r.attempt w m p) with
    | some found => some found
    | none => searchFrom r w m (p + 1) n

/-- The first match at or after `start` in a text that ends at `stop`. -/
def search (r : Regex) (chars : Array Char) (start stop : Nat) : Option Match :=
  if start ≤ stop then r.searchFrom ⟨chars, stop, start⟩ r.blank start (stop - start) else none

end Regex

end Highlight
