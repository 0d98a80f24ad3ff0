import Highlight.Regex.Match

/-!
# Positions within reach

Whether a pattern matches at all does not depend on the order in which the ways to match are tried,
as long as nothing in it looks back at what was captured or gives up ways that it has not tried. For
such patterns `Node.ends` follows all ways at once: it takes the positions where matches may start
to the positions where they may end. A position counts once however many ways lead to it, so nested
repetitions cost no more than others. `Regex.occursIn` so answers what `Regex.search` would.
-/

namespace Highlight

namespace Node

/-- Whether all ways to match the node may be followed at once. A group 0 would move the start of
the match, and bounds out of order are no bounds. -/
def isOrderFree : Node → Bool
  | seq a b => a.isOrderFree && b.isOrderFree
  | alt a b => a.isOrderFree && b.isOrderFree
  | repetition body low high _ => body.isOrderFree && high.all (low ≤ ·)
  | group i body => i != 0 && body.isOrderFree
  | lookAhead _ body => body.isOrderFree
  | lookBehind _ low high body => body.isOrderFree && high.all (low ≤ ·)
  | atomic _ => false
  | backReference _ _ => false
  | call _ => false
  | keep => false
  | ifGroup _ _ _ => false
  | _ => true

/-- The members of two ascending lists in ascending order, each once. -/
def union : List Nat → List Nat → List Nat
  | [], qs => qs
  | ps, [] => ps
  | p :: ps, q :: qs =>
    if p < q then p :: union ps (q :: qs)
    else if q < p then q :: union (p :: ps) qs
    else p :: union ps qs
termination_by ps qs => ps.length + qs.length

/-- The positions after exactly `n` rounds. -/
def afterRounds (round : List Nat → List Nat) : Nat → List Nat → List Nat
  | 0, ps => ps
  | n + 1, ps => if ps.isEmpty then [] else afterRounds round n (round ps)

/-- The positions after at most `n` rounds. Once a round reaches nothing new, no later one does. -/
def withinRounds (round : List Nat → List Nat) : Nat → List Nat → List Nat
  | 0, ps => ps
  | n + 1, ps =>
    let more := union ps (round ps)
    if more == ps then ps else withinRounds round n more

/-- Where matches of the node that start at one of the positions can end. Positions are ascending.
-/
def ends (w : Window) : Node → List Nat → List Nat
  | empty, ps => ps
  | char c, ps => (ps.filter fun p => w.at? p == some c).map (· + 1)
  | set s, ps => (ps.filter fun p => (w.at? p).any s.mem).map (· + 1)
  | seq a b, ps => b.ends w (a.ends w ps)
  | alt a b, ps => union (a.ends w ps) (b.ends w ps)
  | repetition body low high _, ps =>
    withinRounds (fun qs => body.ends w qs) (beyond low high (w.stop + 1))
      (afterRounds (fun qs => body.ends w qs) low ps)
  | group _ body, ps => body.ends w ps
  | lookAhead negated body, ps => ps.filter fun p => (body.ends w [p]).isEmpty == negated
  | lookBehind negated low high body, ps =>
    ps.filter fun p =>
      ((List.range (p + 1)).any fun q =>
        q + low ≤ p && high.all (p ≤ q + ·) && (body.ends w [q]).contains p) != negated
  | assertion a, ps => ps.filter fun p => w.satisfies p a
  | _, _ => []

end Node

namespace Regex

/-- Whether the pattern matches anywhere in a text. -/
def occursIn (r : Regex) (text : String) : Bool :=
  let chars := text.toList.toArray
  if r.body.isOrderFree then
    !(r.body.ends ⟨chars, chars.size, 0⟩ (List.range (chars.size + 1))).isEmpty
  else (r.search chars 0 chars.size).isSome

end Regex

end Highlight
