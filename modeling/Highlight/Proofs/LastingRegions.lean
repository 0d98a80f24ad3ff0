import Highlight.Proofs.LineRuns
import Highlight.Proofs.LinkedDocuments

/-!
# Regions that last while a pattern is found

A region with a continuation lasts onto a line while its pattern is found there. At the start of a
line the patterns of all such regions are searched for, the outermost first, each from where the one
before was found to end. `Scan.Lasts` says that they are found one after another. What is proved:

1. `continueRegions_lasts`: the loop over the regions finds some of them one after another, and the
   next one, if there is one, it does not find.
2. `Grammar.lasting_split`: among the regions of a stack, those before a region are those of the
   stack below it. So a stack that is cut below the first region that is not found holds just the
   regions that were found.
3. `enterLine_lasting`: what becomes of the stack and of the position at the start of a line.

Searches of the line depend on the state of the scan by its `Cursor` only: what tokens the captures
of the matches leave behind plays no part in them.
-/

namespace Highlight

/-- Where a scan searches, and what of the scan so far its searches take into account. -/
structure Cursor where
  position : Nat
  anchor : Option Nat
  atStart : Bool

namespace Cursor

/-- The anchors that hold here. -/
def anchors (k : Cursor) : Anchors := .ofPosition k.atStart k.anchor k.position

/-- The place behind a match. -/
def behind (k : Cursor) (m : Match) : Cursor :=
  ⟨m.stop, some m.stop, k.atStart && !(k.position < m.stop)⟩

end Cursor

/-- Where the scan stands. -/
def ScanState.cursor (s : ScanState) : Cursor := ⟨s.position, s.anchor, s.atStart⟩

open Scan (Continued)

namespace Grammar

variable {g : Grammar}

/-- The region at the top of a stack, where it lasts while its pattern is found. -/
def lastingTop? (g : Grammar) : RuleStack → Option Continued
  | [] => none
  | f :: below =>
    match g.rule? f.rule with
    | some (.beginWhile rule) => some ⟨f, below, rule⟩
    | _ => none

/-- The regions of a stack that last while their pattern is found, the outermost first. -/
def lasting (g : Grammar) (stack : RuleStack) : List Continued :=
  stack.tails.reverse.filterMap g.lastingTop?

theorem lasting_cons (g : Grammar) (f : Frame) (below : RuleStack) :
    g.lasting (f :: below) = g.lasting below ++ (g.lastingTop? (f :: below)).toList := by
  rw [lasting, List.tails_cons, List.reverse_cons, List.filterMap_append, ← lasting]
  cases h : g.lastingTop? (f :: below) with
  | none => simp [h]
  | some c => simp [h]

theorem lastingTop?_eq_some {f : Frame} {below : RuleStack} {c : Continued}
    (h : g.lastingTop? (f :: below) = some c) : c.frame = f ∧ c.below = below := by
  simp only [lastingTop?] at h
  split at h
  · cases h
    exact ⟨rfl, rfl⟩
  · cases h

/-- What the scan collects at the start of a line are these regions. -/
theorem eq_lasting_of_continued : ∀ {stack : RuleStack} {cs : List Continued},
    Scan.continued g stack = .ok cs → cs = g.lasting stack
  | [], cs, h => by
    cases h
    rfl
  | f :: below, cs, h => by
    simp only [Scan.continued] at h
    obtain ⟨outer, houter, h⟩ := Except.bind_eq_ok.1 h
    obtain ⟨rule, hrule, h⟩ := Except.bind_eq_ok.1 h
    rw [rule_eq_ok] at hrule
    rw [lasting_cons, lastingTop?, hrule, ← eq_lasting_of_continued houter]
    cases rule with
    | beginWhile rule =>
      cases h
      rfl
    | matching _ | beginEnd _ | group _ | inclusion _ =>
      cases h
      exact (List.append_nil _).symm

/-- The lasting regions before one of them are those of the stack below it. -/
theorem lasting_split {stack : RuleStack} {kept rest : List Continued} {c : Continued}
    (h : g.lasting stack = kept ++ c :: rest) :
    g.lasting c.below = kept ∧ c.frame :: c.below <:+ stack := by
  induction stack generalizing rest with
  | nil =>
    have hnone : g.lasting [] = [] := rfl
    rw [hnone] at h
    exact absurd h.symm (by simp)
  | cons f below ih =>
    rw [lasting_cons] at h
    cases htop : g.lastingTop? (f :: below) with
    | none =>
      rw [htop, Option.toList_none, List.append_nil] at h
      obtain ⟨hkept, hsuffix⟩ := ih h
      exact ⟨hkept, hsuffix.trans (List.suffix_cons f below)⟩
    | some top =>
      rw [htop, Option.toList_some] at h
      rcases List.eq_nil_or_concat rest with rfl | ⟨rest, last, rfl⟩
      · -- the region is the top of the stack
        obtain ⟨hkept, hc⟩ := List.append_inj' h rfl
        cases hc
        obtain ⟨hframe, hbelow⟩ := lastingTop?_eq_some htop
        rw [hframe, hbelow]
        exact ⟨hkept, List.suffix_rfl⟩
      · have hfront : g.lasting below ++ [top] = (kept ++ c :: rest) ++ [last] := by
          rw [h, List.append_assoc, List.cons_append, List.concat_eq_append]
        obtain ⟨hkept, hsuffix⟩ := ih (List.append_inj' hfront rfl).1
        exact ⟨hkept, hsuffix.trans (List.suffix_cons f below)⟩

end Grammar

namespace Scan

variable {w : Scan} {s s' : ScanState} {k k' k'' : Cursor} {c : Continued}
  {cs : List Continued} {m : Match} {ms ms' : List Match}

/-- What a search for the pattern of a lasting region comes to. -/
def SearchGives (w : Scan) (k : Cursor) (c : Continued) (found : Option Match) : Prop :=
  ∃ p, c.frame.resolvedEnd c.rule.whilePattern = .ok p ∧
    p.search w.text.chars k.position w.stop k.anchors = found

/-- The patterns of regions are found one after another, each from where the one before was found to
end. -/
inductive Lasts (w : Scan) : Cursor → List Continued → List Match → Cursor → Prop
  | nil (k : Cursor) : Lasts w k [] [] k
  | cons {k k' : Cursor} {c : Continued} {cs : List Continued} {m : Match} {ms : List Match}
      (hfound : w.SearchGives k c (some m)) (hrest : Lasts w (k.behind m) cs ms k') :
      Lasts w k (c :: cs) (m :: ms) k'

theorem SearchGives.unique {found found' : Option Match} (h : w.SearchGives k c found)
    (h' : w.SearchGives k c found') : found = found' := by
  obtain ⟨p, hp, hfound⟩ := h
  obtain ⟨p', hp', hfound'⟩ := h'
  cases hp.symm.trans hp'
  exact hfound.symm.trans hfound'

theorem SearchGives.within (h : w.SearchGives k c (some m)) : m.Within k.position w.stop := by
  obtain ⟨p, _, hm⟩ := h
  exact Regex.search_within hm

theorem Lasts.unique (h : w.Lasts k cs ms k') (h' : w.Lasts k cs ms' k'') : k' = k'' := by
  induction h generalizing ms' with
  | nil k =>
    cases h'
    rfl
  | cons hfound _ ih =>
    cases h' with
    | cons hfound' hrest' =>
      cases hfound.unique hfound'
      exact ih hrest'

/-- If all of several regions last, then also those before one of them, and this one is found behind
them. -/
theorem Lasts.split {kept rest : List Continued} (h : w.Lasts k (kept ++ c :: rest) ms k') :
    ∃ ms' j m, w.Lasts k kept ms' j ∧ w.SearchGives j c (some m) := by
  induction kept generalizing k ms with
  | nil =>
    cases h with
    | cons hfound _ => exact ⟨[], k, _, .nil k, hfound⟩
  | cons d kept ih =>
    cases h with
    | cons hfound hrest =>
      obtain ⟨ms', j, m, hkept, hc⟩ := ih hrest
      exact ⟨_, j, m, .cons hfound hkept, hc⟩

/-- No search starts before the end of the match before it. -/
theorem Lasts.ordered (h : w.Lasts k cs ms k') :
    (k.position :: ms.map (·.stop)).IsChain (· ≤ ·) := by
  induction h with
  | nil k => exact .singleton _
  | cons hfound _ ih =>
    have hin := hfound.within
    exact List.isChain_cons_cons.2 ⟨Nat.le_trans hin.start_le hin.ordered, ih⟩

/-- The searches end where the last of their matches does. -/
theorem Lasts.position_eq (h : w.Lasts k cs ms k') :
    k'.position = (ms.map (·.stop)).foldl max k.position := by
  induction h with
  | nil k => rfl
  | @cons k k' c cs m ms hfound _ ih =>
    have hin := hfound.within
    have hmax : max k.position m.stop = m.stop :=
      Nat.max_eq_right (Nat.le_trans hin.start_le hin.ordered)
    rw [ih, List.map_cons, List.foldl_cons, hmax]
    rfl

/-- The state behind the match of a lasting region, as the loop over the regions leaves it. -/
theorem cursor_behind (hle : s.position ≤ m.stop) (run : TokenRun) :
    (if s.position < m.stop then
      { s with anchor := some m.stop, run := run, position := m.stop, atStart := false }
    else { s with anchor := some m.stop, run := run }).cursor = s.cursor.behind m := by
  by_cases hgo : s.position < m.stop
  · rw [if_pos hgo]
    simp [ScanState.cursor, Cursor.behind, hgo]
  · have hstay : s.position = m.stop := by omega
    rw [if_neg hgo]
    simp [ScanState.cursor, Cursor.behind, hstay]

/-- The loop finds regions one after another up to one that it does not find, below which it cuts
the stack. -/
theorem continueRegions_lasts (h : w.continueRegions s cs = .ok s') :
    ∃ kept rest ms, cs = kept ++ rest ∧ w.Lasts s.cursor kept ms s'.cursor ∧
      ((rest = [] ∧ s'.stack = s.stack) ∨ ∃ c lost, rest = c :: lost ∧
        w.SearchGives s'.cursor c none ∧ s'.stack = c.below) := by
  induction cs generalizing s with
  | nil =>
    cases h
    exact ⟨[], [], [], rfl, .nil _, .inl ⟨rfl, rfl⟩⟩
  | cons c cs ih =>
    simp only [continueRegions] at h
    obtain ⟨p, hp, h⟩ := Except.bind_eq_ok.1 h
    split at h
    · next hnone =>
      cases h
      exact ⟨[], c :: cs, [], rfl, .nil _, .inr ⟨c, cs, rfl, ⟨p, hp, hnone⟩, rfl⟩⟩
    · next m hm =>
      have hfound : w.SearchGives s.cursor c (some m) := ⟨p, hp, hm⟩
      have hle : s.position ≤ m.stop :=
        Nat.le_trans hfound.within.start_le hfound.within.ordered
      obtain ⟨t, ht, h⟩ := Except.bind_eq_ok.1 h
      obtain ⟨run, _, rfl⟩ := resolveCaptures_eq_ok.1 ht
      -- both ways the loop goes on behind the match, on the same stack
      have hnext : ∃ t, t.cursor = s.cursor.behind m ∧ t.stack = s.stack ∧
          w.continueRegions t cs = .ok s' := by
        have hcursor := cursor_behind hle run
        split at h
        · next hgo =>
          rw [if_pos hgo] at hcursor
          exact ⟨_, hcursor, rfl, h⟩
        · next hstay =>
          rw [if_neg hstay] at hcursor
          exact ⟨_, hcursor, rfl, h⟩
      obtain ⟨t, hcursor, hstack, hrest⟩ := hnext
      obtain ⟨kept, rest, ms, hcs, hlasts, hend⟩ := ih hrest
      rw [hcursor] at hlasts
      rw [hstack] at hend
      exact ⟨c :: kept, rest, m :: ms, by rw [hcs, List.cons_append], .cons hfound hlasts, hend⟩

/-- At the start of a line, where nothing fails, the stack stays as it is if the patterns of all
lasting regions are found one after another, the outermost first. Otherwise it is what lies below
the first region whose pattern is not found. So just the lasting regions that are still open have
been found, and the scan stands where the matches have ended that gave them. -/
theorem enterLine_lasting (h : w.enterLine s = .ok s') :
    ((∃ ms k, w.Lasts s.atLineStart.cursor (w.grammar.lasting s.stack) ms k) →
      s'.stack = s.stack) ∧
    (s'.stack = s.stack ∨ ∃ c lost,
      w.grammar.lasting s.stack = w.grammar.lasting s'.stack ++ c :: lost ∧
      w.SearchGives s'.cursor c none ∧ c.frame :: s'.stack <:+ s.stack) ∧
    ∃ ms, w.Lasts s.atLineStart.cursor (w.grammar.lasting s'.stack) ms s'.cursor ∧
      (s.position :: ms.map (·.stop)).IsChain (· ≤ ·) ∧
      s'.position = (ms.map (·.stop)).foldl max s.position := by
  simp only [enterLine] at h
  obtain ⟨cs, hcs, h⟩ := Except.bind_eq_ok.1 h
  obtain ⟨kept, rest, ms, hsplit, hlasts, hend⟩ := continueRegions_lasts h
  rw [Grammar.eq_lasting_of_continued hcs] at hsplit
  have hrun : ∀ stack, w.grammar.lasting stack = kept →
      ∃ ms, w.Lasts s.atLineStart.cursor (w.grammar.lasting stack) ms s'.cursor ∧
        (s.position :: ms.map (·.stop)).IsChain (· ≤ ·) ∧
        s'.position = (ms.map (·.stop)).foldl max s.position := by
    rintro stack rfl
    exact ⟨ms, hlasts, hlasts.ordered, hlasts.position_eq⟩
  rcases hend with ⟨rfl, hstack⟩ | ⟨c, lost, rfl, hnone, hstack⟩
  · rw [List.append_nil] at hsplit
    have hstack : s'.stack = s.stack := hstack
    refine ⟨fun _ => hstack, .inl hstack, hrun _ ?_⟩
    rw [hstack, hsplit]
  · obtain ⟨hkept, hsuffix⟩ := Grammar.lasting_split hsplit
    rw [← hstack] at hkept hsuffix
    refine ⟨?_, .inr ⟨c, lost, by rw [hkept, hsplit], hnone, hsuffix⟩, hrun _ hkept⟩
    -- the region that was not found would have been searched for at the same place
    rintro ⟨ms', k, hall⟩
    rw [hsplit] at hall
    obtain ⟨ms'', j, m, hbefore, hfound⟩ := hall.split
    rw [← hlasts.unique hbefore] at hfound
    cases hnone.unique hfound

end Scan

namespace Grammar

open Scan

/-! ### Quotes and lists -/

/-- Quotes and lists, which last while their mark is repeated, and brackets around them. -/
def marginsSource : RawGrammar :=
  { (default : RawGrammar) with
    scopeName := "source.t"
    patterns := [
      { (default : RawRule) with
        name := some "quote"
        beginSource := some "> "
        whileSource := some "> "
        patterns := some [{ (default : RawRule) with inclusion := some "$self" }] },
      { (default : RawRule) with
        name := some "list"
        beginSource := some "([*-]) "
        whileSource := some "\\1"
        patterns := some [{ (default : RawRule) with inclusion := some "$self" }] },
      { (default : RawRule) with
        name := some "bracket"
        beginSource := some "\\["
        endSource := some "\\]"
        patterns := some [{ (default : RawRule) with inclusion := some "$self" }] }] }

theorem marginsSource_links : (ofSource marginsSource).toOption.isSome := by decide +kernel

/-- The grammar of quotes and lists. -/
def margins : Grammar := (ofSource marginsSource).toOption.get marginsSource_links

/-- The state at the start of the second line of a text, before the patterns of lasting regions. -/
def secondLine (g : Grammar) (line : String) : ScanState :=
  ⟨(g.tokenizeLineWithin 1 line []).stack, 0, none, false, .empty⟩

/-- A list in a bracket in a quote, with another quote in it. -/
def beforeMargins : ScanState := margins.secondLine "> [* > x"

/-- A line with the mark of the outer quote, and without the mark of the list. -/
def marginsLine : Scan := margins.lineScan 1 "> > x"

/-- The state after the patterns of lasting regions. -/
def afterMargins : ScanState :=
  (marginsLine.enterLine beforeMargins).toOption.get (by decide +kernel)

/-- The list is left with the quote in it; the bracket and the quote around it stay open. -/
theorem enterLine_lasting_margins : beforeMargins.stack.length = 5 ∧
    marginsLine.enterLine beforeMargins = .ok afterMargins ∧
    (∃ c lost, margins.lasting beforeMargins.stack =
        margins.lasting afterMargins.stack ++ c :: lost ∧
      marginsLine.SearchGives afterMargins.cursor c none ∧
      c.frame :: afterMargins.stack <:+ beforeMargins.stack) ∧
    afterMargins.stack.length = 3 ∧ (margins.lasting afterMargins.stack).length = 1 ∧
    afterMargins.position = 2 := by
  have hbefore : beforeMargins.stack.length = 5 := by decide +kernel
  have hafter : afterMargins.stack.length = 3 := by decide +kernel
  have henter : marginsLine.enterLine beforeMargins = .ok afterMargins :=
    Except.eq_ok_of_toOption (Option.some_get _).symm
  have hcut : afterMargins.stack ≠ beforeMargins.stack := by
    intro heq
    rw [heq, hbefore] at hafter
    cases hafter
  have hgrammar : marginsLine.grammar = margins := by rw [marginsLine, lineScan]
  obtain ⟨_, hstack, _⟩ := enterLine_lasting henter
  rw [hgrammar] at hstack
  exact ⟨hbefore, henter, hstack.resolve_left hcut, hafter, by decide +kernel, by decide +kernel⟩

end Grammar

end Highlight
