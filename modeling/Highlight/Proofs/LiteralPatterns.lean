import Highlight.Proofs.AnchorVariants
import Highlight.Proofs.LineRuns

/-!
# Patterns that stand for a text

Captured text goes into a pattern with a backslash before each character that has a meaning there.

1. `lexes_escapeText`: outside brackets, and where white space counts, such a text is read as its
   characters one by one, whatever comes before and after it.
2. `Regex.ofGrammarPattern_escapeText`: as a pattern of its own it is the sequence of its
   characters, and has no anchors (`hasAnchors_escapeText`).
3. `Regex.search_literal`: a search for a sequence of characters finds its first occurrence.
4. `captured_text_literal`: so an end that is a single reference is found where the captured text
   occurs first.
-/

namespace Highlight

/-! ## Literal text -/

/-- The characters occur at a position of a text that ends at `stop`. -/
def OccursAt (cs : List Char) (chars : Array Char) (stop p : Nat) : Prop :=
  p + cs.length ≤ stop ∧ cs <+: chars.toList.drop p

/-- Where characters occur first, at or behind a position. -/
inductive FirstOccurrence (cs : List Char) (chars : Array Char) (start stop : Nat) :
    Option Nat → Prop
  | found {p : Nat} (hstart : start ≤ p) (hat : OccursAt cs chars stop p)
      (hbefore : ∀ q, start ≤ q → q < p → ¬OccursAt cs chars stop q) :
      FirstOccurrence cs chars start stop (some p)
  | missing (h : ∀ q, start ≤ q → ¬OccursAt cs chars stop q) :
      FirstOccurrence cs chars start stop none

section

variable {cs : List Char} {c : Char} {chars : Array Char} {start stop p : Nat}

theorem occursAt_nil : OccursAt [] chars stop p ↔ p ≤ stop := by simp [OccursAt]

theorem occursAt_cons : OccursAt (c :: cs) chars stop p ↔
    (p < stop ∧ chars[p]? = some c) ∧ OccursAt cs chars stop (p + 1) := by
  have hdrop : (chars.toList.drop p).head? = chars[p]? := by
    rw [List.head?_drop, Array.getElem?_toList]
  have htail : (chars.toList.drop p).tail = chars.toList.drop (p + 1) := List.tail_drop
  rw [OccursAt, OccursAt, ← htail, ← hdrop, List.length_cons]
  cases chars.toList.drop p with
  | nil => simp
  | cons d ds =>
    rw [List.cons_prefix_cons, List.head?_cons, List.tail_cons, Option.some.injEq]
    constructor
    · rintro ⟨hle, rfl, hprefix⟩
      exact ⟨⟨by omega, rfl⟩, by omega, hprefix⟩
    · rintro ⟨⟨_, rfl⟩, hle, hprefix⟩
      exact ⟨by omega, rfl, hprefix⟩

/-- The first occurrence lies here or is the first one behind. -/
theorem FirstOccurrence.step {found : Option Nat} (hnot : ¬OccursAt cs chars stop start)
    (h : FirstOccurrence cs chars (start + 1) stop found) :
    FirstOccurrence cs chars start stop found := by
  cases h with
  | found hstart hat hbefore =>
    refine .found (by omega) hat fun q hq hlt => ?_
    rcases Nat.eq_or_lt_of_le hq with rfl | hq
    · exact hnot
    · exact hbefore q hq hlt
  | missing hnone =>
    refine .missing fun q hq => ?_
    rcases Nat.eq_or_lt_of_le hq with rfl | hq
    · exact hnot
    · exact hnone q hq

end

namespace Window

variable {w : Window} {p : Nat}

/-- Whether the characters stand at a position. -/
def spells (w : Window) : Nat → List Char → Bool
  | _, [] => true
  | p, c :: cs => w.at? p == some c && w.spells (p + 1) cs

theorem at?_eq_some {c : Char} : w.at? p = some c ↔ p < w.stop ∧ w.chars[p]? = some c := by
  simp [at?]

theorem spells_iff {cs : List Char} : ∀ {p : Nat}, p ≤ w.stop →
    (w.spells p cs = true ↔ OccursAt cs w.chars w.stop p) := by
  induction cs with
  | nil =>
    intro p hp
    rw [occursAt_nil]
    exact iff_of_true rfl hp
  | cons c cs ih =>
    intro p hp
    rw [spells, Bool.and_eq_true, beq_iff_eq, at?_eq_some, occursAt_cons]
    exact and_congr_right fun h => ih h.1

end Window

namespace Node

theorem run_literal {w : Window} {called : Nat → Step} {m : Slots} {k : Continuation} :
    ∀ (cs : List Char) (p : Nat), (literal cs).run w called p m k =
      if w.spells p cs then k (p + cs.length) m else none
  | [], _ => rfl
  | [c], p => by simp [literal, ofList, run, Window.spells]
  | c :: c' :: cs, p => by
    have hrest : (literal (c' :: cs)).run w called (p + 1) m k =
        if w.spells (p + 1) (c' :: cs) then k (p + 1 + (c' :: cs).length) m else none :=
      run_literal (c' :: cs) (p + 1)
    have hlength : p + (c :: c' :: cs).length = p + 1 + (c' :: cs).length := by
      simp only [List.length_cons]
      omega
    change (if w.at? p == some c then (literal (c' :: cs)).run w called (p + 1) m k else none) =
      if w.at? p == some c && w.spells (p + 1) (c' :: cs) then _ else none
    rw [hlength, hrest]
    cases w.at? p == some c with
    | true => rfl
    | false => rfl

end Node

namespace Regex

/-- The regex of a text that stands for itself. -/
def literal (cs : List Char) : Regex := ⟨.literal cs, #[.literal cs]⟩

/-- The match of as many characters at a position, without groups. -/
def spanning (n p : Nat) : Match := ⟨p, p + n, [some ⟨p, p + n⟩]⟩

variable {cs : List Char} {w : Window} {chars : Array Char} {start stop : Nat}

theorem match?_literal {p : Nat} (hp : p ≤ w.stop) : (literal cs).match? w.stop p
    ((literal cs).attempt w (literal cs).blank p) =
      if w.spells p cs then some (spanning cs.length p) else none := by
  rw [attempt, show (literal cs).body = Node.literal cs from rfl, Node.run_literal]
  split
  · next h =>
    have hend : p + cs.length ≤ w.stop := ((Window.spells_iff hp).1 h).1
    simp [match?, blank, literal, spanning, hend]
  · rfl

/-- The search tries the positions in turn, so it comes to the first occurrence. -/
theorem searchFrom_literal : ∀ {n p : Nat}, p + n = w.stop →
    ∃ found, FirstOccurrence cs w.chars p w.stop found ∧
      (literal cs).searchFrom w (literal cs).blank p n = found.map (spanning cs.length)
  | 0, p, h => by
    have hp : p ≤ w.stop := Nat.le_of_eq h
    rw [searchFrom, match?_literal hp]
    split
    · next hspells =>
      exact ⟨some p, .found (Nat.le_refl p) ((Window.spells_iff hp).1 hspells) (by omega), rfl⟩
    · next hspells =>
      refine ⟨none, .missing fun q hq hat => ?_, rfl⟩
      have hend := hat.1
      obtain rfl : q = p := by omega
      exact hspells ((Window.spells_iff hp).2 hat)
  | n + 1, p, h => by
    have hp : p ≤ w.stop := by omega
    rw [searchFrom, match?_literal hp]
    split
    · next found hfound =>
      obtain ⟨hspells, heq⟩ := Option.ite_none_right_eq_some.1 hfound
      rw [← heq]
      exact ⟨some p, .found (Nat.le_refl p) ((Window.spells_iff hp).1 hspells) (by omega), rfl⟩
    · next hnone =>
      have hspells : ¬OccursAt cs w.chars w.stop p := by
        intro hat
        rw [if_pos ((Window.spells_iff hp).2 hat)] at hnone
        cases hnone
      obtain ⟨found, hfound, hsearch⟩ := searchFrom_literal (n := n) (p := p + 1) (by omega)
      exact ⟨found, hfound.step hspells, hsearch⟩

/-- A search for a text that stands for itself finds its first occurrence. -/
theorem search_literal (cs : List Char) (chars : Array Char) (start stop : Nat) :
    ∃ found, FirstOccurrence cs chars start stop found ∧
      (literal cs).search chars start stop = found.map (spanning cs.length) := by
  rw [search]
  split
  · next hle => exact searchFrom_literal (w := ⟨chars, stop, start⟩) (by simp; omega)
  · next hgt =>
    refine ⟨none, .missing fun q hq hat => ?_, rfl⟩
    have hend := hat.1
    omega

end Regex

/-! ## Reading -/

namespace GrammarPattern

/-- The tokens that a pattern starts with, and what follows them. -/
inductive Lexes (o : Options) (count : Nat) : List Char → List Token → List Char → Prop
  | nil {cs : List Char} : Lexes o count cs [] cs
  | cons {cs rest rest' : List Char} {t : Token} {ts : List Token}
      (h : lex o count cs = .ok (t, rest)) (hrest : Lexes o count rest ts rest') :
      Lexes o count cs (t :: ts) rest'

variable {o : Options} {count : Nat} {c : Char} {cs rest : List Char}

theorem skipFiller_eq (ho : o.extended = false) (h : c ≠ '(') (fuel : Nat) :
    skipFiller o.extended fuel (c :: rest) = .ok (c :: rest) := by
  rw [ho]
  cases fuel with
  | zero => rfl
  | succ fuel =>
    unfold skipFiller
    split <;> simp_all

/-- An escaped character with a meaning of its own loses it. -/
theorem lexEscape_special (h : isSpecial c = true) :
    lexEscape count c rest = .ok (.char c, rest) := by
  have hmem := List.contains_iff_mem.1 h
  simp only [List.mem_cons, List.not_mem_nil, or_false] at hmem
  rcases hmem with rfl | rfl | rfl | rfl | rfl | rfl | rfl | rfl | rfl | rfl | rfl | rfl | rfl |
    rfl | rfl | rfl | rfl | rfl
  all_goals rfl

/-- A character without a meaning of its own stands for itself, whatever follows it. -/
theorem lex_plain (ho : o.extended = false) (h : isSpecial c = false) :
    lex o count (c :: rest) = .ok (.char c, rest) := by
  have hopen : c ≠ '(' := by
    rintro rfl
    cases h
  unfold lex
  rw [skipFiller_eq ho hopen]
  dsimp only [bind, Except.bind]
  split
  case h_15 heq =>
    cases heq
    rfl
  -- the other tokens start with a special character
  all_goals
    rename_i heq
    cases heq <;> cases h

theorem lex_special (ho : o.extended = false) (h : isSpecial c = true) :
    lex o count ('\\' :: c :: rest) = .ok (.char c, rest) := by
  unfold lex
  rw [skipFiller_eq ho (by decide)]
  exact lexEscape_special h

theorem escapeText_cons : escapeText (c :: cs) =
    (if isSpecial c then ['\\', c] else [c]) ++ escapeText cs := List.flatMap_cons

/-- The text as a pattern begins with its first character. -/
theorem lex_escapeText (ho : o.extended = false) :
    lex o count (escapeText (c :: cs) ++ rest) = .ok (.char c, escapeText cs ++ rest) := by
  rw [escapeText_cons]
  cases h : isSpecial c with
  | true => exact lex_special ho h
  | false => exact lex_plain ho h

theorem lexes_escapeText (ho : o.extended = false) :
    Lexes o count (escapeText cs ++ rest) (cs.map .char) rest := by
  induction cs with
  | nil => exact .nil
  | cons c cs ih => exact .cons (lex_escapeText ho) ih

/-- No options are on where a pattern begins. -/
def noOptions : Options := ⟨false, false, false⟩

variable {r : Reader}

theorem peek_eq {t : Token × List Char} (h : lex r.options r.count r.rest = .ok t) :
    peek r = .ok (t, r) := by
  unfold peek
  rw [h]
  rfl

theorem peek_escapeText (ho : r.options = noOptions) :
    peek { r with rest := escapeText (c :: cs) } =
      .ok ((.char c, escapeText cs), { r with rest := escapeText (c :: cs) }) := by
  refine peek_eq ?_
  have h : lex r.options r.count (escapeText (c :: cs) ++ []) =
      .ok (.char c, escapeText cs ++ []) := lex_escapeText (by rw [ho]; rfl)
  rwa [List.append_nil, List.append_nil] at h

/-- Nothing that repeats a character follows. -/
theorem quantified_char (ho : r.options = noOptions) (fuel : Nat) (n : Node) :
    quantified (fuel + 1) n { r with rest := escapeText cs } =
      .ok (n, { r with rest := escapeText cs }) := by
  unfold quantified
  cases cs with
  | nil =>
    rfl
  | cons c cs =>
    have h : peek { r with rest := escapeText (c :: cs) } =
        .ok ((.char c, escapeText cs), { r with rest := escapeText (c :: cs) }) :=
      peek_escapeText ho
    simp only [bind, StateT.bind, h, Except.bind]
    rfl

theorem tokenNode_char (ho : r.options = noOptions) : tokenNode (.char c) r = .ok (.char c, r) := by
  have hchar : oneChar r.options c = .char c := by
    rw [ho]
    rfl
  rw [← hchar]
  rfl

theorem atom_char (ho : r.options = noOptions) (fuel : Nat) :
    atom (fuel + 2) (.char c) { r with rest := escapeText cs } =
      .ok (.char c, { r with rest := escapeText cs }) := by
  have hnode := tokenNode_char (r := { r with rest := escapeText cs }) (c := c) ho
  unfold atom
  simp only [bind, StateT.bind, hnode, Except.bind]
  exact quantified_char ho fuel (.char c)

theorem literal_cons (c : Char) (cs : List Char) : Node.literal (c :: cs) =
    match Node.literal cs with
    | .empty => .char c
    | more => .seq (.char c) more := by
  match cs with
  | [] => rfl
  | [d] => rfl
  | d :: d' :: cs => rfl

/-- Reading goes through the text character by character. -/
theorem branch_escapeText (ho : r.options = noOptions) : ∀ {cs : List Char} {fuel : Nat},
    cs.length + 2 ≤ fuel → branch fuel { r with rest := escapeText cs } =
      .ok (.literal cs, { r with rest := [] })
  | [], fuel + 1, _ => by
    unfold branch
    rfl
  | c :: cs, fuel + 3, hfuel => by
    have hpeek : peek { r with rest := escapeText (c :: cs) } =
        .ok ((.char c, escapeText cs), { r with rest := escapeText (c :: cs) }) :=
      peek_escapeText ho
    have hatom : atom (fuel + 2) (.char c) { r with rest := escapeText cs } =
        .ok (.char c, { r with rest := escapeText cs }) := atom_char ho fuel
    have hbranch : branch (fuel + 2) { r with rest := escapeText cs } =
        .ok (.literal cs, { r with rest := [] }) :=
      branch_escapeText ho (by simp at hfuel; omega)
    unfold branch
    simp only [bind, StateT.bind, hpeek, Except.bind, advance, modify, modifyGet,
      MonadStateOf.modifyGet, StateT.modifyGet, pure, Except.pure, hatom, hbranch]
    rw [literal_cons]
    cases hmore : Node.literal cs with
    | empty => rfl
    | _ => rfl

theorem alternatives_escapeText (ho : r.options = noOptions) {cs : List Char} {fuel : Nat}
    (hfuel : cs.length + 3 ≤ fuel) : alternatives fuel { r with rest := escapeText cs } =
      .ok (.literal cs, { r with rest := [] }) := by
  obtain ⟨fuel, rfl⟩ : ∃ n, fuel = n + 1 := ⟨fuel - 1, by omega⟩
  have hbranch : branch fuel { r with rest := escapeText cs } =
      .ok (.literal cs, { r with rest := [] }) := branch_escapeText ho (by omega)
  unfold alternatives
  simp only [bind, StateT.bind, hbranch, Except.bind]
  rfl

theorem length_le_escapeText (cs : List Char) : cs.length ≤ (escapeText cs).length := by
  induction cs with
  | nil => exact Nat.le_refl 0
  | cons c cs ih =>
    rw [escapeText_cons, List.length_append, List.length_cons]
    split
    · simp; omega
    · simp; omega

theorem readAll_escapeText (known : Option (List (String × Nat))) (cs : List Char) :
    readAll known (escapeText cs) = .ok (.literal cs, ⟨[], noOptions, 0, [], [], known⟩) := by
  have hlength := length_le_escapeText cs
  have h : alternatives (4 * (escapeText cs).length + 4)
      ⟨escapeText cs, noOptions, 0, [], [], known⟩ =
        .ok (.literal cs, ⟨[], noOptions, 0, [], [], known⟩) :=
    alternatives_escapeText (r := ⟨[], noOptions, 0, [], [], known⟩) rfl (by omega)
  unfold readAll
  simp only [StateT.run]
  change (alternatives (4 * (escapeText cs).length + 4)
    ⟨escapeText cs, noOptions, 0, [], [], known⟩ >>= _) = _
  rw [h]
  rfl

theorem exists?_literal {test : Node → Bool} (hempty : test .empty = false)
    (hchar : ∀ c, test (.char c) = false) (hseq : ∀ a b, test (.seq a b) = false) :
    ∀ cs : List Char, (Node.literal cs).exists? test = false
  | [] => hempty
  | [c] => hchar c
  | c :: c' :: cs => by
    have ih := exists?_literal hempty hchar hseq (c' :: cs)
    change (test _ || test (.char c) || (Node.literal (c' :: cs)).exists? test) = false
    rw [hseq, hchar, ih]
    rfl

theorem calls_literal : ∀ cs : List Char, calls (.literal cs) = []
  | [] => rfl
  | [_] => rfl
  | _ :: c' :: cs => calls_literal (c' :: cs)

end GrammarPattern

open GrammarPattern

theorem Regex.ofGrammarPattern_escapeText (cs : List Char) :
    Regex.ofGrammarPattern (String.ofList (escapeText cs)) = .ok (.literal cs) := by
  have hrefers : (Node.literal cs).exists? (refersBeyond 0) = false :=
    exists?_literal rfl (fun _ => rfl) (fun _ _ => rfl) cs
  unfold Regex.ofGrammarPattern
  simp only [String.toList_ofList, readAll_escapeText, bind, Except.bind, hrefers, calls_literal]
  rfl

theorem hasAnchors_escapeText : ∀ cs : List Char, hasAnchors (escapeText cs) = false
  | [] => rfl
  | c :: cs => by
    have ih := hasAnchors_escapeText cs
    rw [escapeText_cons]
    cases h : isSpecial c with
    | true =>
      have hA : c ≠ 'A' := by
        rintro rfl
        cases h
      have hG : c ≠ 'G' := by
        rintro rfl
        cases h
      change (c == 'A' || c == 'G' || hasAnchors (escapeText cs)) = false
      rw [ih]
      simp [hA, hG]
    | false =>
      have hne : c ≠ '\\' := by
        rintro rfl
        cases h
      change hasAnchors (c :: escapeText cs) = false
      unfold hasAnchors
      split
      · next heq => exact absurd (List.cons.inj heq).1 hne
      · next heq =>
        rw [← (List.cons.inj heq).2]
        exact ih
      · rfl

/-- The pattern of a text that stands for itself. -/
def Pattern.literal (cs : List Char) : Pattern :=
  ⟨String.ofList (escapeText cs), .literal cs, .literal cs, .literal cs, .literal cs⟩

theorem Pattern.compile_escapeText (cs : List Char) :
    Pattern.compile (String.ofList (escapeText cs)) = .ok (.literal cs) := by
  have hfull : compileText (String.ofList (escapeText cs)) = .ok (.literal cs) := by
    rw [compileText, Regex.ofGrammarPattern_escapeText]
  simp only [compile, hfull, bind, Except.bind, String.toList_ofList, isEmpty_anchorPlaces,
    hasAnchors_escapeText]
  rfl

theorem Pattern.search_literal (cs : List Char) (chars : Array Char) (start stop : Nat)
    (a : Anchors) : ∃ found, FirstOccurrence cs chars start stop found ∧
      (Pattern.literal cs).search chars start stop a = found.map (Regex.spanning cs.length) := by
  have hregex : (Pattern.literal cs).regex a = .literal cs := by
    obtain ⟨documentStart, lastMatch⟩ := a
    cases documentStart with
    | true => cases lastMatch with | true => rfl | false => rfl
    | false => cases lastMatch with | true => rfl | false => rfl
  rw [Pattern.search, hregex]
  exact Regex.search_literal cs chars start stop

/-! ## Ends that repeat captured text -/

/-- The text of the group that digits number, which is empty if there is no such group or it took no
part in the match. -/
def capturedText (text : Subject) (groups : List (Option Span)) (digits : List Char) : List Char :=
  match (Template.number? digits).bind fun i => (groups[i]?).join with
  | some s => (text.slice s.start s.stop).toList
  | none => []

theorem capturedPattern_eq (text : Subject) (groups : List (Option Span)) (digits : List Char) :
    capturedPattern text groups digits = escapeText (capturedText text groups digits) := by
  unfold capturedPattern capturedText
  cases (Template.number? digits).bind fun i => (groups[i]?).join with
  | none => rfl
  | some s => rfl

section

variable {ds : List Char}

theorem hasReferences_number (hne : ds ≠ []) (hdigits : ∀ d ∈ ds, Template.isDigit d = true) :
    hasReferences ('\\' :: ds) = true := by
  obtain ⟨d, ds, rfl⟩ := List.exists_cons_of_ne_nil hne
  have hd : startsWithDigit (d :: ds) = true := hdigits d List.mem_cons_self
  rw [hasReferences_cons, hd]
  rfl

/-- An end that is a reference and nothing else compiles. -/
theorem compileEnd_number (hne : ds ≠ []) (hdigits : ∀ d ∈ ds, Template.isDigit d = true) :
    compileEnd (String.ofList ('\\' :: ds)) = pure (.dynamic (String.ofList ('\\' :: ds))) := by
  have hdrop : dropReferences (String.ofList ('\\' :: ds)) = String.ofList (escapeText []) := by
    simp only [dropReferences, String.toList_ofList, List.length_cons]
    rw [replaceReferences_number hne hdigits]
    rfl
  unfold compileEnd
  rw [String.toList_ofList, hasReferences_number hne hdigits, if_pos rfl, hdrop,
    Pattern.compile_escapeText]
  rfl

theorem resolveReferences_number (hne : ds ≠ []) (hdigits : ∀ d ∈ ds, Template.isDigit d = true)
    (text : Subject) (groups : List (Option Span)) :
    resolveReferences (String.ofList ('\\' :: ds)) text groups =
      String.ofList (escapeText (capturedText text groups ds)) := by
  simp only [resolveReferences, String.toList_ofList, List.length_cons]
  rw [replaceReferences_number hne hdigits, capturedPattern_eq]

theorem Scan.resolveEnd_number (hne : ds ≠ []) (hdigits : ∀ d ∈ ds, Template.isDigit d = true)
    (w : Scan) (m : Match) : w.resolveEnd m (.dynamic (String.ofList ('\\' :: ds))) =
      .ok (some (.literal (capturedText w.text m.groups ds))) := by
  have hsource := resolveReferences_number hne hdigits w.text m.groups
  have hcompile := Pattern.compile_escapeText (capturedText w.text m.groups ds)
  unfold Scan.resolveEnd
  dsimp only
  rw [hsource, hcompile]

/-- Captured text matches as it is. With a backslash before the characters that have a meaning in a
pattern, any text is read as its characters one by one, before anything else, and as a whole
pattern it is the sequence of them. So an end that is a reference compiles, it can be resolved
behind every begin match, and a search for it finds the first occurrence of the captured text. -/
theorem captured_text_literal (hne : ds ≠ []) (hdigits : ∀ d ∈ ds, Template.isDigit d = true)
    (w : Scan) (m : Match) :
    (∀ cs : List Char,
      (∀ ignoreCase dotAll count rest, GrammarPattern.Lexes ⟨ignoreCase, dotAll, false⟩ count
        (escapeText cs ++ rest) (cs.map .char) rest) ∧
      Regex.ofGrammarPattern (String.ofList (escapeText cs)) = .ok (.literal cs)) ∧
    compileEnd (String.ofList ('\\' :: ds)) = pure (.dynamic (String.ofList ('\\' :: ds))) ∧
    ∃ p, w.resolveEnd m (.dynamic (String.ofList ('\\' :: ds))) = .ok (some p) ∧
      ∀ chars start stop a, ∃ found,
        FirstOccurrence (capturedText w.text m.groups ds) chars start stop found ∧
        p.search chars start stop a =
          found.map (Regex.spanning (capturedText w.text m.groups ds).length) :=
  ⟨fun cs => ⟨fun _ _ _ _ => GrammarPattern.lexes_escapeText rfl,
      Regex.ofGrammarPattern_escapeText cs⟩,
    compileEnd_number hne hdigits, _, Scan.resolveEnd_number hne hdigits w m,
    fun chars start stop a => Pattern.search_literal _ chars start stop a⟩

end

/-- Text between two marks that are the same. -/
def marksSource : RawGrammar :=
  { (default : RawGrammar) with
    scopeName := "source.t"
    patterns := [
      { (default : RawRule) with
        name := some "text"
        beginSource := some "<<(a.b)"
        endSource := some "\\1" }] }

/-- The grammar of such text. -/
def marks : Grammar := (Grammar.ofSource marksSource).toOption.get (by decide +kernel)

/-- The scan of a line on which such text begins. -/
def marksLine : Scan := marks.lineScan 1 "<<a.b"

/-- The match there, in which a group captured the mark. -/
def marksMatch : Match := ⟨0, 5, [some ⟨0, 5⟩, some ⟨2, 5⟩]⟩

/-- The dot of a mark is a dot in the line that ends the text. -/
theorem captured_text_literal_marks :
    ['1'] ≠ [] ∧ (∀ d ∈ ['1'], Template.isDigit d = true) ∧
    capturedText marksLine.text marksMatch.groups ['1'] = ['a', '.', 'b'] ∧
    compileEnd "\\1" = pure (.dynamic "\\1") ∧
    (∃ p, marksLine.resolveEnd marksMatch (.dynamic "\\1") = .ok (some p) ∧
      ∃ found, FirstOccurrence ['a', '.', 'b'] "axb a.b\n".toList.toArray 0 8 found ∧
        p.search "axb a.b\n".toList.toArray 0 8 ⟨false, false⟩ =
          found.map (Regex.spanning 3)) ∧
    (marks.tokenizeLinesWithin 1 .initial ["<<a.b", "axb a.b c"]).map (·.tokens) =
      [[⟨0, 5, ["source.t", "text"]⟩],
        [⟨0, 4, ["source.t", "text"]⟩, ⟨4, 7, ["source.t", "text"]⟩, ⟨7, 9, ["source.t"]⟩]] := by
  have hdigits : ∀ d ∈ ['1'], Template.isDigit d = true := List.forall_mem_singleton.2 rfl
  have htext : capturedText marksLine.text marksMatch.groups ['1'] = ['a', '.', 'b'] := by
    decide
  obtain ⟨-, hcompile, p, hresolve, hsearch⟩ :=
    captured_text_literal (List.cons_ne_nil _ _) hdigits marksLine marksMatch
  rw [htext] at hsearch
  exact ⟨List.cons_ne_nil _ _, hdigits, htext, hcompile, ⟨p, hresolve, hsearch _ _ _ _⟩,
    by decide +kernel⟩

end Highlight
