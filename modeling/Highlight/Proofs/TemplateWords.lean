import Mathlib.Data.Nat.Digits.Defs
import Mathlib.Data.List.Infix
import Highlight.Scope.Template
import Highlight.Proofs.BackReferences

/-!
# Templates expand word by word

A template becomes a text, whose words are the scope names that it expands to. `Template.Spells` says
how references to captured text are spelled, and `Template.Filled` what a template becomes where some
groups have a text. Neither says how references are looked for.

1. `Template.reference?_of_spells` and `Template.spells_of_reference?`: the reference that is found
   behind a dollar sign is the longest one that is spelled there.
2. `Template.filled_iff`: the pieces of a template, filled in, are the one text that it becomes.
3. `Template.expand_eq_words`: this is so for templates without references too, which are cut into
   words as they are written.
4. `Template.Filled.append_blank`: no reference goes on behind a blank, so what is before it and what
   is behind it become what they become alone. `Template.expand_wordwise` puts this together.
-/

namespace Highlight

namespace Template

/-! ## References -/

/-- What stands behind the number of a reference in braces. -/
def closing : CaseChange → List Char
  | .keep => []
  | .downcase => ":/downcase\x7d".toList
  | .upcase => ":/upcase\x7d".toList

/-- How the reference to a group is spelled that inserts its text with a change of case: without a
change by the number, with one in braces. -/
inductive Spells : (digits : List Char) → CaseChange → (spelling : List Char) → Prop
  | bare {digits : List Char} (hne : digits ≠ []) (hdigits : ∀ d ∈ digits, isDigit d = true) :
      Spells digits .keep ('$' :: digits)
  | braced {digits : List Char} {change : CaseChange} (hne : digits ≠ [])
      (hdigits : ∀ d ∈ digits, isDigit d = true) (hchange : change ≠ .keep) :
      Spells digits change ('$' :: '\x7b' :: digits ++ closing change)

variable {digits spelling rest cs : List Char} {change : CaseChange} {piece : TemplatePiece}

/-- A blank ends a reference. -/
theorem Spells.blank_notMem (h : Spells digits change spelling) : ' ' ∉ spelling := by
  have hblank : ∀ ds : List Char, (∀ d ∈ ds, isDigit d = true) → ' ' ∉ ds := by
    intro ds hds hmem
    exact absurd (hds _ hmem) (by decide)
  have hclosing : ' ' ∉ closing change := by cases change <;> decide
  cases h with
  | bare _ hdigits => simp [hblank _ hdigits]
  | braced _ hdigits => simp [hblank _ hdigits, hclosing]

theorem Spells.exists_cons (h : Spells digits change spelling) : ∃ tail, spelling = '$' :: tail := by
  cases h with
  | bare => exact ⟨_, rfl⟩
  | braced => exact ⟨_, rfl⟩

theorem Spells.ne_nil (h : Spells digits change spelling) : spelling ≠ [] := by
  obtain ⟨tail, rfl⟩ := h.exists_cons
  exact List.cons_ne_nil _ _

theorem takeWhile_isDigit_append (hdigits : ∀ d ∈ digits, isDigit d = true)
    (hrest : startsWithDigit rest = false) :
    (digits ++ rest).takeWhile isDigit = digits ∧ (digits ++ rest).dropWhile isDigit = rest := by
  have hhead : rest.takeWhile isDigit = [] := by
    rw [← List.isEmpty_iff, isEmpty_takeWhile_isDigit, hrest]
    rfl
  refine ⟨?_, ?_⟩
  · rw [List.takeWhile_append_of_pos hdigits, hhead, List.append_nil]
  · have hdrop := List.takeWhile_append_dropWhile (p := isDigit) (l := rest)
    rw [hhead, List.nil_append] at hdrop
    rw [List.dropWhile_append_of_pos hdigits, hdrop]

theorem startsWithDigit_dropWhile (cs : List Char) :
    startsWithDigit (cs.dropWhile isDigit) = false := by
  have hstop := List.head?_dropWhile_not isDigit cs
  rw [startsWithDigit]
  cases hhead : (cs.dropWhile isDigit).head? with
  | none => rfl
  | some c =>
    rw [hhead] at hstop
    exact hstop

/-- The reference in braces with a change of case, where the text behind the brace has one. -/
def braced? (change : CaseChange) (body : List Char) : Option (TemplatePiece × List Char) :=
  let digits := body.takeWhile isDigit
  let rest := body.dropWhile isDigit
  if (closing change).isPrefixOf rest then
    some (.reference ('$' :: '\x7b' :: digits ++ closing change) digits change,
      rest.drop (closing change).length)
  else none

theorem reference?_brace (body : List Char) : reference? ('\x7b' :: body) =
    if (body.takeWhile isDigit).isEmpty then none
    else (braced? .downcase body).or (braced? .upcase body) := rfl

theorem reference?_of_head (h : cs.head? ≠ some '\x7b') : reference? cs =
    if (cs.takeWhile isDigit).isEmpty then none
    else some (.reference ('$' :: cs.takeWhile isDigit) (cs.takeWhile isDigit) .keep,
      cs.dropWhile isDigit) := by
  unfold reference?
  split
  · exact absurd rfl h
  · rfl

theorem braced?_eq_some (h : braced? change cs = some (piece, rest)) :
    piece = .reference ('$' :: '\x7b' :: cs.takeWhile isDigit ++ closing change)
      (cs.takeWhile isDigit) change ∧ cs = cs.takeWhile isDigit ++ closing change ++ rest := by
  unfold braced? at h
  dsimp only at h
  split at h
  · rename_i hstarts
    obtain ⟨tail, htail⟩ := List.isPrefixOf_iff_prefix.1 hstarts
    rw [← htail, List.drop_left] at h
    cases h
    refine ⟨rfl, ?_⟩
    rw [List.append_assoc, htail, List.takeWhile_append_dropWhile]
  · cases h

/-- Braces close with a colon behind the number. -/
theorem startsWithDigit_closing (hchange : change ≠ .keep) (rest : List Char) :
    startsWithDigit (closing change ++ rest) = false := by
  cases change with
  | keep => exact absurd rfl hchange
  | downcase => rfl
  | upcase => rfl

theorem braced?_closing (hdigits : ∀ d ∈ digits, isDigit d = true) (hchange : change ≠ .keep)
    (rest : List Char) : braced? change (digits ++ (closing change ++ rest)) =
      some (.reference ('$' :: '\x7b' :: digits ++ closing change) digits change, rest) := by
  obtain ⟨htake, hdrop⟩ :=
    takeWhile_isDigit_append hdigits (startsWithDigit_closing hchange rest)
  unfold braced?
  rw [htake, hdrop, if_pos (List.isPrefixOf_iff_prefix.2 (List.prefix_append _ _)), List.drop_left]

/-- The reference that is found behind a dollar sign is one that is spelled there, and no digits are
left behind its number. -/
theorem spells_of_reference? (h : reference? cs = some (piece, rest)) :
    ∃ digits change spelling, piece = .reference spelling digits change ∧
      Spells digits change spelling ∧ (change = .keep → startsWithDigit rest = false) ∧
      '$' :: cs = spelling ++ rest := by
  have hdigits : ∀ (ds : List Char), ∀ d ∈ ds.takeWhile isDigit, isDigit d = true :=
    fun ds d hd => List.mem_takeWhile_imp hd
  by_cases hhead : cs.head? = some '\x7b'
  · obtain ⟨body, rfl⟩ := List.head?_eq_some_iff.1 hhead
    rw [reference?_brace] at h
    split at h
    · cases h
    · rename_i hempty
      have hne : body.takeWhile isDigit ≠ [] := mt List.isEmpty_iff.2 hempty
      have hfound : ∃ change, change ≠ .keep ∧ braced? change body = some (piece, rest) := by
        rcases Option.or_eq_some_iff.1 h with h | ⟨-, h⟩
        · exact ⟨.downcase, by decide, h⟩
        · exact ⟨.upcase, by decide, h⟩
      obtain ⟨change, hchange, hbraced⟩ := hfound
      obtain ⟨hpiece, hbody⟩ := braced?_eq_some hbraced
      refine ⟨_, change, _, hpiece, .braced hne (hdigits body) hchange,
        fun heq => absurd heq hchange, ?_⟩
      exact congrArg ('$' :: '\x7b' :: ·) hbody
  · rw [reference?_of_head hhead] at h
    split at h
    · cases h
    · rename_i hempty
      cases h
      refine ⟨_, .keep, _, rfl, .bare (mt List.isEmpty_iff.2 hempty) (hdigits cs),
        fun _ => startsWithDigit_dropWhile cs, ?_⟩
      rw [List.cons_append, List.takeWhile_append_dropWhile]

/-- A reference that is as long as it can be is found where it is spelled. -/
theorem reference?_of_spells (h : Spells digits change spelling)
    (hlongest : change = .keep → startsWithDigit rest = false) (hcs : '$' :: cs = spelling ++ rest) :
    reference? cs = some (.reference spelling digits change, rest) := by
  cases h with
  | bare hne hdigits =>
    obtain ⟨d, ds, rfl⟩ := List.exists_cons_of_ne_nil hne
    cases hcs
    have hhead : (d :: ds ++ rest).head? ≠ some '\x7b' := by
      rintro heq
      cases heq
      exact absurd (hdigits '\x7b' List.mem_cons_self) (by decide)
    obtain ⟨htake, hdrop⟩ := takeWhile_isDigit_append hdigits (hlongest rfl)
    show reference? (d :: ds ++ rest) = _
    rw [reference?_of_head hhead, htake, hdrop]
    rfl
  | braced hne hdigits hchange =>
    simp only [List.cons_append, List.append_assoc] at hcs
    cases hcs
    show reference? ('\x7b' :: (digits ++ (closing change ++ rest))) = _
    have htake := (takeWhile_isDigit_append hdigits (startsWithDigit_closing hchange rest)).1
    have hfound := braced?_closing hdigits hchange rest
    rw [reference?_brace, htake, if_neg (mt List.isEmpty_iff.1 hne)]
    cases change with
    | keep => exact absurd rfl hchange
    | downcase => rw [hfound, Option.some_or]
    | upcase =>
      have hother : braced? .downcase (digits ++ (closing .upcase ++ rest)) = none := by
        unfold braced?
        rw [(takeWhile_isDigit_append hdigits (startsWithDigit_closing hchange rest)).2]
        rfl
      rw [hother, hfound, Option.none_or]

/-- Digits behind the number of a reference make it longer. -/
theorem Spells.exists_longest (h : Spells digits change spelling) (rest : List Char) :
    ∃ digits' spelling' rest', Spells digits' change spelling' ∧
      (change = .keep → startsWithDigit rest' = false) ∧ spelling ++ rest = spelling' ++ rest' := by
  cases h with
  | bare hne hdigits =>
    refine ⟨digits ++ rest.takeWhile isDigit, _, rest.dropWhile isDigit,
      .bare (List.append_ne_nil_of_left_ne_nil hne _) fun d hd => ?_,
      fun _ => startsWithDigit_dropWhile rest, ?_⟩
    · exact (List.mem_append.1 hd).elim (hdigits d) List.mem_takeWhile_imp
    · rw [List.cons_append, List.cons_append, List.append_assoc, List.takeWhile_append_dropWhile]
  | braced hne hdigits hchange =>
    exact ⟨_, _, rest, .braced hne hdigits hchange, fun heq => absurd heq hchange, rfl⟩

/-- No reference is found only where none is spelled. -/
theorem reference?_eq_none_iff : reference? cs = none ↔
    ∀ digits change spelling, Spells digits change spelling → ¬spelling <+: '$' :: cs := by
  constructor
  · rintro hnone digits change spelling h ⟨rest, hrest⟩
    obtain ⟨digits', spelling', rest', h', hlongest, hcs⟩ := h.exists_longest rest
    have hsome := reference?_of_spells h' hlongest (hrest.symm.trans hcs)
    rw [hnone] at hsome
    cases hsome
  · intro hkept
    cases hfound : reference? cs with
    | none => rfl
    | some found =>
      obtain ⟨piece, rest⟩ := found
      obtain ⟨digits, change, spelling, -, h, -, hcs⟩ := spells_of_reference? hfound
      exact absurd ⟨rest, hcs.symm⟩ (hkept digits change spelling h)

/-! ## What templates become -/

/-- A template becomes a text: from left to right, each reference to a group of which something is
known becomes its text, which is not read again, and all else stays as written, references to other
groups among it. A reference is as long as it can be. -/
inductive Filled (known : List Char → Option String) : (template out : List Char) → Prop
  | nil : Filled known [] []
  | inserted {digits spelling rest out : List Char} {change : CaseChange} {s : String}
      (hspells : Spells digits change spelling)
      (hlongest : change = .keep → startsWithDigit rest = false) (hknown : known digits = some s)
      (h : Filled known rest out) : Filled known (spelling ++ rest) ((change.apply s).toList ++ out)
  | unknown {digits spelling rest out : List Char} {change : CaseChange}
      (hspells : Spells digits change spelling)
      (hlongest : change = .keep → startsWithDigit rest = false) (hknown : known digits = none)
      (h : Filled known rest out) : Filled known (spelling ++ rest) (spelling ++ out)
  | kept {cs out : List Char} {c : Char}
      (hkept : ∀ digits change spelling, Spells digits change spelling → ¬spelling <+: c :: cs)
      (h : Filled known cs out) : Filled known (c :: cs) (c :: out)

/-- The captured text of the group that digits name, without leading dots. -/
def groupText (text : Subject) (groups : List (Option Span)) (digits : List Char) : Option String :=
  ((number? digits).bind fun i => (groups[i]?).join).map (captured text)

section Pieces

variable {text : Subject} {groups : List (Option Span)} {out out' a b : List Char} {s : String}

theorem fill_of_known (h : groupText text groups digits = some s) :
    fill text groups (.reference spelling digits change) = (change.apply s).toList := by
  obtain ⟨span, hspan, rfl⟩ := Option.map_eq_some_iff.1 h
  rw [fill, hspan]

theorem fill_of_unknown (h : groupText text groups digits = none) :
    fill text groups (.reference spelling digits change) = spelling := by
  rw [fill, Option.map_eq_none_iff.1 h]

theorem piecesFrom_reference {fuel : Nat} (h : reference? cs = some (piece, rest)) :
    piecesFrom (fuel + 1) ('$' :: cs) = piece :: piecesFrom fuel rest := by
  simp [piecesFrom, h]

theorem piecesFrom_text {fuel : Nat} {c : Char} (h : c = '$' → reference? cs = none) :
    piecesFrom (fuel + 1) (c :: cs) = .text c :: piecesFrom fuel cs := by
  by_cases hc : c = '$'
  · simp [piecesFrom, hc, h hc]
  · simp [piecesFrom, hc]

/-- The pieces of a template, filled in, are what the template becomes. -/
theorem filled_piecesFrom (text : Subject) (groups : List (Option Span)) :
    ∀ (fuel : Nat) (cs : List Char), cs.length ≤ fuel →
      Filled (groupText text groups) cs ((piecesFrom fuel cs).flatMap (fill text groups))
  | 0, cs, h => by
    cases List.length_eq_zero_iff.1 (Nat.le_zero.1 h)
    exact .nil
  | _ + 1, [], _ => .nil
  | fuel + 1, c :: cs, h => by
    have hlength : cs.length ≤ fuel := Nat.le_of_succ_le_succ h
    by_cases hfound : c = '$' ∧ (reference? cs).isSome
    · obtain ⟨rfl, hsome⟩ := hfound
      obtain ⟨⟨piece, rest⟩, hfound⟩ := Option.isSome_iff_exists.1 hsome
      obtain ⟨digits, change, spelling, rfl, hspells, hlongest, hcs⟩ := spells_of_reference? hfound
      have hrest : rest.length ≤ fuel := by
        obtain ⟨tail, rfl⟩ := hspells.exists_cons
        have hlength := congrArg List.length hcs
        simp only [List.length_cons, List.length_append] at hlength h
        omega
      have ih := filled_piecesFrom text groups fuel rest hrest
      rw [piecesFrom_reference hfound, List.flatMap_cons, hcs]
      cases hknown : groupText text groups digits with
      | some s =>
        rw [fill_of_known hknown]
        exact .inserted hspells hlongest hknown ih
      | none =>
        rw [fill_of_unknown hknown]
        exact .unknown hspells hlongest hknown ih
    · have hnone : c = '$' → reference? cs = none := fun hc =>
        Option.not_isSome_iff_eq_none.1 fun hsome => hfound ⟨hc, hsome⟩
      rw [piecesFrom_text hnone, List.flatMap_cons]
      refine .kept (fun digits change spelling hspells hstarts => ?_)
        (filled_piecesFrom text groups fuel cs hlength)
      obtain ⟨tail, rfl⟩ := hspells.exists_cons
      obtain ⟨rfl, -⟩ := List.cons_prefix_cons.1 hstarts
      exact reference?_eq_none_iff.1 (hnone rfl) digits change _ hspells hstarts

theorem Spells.piecesFrom_append (h : Spells digits change spelling)
    (hlongest : change = .keep → startsWithDigit rest = false) (fuel : Nat) :
    piecesFrom (fuel + 1) (spelling ++ rest) =
      .reference spelling digits change :: piecesFrom fuel rest := by
  obtain ⟨tail, rfl⟩ := h.exists_cons
  exact piecesFrom_reference (reference?_of_spells h hlongest rfl)

/-- What a template becomes is determined. -/
theorem Filled.eq_flatMap (h : Filled (groupText text groups) cs out) :
    ∀ {fuel : Nat}, cs.length ≤ fuel → out = (piecesFrom fuel cs).flatMap (fill text groups) := by
  -- a template that is not empty leaves fuel for its first piece and for what is behind it
  have hfuel : ∀ {spelling rest : List Char} {fuel : Nat}, spelling ≠ [] →
      (spelling ++ rest).length ≤ fuel → ∃ less, fuel = less + 1 ∧ rest.length ≤ less := by
    intro spelling rest fuel hne hle
    have hpos := List.length_pos_of_ne_nil hne
    rw [List.length_append] at hle
    exact ⟨fuel - 1, by omega, by omega⟩
  induction h with
  | nil =>
    intro fuel _
    cases fuel <;> rfl
  | inserted hspells hlongest hknown _ ih =>
    intro fuel hle
    obtain ⟨less, rfl, hrest⟩ := hfuel hspells.ne_nil hle
    rw [hspells.piecesFrom_append hlongest, List.flatMap_cons, fill_of_known hknown, ← ih hrest]
  | unknown hspells hlongest hknown _ ih =>
    intro fuel hle
    obtain ⟨less, rfl, hrest⟩ := hfuel hspells.ne_nil hle
    rw [hspells.piecesFrom_append hlongest, List.flatMap_cons, fill_of_unknown hknown, ← ih hrest]
  | @kept cs out c hkept _ ih =>
    intro fuel hle
    obtain ⟨less, rfl, hrest⟩ := hfuel (List.cons_ne_nil c []) hle
    have hnone : c = '$' → reference? cs = none := by
      rintro rfl
      exact reference?_eq_none_iff.2 hkept
    rw [piecesFrom_text hnone, List.flatMap_cons, ← ih hrest]
    rfl

end Pieces

/-! ## Words -/

theorem startsWithDigit_append_blank (h : startsWithDigit rest = false) (b : List Char) :
    startsWithDigit (rest ++ ' ' :: b) = false := by
  cases rest with
  | nil =>
    show isDigit ' ' = false
    decide
  | cons c rest => exact h

/-- No reference goes on behind a blank. -/
theorem Spells.prefix_of_append_blank (h : Spells digits change spelling) {b : List Char}
    (hstarts : spelling <+: cs ++ ' ' :: b) : spelling <+: cs := by
  by_cases hle : spelling.length ≤ cs.length
  · exact List.prefix_of_prefix_length_le hstarts (List.prefix_append _ _) hle
  · have hblank : cs ++ [' '] <+: spelling := by
      refine List.prefix_of_prefix_length_le ⟨b, by simp⟩ hstarts ?_
      rw [List.length_append, List.length_singleton]
      omega
    exact absurd (hblank.subset (by simp)) h.blank_notMem

/-- A blank ends a template: what is before it and what is behind it become what they become
alone. -/
theorem Filled.append_blank {known : List Char → Option String} {a b out out' : List Char}
    (h : Filled known a out) (h' : Filled known b out') :
    Filled known (a ++ ' ' :: b) (out ++ ' ' :: out') := by
  induction h with
  | nil =>
    refine .kept (fun digits change spelling hspells hstarts => ?_) h'
    obtain ⟨tail, rfl⟩ := hspells.exists_cons
    exact absurd (List.cons_prefix_cons.1 hstarts).1 (by decide)
  | inserted hspells hlongest hknown _ ih =>
    rw [List.append_assoc, List.append_assoc]
    exact .inserted hspells (fun heq => startsWithDigit_append_blank (hlongest heq) b) hknown ih
  | unknown hspells hlongest hknown _ ih =>
    rw [List.append_assoc, List.append_assoc]
    exact .unknown hspells (fun heq => startsWithDigit_append_blank (hlongest heq) b) hknown ih
  | kept hkept _ ih =>
    exact .kept (fun digits change spelling hspells hstarts =>
      hkept digits change spelling hspells (hspells.prefix_of_append_blank hstarts)) ih

end Template

namespace Blank

theorem wordsFrom_append_blank (word a b : List Char) :
    wordsFrom word (a ++ ' ' :: b) = wordsFrom word a ++ wordsFrom [] b := by
  have hblank : Property.isWhiteSpace ' ' = true := by decide
  induction a generalizing word with
  | nil =>
    rw [List.nil_append, wordsFrom.eq_2, if_pos hblank, wordsFrom.eq_1]
    split <;> rfl
  | cons c a ih =>
    rw [List.cons_append, wordsFrom, wordsFrom]
    split
    · split
      · exact ih []
      · rw [ih, List.cons_append]
    · exact ih (c :: word)

theorem words_append_blank (a b : List Char) : words (String.ofList (a ++ ' ' :: b)) =
    words (String.ofList a) ++ words (String.ofList b) := by
  simp only [words, String.toList_ofList, wordsFrom_append_blank, List.map_append]

end Blank

namespace Template

/-- The number that digits write in base ten, if it fits 64 bits. -/
def Writes (digits : List Char) (n : Nat) : Prop :=
  digits ≠ [] ∧ (∀ d ∈ digits, d.isDigit = true) ∧
    Nat.ofDigits 10 (digits.reverse.map fun d => d.toNat - 48) = n ∧ n < 2 ^ 64

theorem number?_eq_some_iff {digits : List Char} {n : Nat} :
    number? digits = some n ↔ Writes digits n := by
  have hvalue : digits.foldl (fun n c => n * 10 + (c.toNat - 48)) 0 =
      Nat.ofDigits 10 (digits.reverse.map fun d => d.toNat - 48) := by
    rw [Nat.ofDigits_eq_foldr, List.foldr_map, List.foldr_reverse]
    simp only [Nat.cast_id, Nat.mul_comm 10, Nat.add_comm]
  have hdigits : (!digits.isEmpty && digits.all Char.isDigit) = true ↔
      digits ≠ [] ∧ ∀ d ∈ digits, d.isDigit = true := by
    simp [List.all_eq_true]
  rw [number?, hvalue, Writes, ← and_assoc, ← hdigits]
  generalize Nat.ofDigits 10 (digits.reverse.map fun d => d.toNat - 48) = value
  split
  · rename_i hall
    show (if value < 2 ^ 64 then some value else none) = some n ↔ _
    rw [Option.ite_none_right_eq_some, Option.some_inj, and_iff_right hall, and_comm]
    exact and_congr_right fun heq => by rw [heq]
  · rename_i hnot
    simp [hnot]

theorem toList_captured (line : String) (s : Span) : (captured (.ofString line) s).toList =
    ((line.toList.drop s.start).take (s.stop - s.start)).dropWhile (· == '.') := by
  simp [captured, Subject.slice, Subject.ofString, Subject.ofList, List.extract_eq_take_drop]

theorem groupText_eq_some_iff {line : String} {groups : List (Option Span)} {digits : List Char}
    {s : String} : groupText (.ofString line) groups digits = some s ↔
      ∃ i span, Writes digits i ∧ groups[i]? = some (some span) ∧
        s.toList = ((line.toList.drop span.start).take (span.stop - span.start)).dropWhile
          (· == '.') := by
  rw [groupText, Option.map_eq_some_iff]
  constructor
  · rintro ⟨span, hspan, rfl⟩
    obtain ⟨i, hi, hgroup⟩ := Option.bind_eq_some_iff.1 hspan
    exact ⟨i, span, number?_eq_some_iff.1 hi, Option.join_eq_some_iff.1 hgroup,
      toList_captured line span⟩
  · rintro ⟨i, span, hi, hgroup, hs⟩
    refine ⟨span, ?_, String.toList_inj.1 ((toList_captured line span).trans hs.symm)⟩
    rw [number?_eq_some_iff.2 hi, Option.bind_some, hgroup]
    rfl

/-- A template without references becomes itself. -/
theorem flatMap_fill_of_text (text : Subject) (groups : List (Option Span)) :
    ∀ {fuel : Nat} {cs : List Char}, cs.length ≤ fuel →
      (piecesFrom fuel cs).any (·.isReference) = false →
      (piecesFrom fuel cs).flatMap (fill text groups) = cs
  | 0, cs, h, _ => by
    cases List.length_eq_zero_iff.1 (Nat.le_zero.1 h)
    rfl
  | _ + 1, [], _, _ => rfl
  | fuel + 1, c :: cs, h, hnone => by
    have hpiece : c = '$' → reference? cs = none := by
      rintro rfl
      cases hfound : reference? cs with
      | none => rfl
      | some found =>
        obtain ⟨piece, rest⟩ := found
        obtain ⟨_, _, _, rfl, -⟩ := spells_of_reference? hfound
        rw [piecesFrom_reference hfound] at hnone
        cases hnone
    rw [piecesFrom_text hpiece] at hnone ⊢
    exact congrArg (c :: ·) (flatMap_fill_of_text text groups (Nat.le_of_succ_le_succ h) hnone)

/-- With references or without them, a template expands to the words of what it becomes. -/
theorem expand_eq_words (template : String) (text : Subject) (groups : List (Option Span)) :
    expand template text groups =
      Blank.words (String.ofList ((pieces template).flatMap (fill text groups))) := by
  unfold expand
  dsimp only
  split
  · rfl
  · rename_i hnone
    rw [pieces, flatMap_fill_of_text text groups (Nat.le_refl _) (Bool.eq_false_iff.2 hnone),
      String.ofList_toList]

theorem filled_iff {text : Subject} {groups : List (Option Span)} {template : String}
    {out : List Char} : Filled (groupText text groups) template.toList out ↔
      out = (pieces template).flatMap (fill text groups) := by
  constructor
  · exact fun h => h.eq_flatMap (Nat.le_refl _)
  · rintro rfl
    exact filled_piecesFrom text groups _ _ (Nat.le_refl _)

theorem flatMap_fill_append_blank (a b : String) (text : Subject) (groups : List (Option Span)) :
    (pieces (a ++ " " ++ b)).flatMap (fill text groups) =
      (pieces a).flatMap (fill text groups) ++ ' ' :: (pieces b).flatMap (fill text groups) := by
  have hblank : (a ++ " " ++ b).toList = a.toList ++ ' ' :: b.toList := by
    rw [String.toList_append, String.toList_append, List.append_assoc]
    rfl
  refine (filled_iff.1 ?_).symm
  rw [hblank]
  exact (filled_iff.2 rfl).append_blank (filled_iff.2 rfl)

/-- Templates expand word by word. Two of them with a blank between them expand to what the first
one and then the second one expands to, whether they have references or not. A template expands to
the words of what it becomes (`Filled`), where the digits of a reference name a group if they write
a number below `2 ^ 64` whose group is there and took part. -/
theorem expand_wordwise (line : String) (groups : List (Option Span)) :
    let text := Subject.ofString line
    (∀ a b : String, expand (a ++ " " ++ b) text groups =
      expand a text groups ++ expand b text groups) ∧
    (∀ template : String, ∃ out : List Char,
      (∀ out', Filled (groupText text groups) template.toList out' ↔ out' = out) ∧
      expand template text groups = Blank.words (String.ofList out)) ∧
    ∀ (digits : List Char) (s : String), groupText text groups digits = some s ↔
      ∃ i span, Writes digits i ∧ groups[i]? = some (some span) ∧
        s.toList = ((line.toList.drop span.start).take (span.stop - span.start)).dropWhile
          (· == '.') := by
  intro text
  refine ⟨fun a b => ?_, fun template => ⟨_, fun out' => filled_iff, ?_⟩, fun digits s => ?_⟩
  · rw [expand_eq_words, expand_eq_words, expand_eq_words, flatMap_fill_append_blank,
      Blank.words_append_blank]
  · exact expand_eq_words template text groups
  · exact groupText_eq_some_iff

end Template

end Highlight
