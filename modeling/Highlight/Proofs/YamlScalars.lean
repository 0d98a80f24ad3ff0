import Mathlib.Data.List.TakeWhile
import Highlight.Data.Yaml.Token
import Highlight.Proofs.WrittenValues

/-!
# Scalars of YAML that are read back

`Yaml.quoted` writes a text between quotes, spaces and most other characters as they are, and
`Yaml.quotedScalar` reads the text back (`quotedScalar_quoted`). A word of letters, digits and
hyphens is read without quotes up to where a flow collection goes on (`plainScalar_word`).
-/

namespace Highlight.Yaml

/-! ## Cursors -/

namespace Cursor

@[simp] theorem steps_rest (c : Cursor) (n : Nat) : (c.steps n).rest = c.rest.drop n := by
  induction n generalizing c with
  | zero => rfl
  | succ n ih =>
    show (c.step.steps n).rest = _
    rw [ih, step, List.drop_drop, Nat.add_comm]

@[simp] theorem steps_column (c : Cursor) (n : Nat) : (c.steps n).column = c.column + n := by
  induction n generalizing c with
  | zero => rfl
  | succ n ih =>
    show (c.step.steps n).column = _
    rw [ih]
    show c.column + 1 + n = _
    omega

theorem steps_add (c : Cursor) (m n : Nat) : c.steps (m + n) = (c.steps m).steps n := by
  induction m generalizing c with
  | zero => rw [Nat.zero_add]; rfl
  | succ m ih =>
    rw [Nat.succ_add]
    exact ih c.step

theorem steps_succ (c : Cursor) (n : Nat) : c.steps (n + 1) = (c.steps n).step := steps_add c n 1

variable {c : Cursor} {cs rest : List Char}

theorem column_pos_steps (h : 0 < c.column) (n : Nat) : 0 < (c.steps n).column := by
  rw [steps_column]
  omega

theorem steps_rest_append (h : c.rest = cs ++ rest) : (c.steps cs.length).rest = rest := by
  rw [steps_rest, h, List.drop_left]

/-- A line that bounds a document starts with its first column. -/
theorem atDocumentBound_eq_false (h : 0 < c.column) : c.atDocumentBound = false := by
  have hcolumn : (c.column == 0) = false := beq_eq_false_iff_ne.2 (Nat.ne_of_gt h)
  simp [atDocumentBound, atMarker, hcolumn]

end Cursor

/-! ## Writing -/

/-- The letter that stands for a character after a backslash. -/
def letter? : Char → Option Char
  | '"' => some '"'
  | '\\' => some '\\'
  | '\t' => some 't'
  | '\n' => some 'n'
  | '\r' => some 'r'
  | _ => none

/-- A character between quotes. -/
def escaped (c : Char) : List Char :=
  match letter? c with
  | some e => ['\\', e]
  | none => if isAllowed c && !isBreak c then [c] else '\\' :: 'U' :: Numeral.hexDigits 8 c.toNat

/-- A text between quotes. -/
def quoted (cs : List Char) : List Char := '"' :: (cs.flatMap escaped ++ ['"'])

/-! ## Characters between quotes -/

theorem letter?_eq_some {c e : Char} (h : letter? c = some e) :
    escape? e = some c ∧ isBreak e = false := by
  unfold letter? at h
  split at h <;> cases h <;> decide

/-- What a run of a quoted scalar does not end before. -/
def isInner (c : Char) : Bool := !(isBlank c || isBreak c) && c != '"'

theorem isInner_of_letter?_eq_none {c : Char} (h : letter? c = none) (hspace : c ≠ ' ')
    (hbreak : isBreak c = false) : isInner c = true ∧ c ≠ '\\' := by
  have hne : ∀ d, letter? d ≠ none → c ≠ d := fun d hd heq => hd (heq ▸ h)
  refine ⟨?_, hne '\\' (by decide)⟩
  simp [isInner, isBlank, hbreak, hspace, hne '\t' (by decide), hne '"' (by decide)]

theorem exists_escaped {c : Char} (h : c ≠ ' ') :
    ∃ d ds, escaped c = d :: ds ∧ isInner d = true := by
  unfold escaped
  cases hletter : letter? c with
  | some e => exact ⟨_, _, rfl, by decide⟩
  | none =>
    dsimp only
    split_ifs with hbare
    · rw [Bool.and_eq_true, Bool.not_eq_true'] at hbare
      exact ⟨c, [], rfl, (isInner_of_letter?_eq_none hletter h hbare.2).1⟩
    · exact ⟨_, _, rfl, by decide⟩

theorem escaped_ne_nil (c : Char) : escaped c ≠ [] := by
  by_cases hc : c = ' '
  · rw [hc]
    exact List.cons_ne_nil _ _
  · obtain ⟨d, ds, hwritten, -⟩ := exists_escaped hc
    rw [hwritten]
    exact List.cons_ne_nil d ds

section Run

variable {fuel : Nat} {acc : List Char} {c : Cursor} {rest : List Char}

theorem quotedRun_bare {x : Char} (h : c.rest = x :: rest) (hx : isInner x = true)
    (hne : x ≠ '\\') : quotedRun true (fuel + 1) acc c = quotedRun true fuel (x :: acc) c.step := by
  simp only [isInner, Bool.and_eq_true, Bool.not_eq_true', bne_iff_ne] at hx
  simp [quotedRun, h, hx.1, hx.2, hne]

theorem quotedRun_letter {e x : Char} (h : c.rest = '\\' :: e :: rest) (he : escape? e = some x)
    (hbreak : isBreak e = false) :
    quotedRun true (fuel + 1) acc c = quotedRun true fuel (x :: acc) (c.steps 2) := by
  have hslash : (isBlank '\\' || isBreak '\\') = false := by decide
  simp [quotedRun, h, hslash, he, hbreak]

theorem quotedRun_code {ds : List Char} {x : Char} (h : c.rest = '\\' :: 'U' :: (ds ++ rest))
    (hlength : ds.length = 8) (hx : (Numeral.value? 16 ds).bind Numeral.character? = some x) :
    quotedRun true (fuel + 1) acc c = quotedRun true fuel (x :: acc) (c.steps 10) := by
  have hslash : (isBlank '\\' || isBreak '\\') = false := by decide
  have hbreak : isBreak 'U' = false := by decide
  have hescape : escape? 'U' = none := by decide
  have hcode : codeLength? 'U' = some 8 := by decide
  have htake : (ds ++ rest).take 8 = ds := by rw [← hlength, List.take_left]
  simp [quotedRun, h, hslash, hbreak, hescape, hcode, htake, hlength, hx]

/-- A character between quotes, other than a space, is read as itself. -/
theorem quotedRun_escaped {x : Char} (hx : x ≠ ' ') (h : c.rest = escaped x ++ rest) :
    quotedRun true (fuel + 1) acc c =
      quotedRun true fuel (x :: acc) (c.steps (escaped x).length) := by
  unfold escaped at h ⊢
  cases hletter : letter? x with
  | some e =>
    obtain ⟨hescape, hbreak⟩ := letter?_eq_some hletter
    rw [hletter] at h
    exact quotedRun_letter h hescape hbreak
  | none =>
    rw [hletter] at h
    dsimp only at h ⊢
    split_ifs at h ⊢ with hbare
    · rw [Bool.and_eq_true, Bool.not_eq_true'] at hbare
      obtain ⟨hinner, hne⟩ := isInner_of_letter?_eq_none hletter hx hbare.2
      exact quotedRun_bare h hinner hne
    · have hlength := Numeral.length_hexDigits 8 x.toNat
      have hsmall : x.toNat < 16 ^ 8 := by
        have hvalid : x.toNat < 0xD800 ∨ 0xDFFF < x.toNat ∧ x.toNat < 0x110000 := x.valid
        omega
      have hread : (Numeral.value? 16 (Numeral.hexDigits 8 x.toNat)).bind Numeral.character? =
          some x := by
        rw [Numeral.value?_hexDigits (by decide) hsmall, Option.bind_some,
          Numeral.character?_toNat]
      rw [quotedRun_code h hlength hread, List.length_cons, List.length_cons, hlength]

/-- A run ends before a space and before the quote. -/
theorem quotedRun_ends {y : Char} (h : c.rest = y :: rest) (hy : y = ' ' ∨ y = '"') :
    quotedRun true (fuel + 1) acc c = some (acc, false, c) := by
  rw [quotedRun]
  rcases hy with rfl | rfl <;> simp [h, isBlank, isBreak]

/-- Characters without spaces are read up to a space or the quote. -/
theorem quotedRun_flatMap {y : Char} (hy : y = ' ' ∨ y = '"') : ∀ (cs : List Char) (fuel : Nat)
    (acc : List Char) (c : Cursor), (∀ x ∈ cs, x ≠ ' ') → cs.length < fuel →
      c.rest = cs.flatMap escaped ++ y :: rest →
      quotedRun true fuel acc c =
        some (cs.reverse ++ acc, false, c.steps (cs.flatMap escaped).length)
  | [], fuel + 1, acc, c, _, _, h => quotedRun_ends h hy
  | x :: cs, fuel + 1, acc, c, hspace, hfuel, h => by
    rw [List.flatMap_cons, List.append_assoc] at h
    have hrest := Cursor.steps_rest_append h
    rw [quotedRun_escaped (hspace x List.mem_cons_self) h,
      quotedRun_flatMap hy cs fuel (x :: acc) _ (fun z hz => hspace z (List.mem_cons_of_mem _ hz))
        (Nat.lt_of_succ_lt_succ hfuel) hrest,
      ← Cursor.steps_add, List.flatMap_cons, List.length_append, List.reverse_cons,
      List.append_assoc]
    rfl

end Run

/-! ## Spaces between quotes -/

theorem flatMap_replicate_space (n : Nat) :
    (List.replicate n ' ').flatMap escaped = List.replicate n ' ' := by
  induction n with
  | zero => rfl
  | succ n ih =>
    rw [List.replicate_succ, List.flatMap_cons, ih]
    rfl

/-- A text without spaces, or one up to the end of its first spaces and the rest. -/
theorem spaces_cases (cs : List Char) : (∀ x ∈ cs, x ≠ ' ') ∨
    ∃ run n tail, cs = run ++ (List.replicate (n + 1) ' ' ++ tail) ∧ (∀ x ∈ run, x ≠ ' ') ∧
      ∀ tail', tail ≠ ' ' :: tail' := by
  induction cs with
  | nil => exact .inl nofun
  | cons c cs ih =>
    by_cases hc : c = ' '
    · subst hc
      right
      obtain hcs | ⟨run, n, tail, rfl, hrun, htail⟩ := ih
      · refine ⟨[], 0, cs, rfl, nofun, ?_⟩
        rintro tail' rfl
        exact hcs ' ' List.mem_cons_self rfl
      · cases run with
        | nil => exact ⟨[], n + 1, tail, rfl, nofun, htail⟩
        | cons d run =>
          refine ⟨[], 0, _, rfl, nofun, fun tail' heq => ?_⟩
          exact hrun d List.mem_cons_self (List.cons.inj heq).1
    · obtain hcs | ⟨run, n, tail, rfl, hrun, htail⟩ := ih
      · exact .inl (List.forall_mem_cons.2 ⟨hc, hcs⟩)
      · exact .inr ⟨c :: run, n, tail, rfl, List.forall_mem_cons.2 ⟨hc, hrun⟩, htail⟩

/-- Spaces are read up to the character after them. -/
theorem readGap_spaces {x : Char} (hx : (isBlank x || isBreak x) = false) {rest : List Char} :
    ∀ (n fuel : Nat) (blanks : List Char) (c : Cursor), n < fuel →
      c.rest = List.replicate n ' ' ++ x :: rest →
      readGap none fuel ⟨blanks, [], [], false⟩ c =
        some (⟨blanks ++ List.replicate n ' ', [], [], false⟩, c.steps n)
  | 0, fuel + 1, blanks, c, _, h => by
    have hhere : c.here = some x := by rw [Cursor.here, h]; rfl
    rw [Bool.or_eq_false_iff] at hx
    simp only [readGap, hhere, hx.1, hx.2, List.replicate_zero, List.append_nil]
    rfl
  | n + 1, fuel + 1, blanks, c, hfuel, h => by
    have hhere : c.here = some ' ' := by rw [Cursor.here, h]; rfl
    have hstep : c.step.rest = List.replicate n ' ' ++ x :: rest := by
      rw [Cursor.step, h]
      rfl
    have ih := readGap_spaces hx n fuel (blanks ++ [' ']) c.step (Nat.lt_of_succ_lt_succ hfuel)
      hstep
    rw [readGap, hhere]
    show readGap none fuel ⟨blanks ++ [' '], [], [], false⟩ c.step = _
    rw [ih, List.append_assoc, List.replicate_succ]
    rfl

/-- After spaces comes a character that is none, or the quote. -/
theorem exists_after_spaces {cs : List Char} (h : ∀ cs', cs ≠ ' ' :: cs') (rest : List Char) :
    ∃ x rest', cs.flatMap escaped ++ '"' :: rest = x :: rest' ∧
      (isBlank x || isBreak x) = false := by
  cases cs with
  | nil => exact ⟨'"', rest, rfl, by decide⟩
  | cons c cs =>
    obtain ⟨d, ds, hwritten, hd⟩ := exists_escaped (c := c) fun heq => h cs (heq ▸ rfl)
    rw [isInner, Bool.and_eq_true, Bool.not_eq_true'] at hd
    refine ⟨d, ds ++ (cs.flatMap escaped ++ '"' :: rest), ?_, hd.1⟩
    rw [List.flatMap_cons, hwritten, List.append_assoc]
    rfl

/-! ## Quoted scalars -/

section Quoted

variable {fuel : Nat} {acc acc' : List Char} {c c' : Cursor} {rest : List Char}

theorem quotedFrom_quote (hcolumn : 0 < c.column)
    (hrun : quotedRun true (c.rest.length + 1) acc c = some (acc', false, c'))
    (h : c.rest ≠ []) (hrest : c'.rest = '"' :: rest) :
    quotedFrom true (fuel + 1) acc c = some (acc'.reverse, c'.step) := by
  have hhere : c'.here = some '"' := by rw [Cursor.here, hrest]; rfl
  simp [quotedFrom, Cursor.atDocumentBound_eq_false hcolumn, h, hrun, hhere]

theorem quotedFrom_space (hcolumn : 0 < c.column)
    (hrun : quotedRun true (c.rest.length + 1) acc c = some (acc', false, c'))
    (h : c.rest ≠ []) {x : Char} (hx : (isBlank x || isBreak x) = false) {n : Nat}
    (hrest : c'.rest = List.replicate (n + 1) ' ' ++ x :: rest) :
    quotedFrom true (fuel + 1) acc c =
      quotedFrom true fuel (List.replicate (n + 1) ' ' ++ acc') (c'.steps (n + 1)) := by
  have hhere : c'.here = some ' ' := by rw [Cursor.here, hrest]; rfl
  have hlength : n + 1 < c'.rest.length + 1 := by
    rw [hrest, List.length_append, List.length_replicate, List.length_cons]
    omega
  have hgap := readGap_spaces hx (n + 1) (c'.rest.length + 1) [] c' hlength hrest
  simp [quotedFrom, Cursor.atDocumentBound_eq_false hcolumn, h, hrun, hhere, Gap.empty, hgap,
    Gap.fold]

end Quoted

/-- A text is read up to the quote after it. -/
theorem quotedFrom_flatMap {rest : List Char} : ∀ (fuel : Nat) (cs acc : List Char) (c : Cursor),
    0 < c.column → cs.length < fuel → c.rest = cs.flatMap escaped ++ '"' :: rest →
      quotedFrom true fuel acc c =
        some (acc.reverse ++ cs, c.steps ((cs.flatMap escaped).length + 1))
  | fuel + 1, cs, acc, c, hcolumn, hfuel, h => by
    have hne : c.rest ≠ [] := by
      rw [h]
      exact List.append_ne_nil_of_right_ne_nil _ (List.cons_ne_nil _ _)
    have hlong : cs.length < c.rest.length + 1 := by
      have hle := length_le_flatMap escaped_ne_nil cs
      rw [h, List.length_append]
      omega
    -- each round reads up to the end of the first spaces
    obtain hspace | ⟨run, n, tail, rfl, hspace, htail⟩ := spaces_cases cs
    · have hrun := quotedRun_flatMap (.inr rfl) cs _ acc c hspace hlong h
      rw [quotedFrom_quote hcolumn hrun hne (Cursor.steps_rest_append h), List.reverse_append,
        List.reverse_reverse, Cursor.steps_succ]
    · rw [List.length_append, List.length_append, List.length_replicate] at hfuel hlong
      rw [List.flatMap_append, List.flatMap_append, flatMap_replicate_space] at h ⊢
      obtain ⟨x, rest', hafter, hx⟩ := exists_after_spaces htail rest
      have hrest : c.rest = run.flatMap escaped ++
          (List.replicate (n + 1) ' ' ++ (tail.flatMap escaped ++ '"' :: rest)) := by
        rw [h, List.append_assoc, List.append_assoc]
      have hrun := quotedRun_flatMap (.inl rfl) run (c.rest.length + 1) acc c hspace (by omega)
        hrest
      have hspaces := Cursor.steps_rest_append hrest
      have htext := Cursor.steps_rest_append hspaces
      rw [List.length_replicate] at htext
      rw [hafter] at hspaces
      have ih := quotedFrom_flatMap fuel tail (List.replicate (n + 1) ' ' ++ (run.reverse ++ acc))
        _ (Cursor.column_pos_steps (Cursor.column_pos_steps hcolumn _) _) (by omega) htext
      have hlength : (run.flatMap escaped).length + (n + 1 + ((tail.flatMap escaped).length + 1)) =
          (run.flatMap escaped ++ (List.replicate (n + 1) ' ' ++ tail.flatMap escaped)).length +
            1 := by
        rw [List.length_append, List.length_append, List.length_replicate]
        omega
      rw [quotedFrom_space hcolumn hrun hne hx hspaces, ih, ← Cursor.steps_add,
        ← Cursor.steps_add, hlength]
      simp

/-- A quoted text is read as the text. -/
theorem quotedScalar_quoted {cs rest : List Char} {c : Cursor} (h : c.rest = quoted cs ++ rest) :
    quotedScalar true c = some (cs, c.steps (quoted cs).length) := by
  have hrest : c.step.rest = cs.flatMap escaped ++ '"' :: rest := by
    rw [Cursor.step, h, quoted]
    simp
  have hfuel : cs.length < c.rest.length + 1 := by
    have hle := length_le_flatMap escaped_ne_nil cs
    rw [h, quoted, List.length_append, List.length_cons, List.length_append]
    omega
  have hlength : (quoted cs).length = (cs.flatMap escaped).length + 1 + 1 := by
    rw [quoted, List.length_cons, List.length_append, List.length_singleton]
  rw [quotedScalar, quotedFrom_flatMap _ cs [] _ (Nat.succ_pos c.column) hfuel hrest, hlength]
  rfl

/-! ## Characters -/

theorem isAllowed_of_mem_hexDigits {count n : Nat} {c : Char} (h : c ∈ Numeral.hexDigits count n) :
    isAllowed c = true := by
  induction count generalizing n with
  | zero => cases h
  | succ count ih =>
    rcases List.mem_append.1 h with h | h
    · exact ih h
    · have hdigit : ∀ d < 16, isAllowed (Nat.digitChar d) = true := by decide
      rw [List.mem_singleton.1 h]
      exact hdigit _ (Nat.mod_lt n (by decide))

theorem isAllowed_of_mem_escaped {c d : Char} (h : d ∈ escaped c) : isAllowed d = true := by
  unfold escaped at h
  cases hletter : letter? c with
  | some e =>
    have hallowed : isAllowed e = true := by
      unfold letter? at hletter
      split at hletter <;> cases hletter <;> decide
    rw [hletter] at h
    rcases List.mem_cons.1 h with rfl | h
    · decide
    · rw [List.mem_singleton.1 h]
      exact hallowed
  | none =>
    rw [hletter] at h
    dsimp only at h
    split_ifs at h with hbare
    · rw [Bool.and_eq_true] at hbare
      rw [List.mem_singleton.1 h]
      exact hbare.1
    · rcases List.mem_cons.1 h with rfl | h
      · decide
      · rcases List.mem_cons.1 h with rfl | h
        · decide
        · exact isAllowed_of_mem_hexDigits h

/-- A text may contain any text between quotes. -/
theorem isAllowed_of_mem_quoted {cs : List Char} {d : Char} (h : d ∈ quoted cs) :
    isAllowed d = true := by
  rcases List.mem_cons.1 h with rfl | h
  · decide
  · rcases List.mem_append.1 h with h | h
    · obtain ⟨c, -, hd⟩ := List.mem_flatMap.1 h
      exact isAllowed_of_mem_escaped hd
    · rw [List.mem_singleton.1 h]
      decide

/-! ## Words -/

/-- The characters of words. -/
def isWordChar (c : Char) : Bool := c.isAlphanum || c == '-'

/-- Whether a plain scalar ends before the text, as one in a flow collection does before what goes
on with the collection. -/
def Stops (cs : List Char) : Prop :=
  ∃ y rest, cs = y :: rest ∧ (isBlank y || isBreak y) = false ∧
    endsPlain true y rest.head? = some true

theorem isWordChar_ne {c : Char} (h : isWordChar c = true) (d : Char)
    (hd : isWordChar d = false := by decide) : c ≠ d := by
  rintro rfl
  rw [hd] at h
  cases h

theorem isGap_of_isWordChar {c : Char} (h : isWordChar c = true) :
    (isBlank c || isBreak c) = false := by
  simp [isBlank, isBreak, isWordChar_ne h ' ', isWordChar_ne h '\t', isWordChar_ne h '\n',
    isWordChar_ne h '\r', isWordChar_ne h '\u0085', isWordChar_ne h '\u2028',
    isWordChar_ne h '\u2029']

theorem endsPlain_of_isWordChar {c : Char} (h : isWordChar c = true) (next : Option Char) :
    endsPlain true c next = some false := by
  simp [endsPlain, isWordChar_ne h ':', isWordChar_ne h ',', isWordChar_ne h '[',
    isWordChar_ne h ']', isWordChar_ne h '\x7b', isWordChar_ne h '\x7d']

theorem plainRun_word {rest : List Char} (hstop : Stops rest) : ∀ (cs : List Char) (fuel : Nat)
    (acc : List Char) (c : Cursor), (∀ x ∈ cs, isWordChar x = true) → cs.length < fuel →
      c.rest = cs ++ rest →
      plainRun true fuel acc c = some (cs.reverse ++ acc, true, c.steps cs.length)
  | [], fuel + 1, acc, c, _, _, h => by
    obtain ⟨y, rest, rfl, hgap, hends⟩ := hstop
    have hhere : c.here = some y := by rw [Cursor.here, h]; rfl
    have hnext : c.next = rest.head? := by
      rw [Cursor.next, h]
      cases rest <;> rfl
    simp only [plainRun, hhere, hgap, hnext, hends]
    rfl
  | x :: cs, fuel + 1, acc, c, hword, hfuel, h => by
    have hx := hword x List.mem_cons_self
    have hhere : c.here = some x := by rw [Cursor.here, h]; rfl
    have hstep : c.step.rest = cs ++ rest := by rw [Cursor.step, h]; rfl
    have ih := plainRun_word hstop cs fuel (x :: acc) c.step
      (fun y hy => hword y (List.mem_cons_of_mem _ hy)) (Nat.lt_of_succ_lt_succ hfuel) hstep
    simp only [plainRun, hhere, isGap_of_isWordChar hx, endsPlain_of_isWordChar hx, ih]
    rw [List.reverse_cons, List.append_assoc]
    rfl

/-- A word without quotes is read up to where a flow collection goes on. -/
theorem plainScalar_word {cs rest : List Char} {c : Cursor} (indent : Nat) (hne : cs ≠ [])
    (hword : ∀ x ∈ cs, isWordChar x = true) (hstop : Stops rest) (hcolumn : 0 < c.column)
    (h : c.rest = cs ++ rest) :
    plainScalar true indent c = some (cs, false, c.steps cs.length) := by
  have hlength : cs.length < c.rest.length + 1 := by
    rw [h, List.length_append]
    omega
  have hrun := plainRun_word hstop cs (c.rest.length + 1) [] c hword hlength h
  have hhere : (c.here == some '#') = false := by
    obtain ⟨x, cs, rfl⟩ := List.exists_cons_of_ne_nil hne
    have hhere : c.here = some x := by rw [Cursor.here, h]; rfl
    have hx := isWordChar_ne (hword x List.mem_cons_self) '#'
    simpa [hhere] using hx
  rw [plainScalar, plainFrom]
  simp [Cursor.atDocumentBound_eq_false hcolumn, hhere, hrun, hne, Gap.empty, Gap.fold]

theorem toNat_of_isWordChar {c : Char} (h : isWordChar c = true) :
    32 ≤ c.toNat ∧ c.toNat ≤ 126 := by
  have hclasses : (c.isUpper || c.isLower || c.isDigit || c == '-') = true := h
  simp only [Bool.or_eq_true, beq_iff_eq] at hclasses
  obtain ((h | h) | h) | rfl := hclasses
  · have hupper : 'A'.val ≤ c.val ∧ c.val ≤ 'Z'.val := of_decide_eq_true h
    exact ⟨Nat.le_trans (by decide) hupper.1, Nat.le_trans hupper.2 (by decide)⟩
  · have hlower : (decide ('a'.val ≤ c.val) && decide (c.val ≤ 'z'.val)) = true := h
    rw [Bool.and_eq_true, decide_eq_true_eq, decide_eq_true_eq] at hlower
    exact ⟨Nat.le_trans (by decide) hlower.1, Nat.le_trans hlower.2 (by decide)⟩
  · have hdigit := Char.isDigit_iff_toNat.1 h
    exact ⟨Nat.le_trans (by decide) hdigit.1, Nat.le_trans hdigit.2 (by decide)⟩
  · decide

theorem isAllowed_of_isWordChar {c : Char} (h : isWordChar c = true) : isAllowed c = true := by
  have hrange := toNat_of_isWordChar h
  have hlow : ' ' ≤ c := hrange.1
  have hhigh : c ≤ '~' := hrange.2
  simp [isAllowed, hlow, hhigh]

end Highlight.Yaml
