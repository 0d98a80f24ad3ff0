import Highlight.Text.Property

/-!
# White space in texts

Trimming and splitting by Unicode white space, over lists of characters: `words` are the maximal
runs of characters that are not white space. Texts are also cut at each occurrence of one character
(`split`).
-/

namespace Highlight.Blank

/-- The text without the white space at its start. -/
def trimStart (cs : List Char) : List Char := cs.dropWhile Property.isWhiteSpace

/-- The text without the white space at both ends. -/
def trim (cs : List Char) : List Char :=
  ((trimStart cs).reverse.dropWhile Property.isWhiteSpace).reverse

/-- Trimming takes away white space only. -/
theorem exists_trim (cs : List Char) : ∃ before after,
    before.all Property.isWhiteSpace = true ∧ after.all Property.isWhiteSpace = true ∧
      cs = before ++ trim cs ++ after := by
  refine ⟨cs.takeWhile Property.isWhiteSpace,
    ((trimStart cs).reverse.takeWhile Property.isWhiteSpace).reverse, List.all_takeWhile, ?_, ?_⟩
  · rw [List.all_reverse, List.all_takeWhile]
  · have hback := congrArg List.reverse
      (@List.takeWhile_append_dropWhile _ Property.isWhiteSpace (trimStart cs).reverse)
    rw [List.reverse_append, List.reverse_reverse] at hback
    rw [trim, List.append_assoc, hback, trimStart, List.takeWhile_append_dropWhile]

/-- White space around a text without it is all that trimming takes away. -/
theorem trim_append {before cs after : List Char}
    (hbefore : before.all Property.isWhiteSpace = true)
    (hafter : after.all Property.isWhiteSpace = true) (hne : cs ≠ [])
    (hcs : ∀ c ∈ cs, Property.isWhiteSpace c = false) :
    trim (before ++ cs ++ after) = cs := by
  have hstart : ∀ (cs rest : List Char), cs ≠ [] → (∀ c ∈ cs, Property.isWhiteSpace c = false) →
      (cs ++ rest).dropWhile Property.isWhiteSpace = cs ++ rest := by
    intro cs rest hne hcs
    cases cs with
    | nil => exact absurd rfl hne
    | cons c cs => exact List.dropWhile_cons_of_neg (by simp [hcs c List.mem_cons_self])
  rw [trim, trimStart, List.append_assoc,
    List.dropWhile_append_of_pos (List.all_eq_true.1 hbefore), hstart cs after hne hcs,
    List.reverse_append,
    List.dropWhile_append_of_pos fun c hc => List.all_eq_true.1 hafter c (List.mem_reverse.1 hc)]
  have hback := hstart cs.reverse [] (by simpa using hne) fun c hc => hcs c (List.mem_reverse.1 hc)
  rw [List.append_nil] at hback
  rw [hback, List.reverse_reverse]

/-- The text without the white space at both ends. -/
def trimmed (s : String) : String := String.ofList (trim s.toList)

/-- The words of a text, where `word` holds backwards what has been read of the current one. -/
def wordsFrom (word : List Char) : List Char → List (List Char)
  | [] => if word.isEmpty then [] else [word.reverse]
  | c :: cs =>
    if Property.isWhiteSpace c then
      if word.isEmpty then wordsFrom [] cs else word.reverse :: wordsFrom [] cs
    else wordsFrom (c :: word) cs

/-- The maximal runs of characters that are not white space. -/
def words (s : String) : List String := (wordsFrom [] s.toList).map String.ofList

/-- The pieces of a text between the separators, where `piece` holds backwards what has been read
of the current one: one piece more than there are separators. -/
def splitFrom (separator : Char) (piece : List Char) : List Char → List (List Char)
  | [] => [piece.reverse]
  | c :: cs =>
    if c == separator then piece.reverse :: splitFrom separator [] cs
    else splitFrom separator (c :: piece) cs

/-- The pieces of a text between the separators. -/
def split (separator : Char) (s : String) : List String :=
  (splitFrom separator [] s.toList).map String.ofList

theorem splitFrom_eq (separator : Char) (piece cs : List Char) :
    splitFrom separator piece cs = cs.splitOnPPrepend (· == separator) piece := by
  induction cs generalizing piece with
  | nil => rfl
  | cons c cs ih =>
    rw [splitFrom, List.splitOnPPrepend_cons_eq_if, List.splitOnP_eq_splitOnPPrepend, ih, ih]

theorem split_eq (separator : Char) (s : String) :
    split separator s = (s.toList.splitOn separator).map String.ofList := by
  rw [split, splitFrom_eq, List.splitOn_eq_splitOnP, List.splitOnP_eq_splitOnPPrepend]

theorem split_ne_nil (separator : Char) (s : String) : split separator s ≠ [] := by
  rw [split_eq, ne_eq, List.map_eq_nil_iff]
  exact List.splitOn_ne_nil separator s.toList

/-- The pieces with separators between them are the text again. -/
theorem intercalate_split (separator : Char) (s : String) :
    (String.singleton separator).intercalate (split separator s) = s := by
  apply String.toList_inj.1
  rw [String.toList_intercalate, String.toList_singleton, split_eq, List.map_map]
  simp [Function.comp_def]

/-- Texts without separators are the pieces of the text that has separators between them. -/
theorem split_intercalate {separator : Char} {pieces : List String} (hne : pieces ≠ [])
    (hpieces : ∀ piece ∈ pieces, separator ∉ piece.toList) :
    split separator ((String.singleton separator).intercalate pieces) = pieces := by
  rw [split_eq, String.toList_intercalate, String.toList_singleton, List.splitOn_intercalate]
  · simp [Function.comp_def]
  · simpa using hpieces
  · simpa using hne

theorem split_append_separator (separator : Char) (s rest : String) :
    split separator (s ++ String.singleton separator ++ rest) =
      split separator s ++ split separator rest := by
  simp [split_eq, List.splitOn_append_cons_self]

theorem not_mem_of_mem_splitFrom {separator : Char} {read cs piece : List Char}
    (hread : separator ∉ read) (h : piece ∈ splitFrom separator read cs) : separator ∉ piece := by
  induction cs generalizing read with
  | nil =>
    rw [splitFrom, List.mem_singleton] at h
    rwa [h, List.mem_reverse]
  | cons c cs ih =>
    rw [splitFrom] at h
    split at h
    · rcases List.mem_cons.1 h with rfl | h
      · rwa [List.mem_reverse]
      · exact ih List.not_mem_nil h
    · next hc =>
      have hne : separator ≠ c := fun heq => hc (beq_iff_eq.2 heq.symm)
      exact ih (List.not_mem_cons_of_ne_of_not_mem hne hread) h

/-- No piece has a separator. -/
theorem not_mem_of_mem_split {separator : Char} {s piece : String} (h : piece ∈ split separator s) :
    separator ∉ piece.toList := by
  obtain ⟨cs, hcs, rfl⟩ := List.mem_map.1 h
  rw [String.toList_ofList]
  exact not_mem_of_mem_splitFrom List.not_mem_nil hcs

end Highlight.Blank
