import Mathlib.Data.List.Forall2
import Highlight.Proofs.SelectorReading

/-!
# Selectors as text

`ScopeCondition.text` writes a condition with every condition inside it in parentheses, and
`Selector.text` writes alternatives with their marks, between commas. Reading such a text gives the
alternatives back (`parse_text`), provided that the names in them can be told from what stands
between them (`IsWord`) and that no condition is one that another way of writing stands for
(`Spellable`): a path of nothing, or one condition joined with no other.

There are two halves. A text falls into the tokens that were meant (`ScopeCondition.lexes`), whatever
follows, as long as it does not run on into the last word. These tokens are read as the condition that
was meant (`Spellable.readsGrouped`), whatever follows the parenthesis behind it. The parentheses around
a whole alternative can be left out (`Spellable.readsBare`), but not those around choices: outside of
parentheses a bar ends the selector.
-/

namespace Highlight

/-- A text in parentheses. -/
def inParentheses (text : String) : String := "(" ++ text ++ ")"

namespace ScopeCondition

/-- The condition as text, with each condition inside it in parentheses. -/
def text : ScopeCondition → String
  | .path names => " ".intercalate names
  | .excluding c => "-" ++ inParentheses c.text
  | .all cs => " ".intercalate (groups cs)
  | .any cs => " | ".intercalate (groups cs)
where
  /-- The conditions as texts in parentheses. -/
  groups : List ScopeCondition → List String
    | [] => []
    | c :: cs => inParentheses c.text :: groups cs

/-- Whether the condition is one of choices. -/
def isChoice : ScopeCondition → Bool
  | .any _ => true
  | _ => false

end ScopeCondition

/-- What stands before an alternative with the priority. -/
def Priority.mark : Priority → String
  | .before => "L:"
  | .normal => ""
  | .after => "R:"

/-- The alternative as text. Choices always stand in parentheses, other conditions where `outer` says
so. -/
def Alternative.text (outer : Bool) (a : Alternative) : String :=
  a.priority.mark ++
    if outer || a.condition.isChoice then inParentheses a.condition.text else a.condition.text

/-- The alternatives as the text of a selector. -/
def Selector.text (outer : Bool) (as : List Alternative) : String :=
  ", ".intercalate (as.map (·.text outer))

/-- A name that is read as one word: it is not empty, nothing in it ends a word, and it does not
begin like an exclusion or a mark. -/
structure IsWord (name : String) : Prop where
  nonempty : name ≠ ""
  within : ∀ c ∈ name.toList, Selector.endsWord c = false
  hyphen : ¬['-'] <+: name.toList
  before : ¬['L', ':'] <+: name.toList
  after : ¬['R', ':'] <+: name.toList

instance (name : String) : Decidable (IsWord name) :=
  decidable_of_iff (name ≠ "" ∧ name.toList.any Selector.endsWord = false ∧
      ¬['-'] <+: name.toList ∧ ¬['L', ':'] <+: name.toList ∧ ¬['R', ':'] <+: name.toList)
    ⟨fun ⟨hne, hwithin, hhyphen, hbefore, hafter⟩ =>
        ⟨hne, by simpa using hwithin, hhyphen, hbefore, hafter⟩,
      fun h => ⟨h.nonempty, by simpa using h.within, h.hyphen, h.before, h.after⟩⟩

/-- A condition that can be written: paths have names, and of conditions that are joined there are at
least two. -/
inductive ScopeCondition.Spellable : ScopeCondition → Prop
  | path {names : List ScopeName} (hne : names ≠ []) (h : ∀ n ∈ names, IsWord n) :
      Spellable (.path names)
  | excluding {c : ScopeCondition} (h : Spellable c) : Spellable (.excluding c)
  | all {cs : List ScopeCondition} (htwo : 2 ≤ cs.length) (h : ∀ c ∈ cs, Spellable c) :
      Spellable (.all cs)
  | any {cs : List ScopeCondition} (htwo : 2 ≤ cs.length) (h : ∀ c ∈ cs, Spellable c) :
      Spellable (.any cs)

namespace ScopeCondition

/-- Whether the condition can be written. -/
def isSpellable : ScopeCondition → Bool
  | .path names => !names.isEmpty && names.all fun n => decide (IsWord n)
  | .excluding c => c.isSpellable
  | .all cs => decide (2 ≤ cs.length) && allSpellable cs
  | .any cs => decide (2 ≤ cs.length) && allSpellable cs
where
  /-- Whether all conditions can be written. -/
  allSpellable : List ScopeCondition → Bool
    | [] => true
    | c :: cs => c.isSpellable && allSpellable cs

mutual

theorem spellable_of : ∀ {c : ScopeCondition}, c.isSpellable = true → c.Spellable
  | .path names, h => by
    simp only [isSpellable, Bool.and_eq_true, Bool.not_eq_true', List.isEmpty_eq_false_iff,
      List.all_eq_true, decide_eq_true_eq] at h
    exact .path h.1 h.2
  | .excluding _, h => .excluding (spellable_of h)
  | .all _, h => .all (of_decide_eq_true (Bool.and_eq_true_iff.1 h).1)
      (spellable_of_all (Bool.and_eq_true_iff.1 h).2)
  | .any _, h => .any (of_decide_eq_true (Bool.and_eq_true_iff.1 h).1)
      (spellable_of_all (Bool.and_eq_true_iff.1 h).2)

theorem spellable_of_all : ∀ {cs : List ScopeCondition},
    isSpellable.allSpellable cs = true → ∀ c ∈ cs, c.Spellable
  | [], _ => fun _ h => by cases h
  | _ :: _, h => List.forall_mem_cons.2 ⟨spellable_of (Bool.and_eq_true_iff.1 h).1,
      spellable_of_all (Bool.and_eq_true_iff.1 h).2⟩

end

theorem allSpellable_of {cs : List ScopeCondition} (h : ∀ c ∈ cs, c.isSpellable = true) :
    isSpellable.allSpellable cs = true := by
  induction cs with
  | nil => rfl
  | cons c cs ih =>
    rw [isSpellable.allSpellable, h c List.mem_cons_self,
      ih fun c' hc' => h c' (List.mem_cons_of_mem c hc')]
    rfl

theorem isSpellable_iff {c : ScopeCondition} : c.isSpellable = true ↔ c.Spellable := by
  refine ⟨spellable_of, fun h => ?_⟩
  induction h with
  | path hne h => simpa [isSpellable, hne] using h
  | excluding _ ih => exact ih
  | all htwo _ ih | any htwo _ ih => simp only [isSpellable, htwo, allSpellable_of ih, decide_true,
      Bool.and_true]

instance (c : ScopeCondition) : Decidable c.Spellable := decidable_of_iff _ isSpellable_iff

end ScopeCondition

namespace Selector

/-! ## Tokens -/

/-- A text that does not go on with a word. -/
def Breaks (text : List Char) : Prop := ∀ c ∈ text.head?, endsWord c = true

/-- The text falls into the tokens, whatever follows that does not go on with its last word. -/
def Lexes (text : List Char) (ts : List String) : Prop :=
  ∀ rest, Breaks rest → tokensFrom [] (text ++ rest) = ts ++ tokensFrom [] rest

theorem tokensFrom_break {word rest : List Char} (hword : word ≠ []) (hrest : Breaks rest) :
    tokensFrom word rest = String.ofList word.reverse :: tokensFrom [] rest := by
  cases rest with
  | nil => simp [tokensFrom, hword]
  | cons c rest =>
    have hc : endsWord c = true := hrest c rfl
    simp only [endsWord, Bool.or_eq_true] at hc
    have hempty : word.isEmpty = false := List.isEmpty_eq_false_iff.2 hword
    simp only [tokensFrom, hempty, Bool.false_eq_true, if_false, List.isEmpty_nil, if_true]
    split
    · rfl
    · next hwhite =>
      have hseparator := hc.resolve_left hwhite
      simp only [hseparator, Bool.true_or, if_true]

/-- What has been read of a word and what is still to come is one token. -/
theorem tokensFrom_word {rest : List Char} (hrest : Breaks rest) : ∀ (cs word : List Char),
    word ≠ [] → (∀ c ∈ cs, endsWord c = false) → ¬['L', ':'] <+: word.reverse ++ cs →
    ¬['R', ':'] <+: word.reverse ++ cs →
    tokensFrom word (cs ++ rest) = String.ofList (word.reverse ++ cs) :: tokensFrom [] rest
  | [], word, hword, _, _, _ => by
    rw [List.nil_append, List.append_nil, tokensFrom_break hword hrest]
  | c :: cs, word, hword, hcs, hbefore, hafter => by
    have hc := hcs c List.mem_cons_self
    simp only [endsWord, Bool.or_eq_false_iff] at hc
    have hmark : (c == ':' && (word == ['L'] || word == ['R'])) = false := by
      simp only [Bool.and_eq_false_imp, Bool.or_eq_false_iff, beq_iff_eq, beq_eq_false_iff_ne]
      rintro rfl
      refine ⟨?_, ?_⟩
      · rintro rfl
        exact hbefore ⟨cs, rfl⟩
      · rintro rfl
        exact hafter ⟨cs, rfl⟩
    have hempty : word.isEmpty = false := List.isEmpty_eq_false_iff.2 hword
    have heq : word.reverse ++ c :: cs = (c :: word).reverse ++ cs := by simp
    rw [heq] at hbefore hafter ⊢
    rw [← tokensFrom_word hrest cs (c :: word) (List.cons_ne_nil _ _)
      (fun d hd => hcs d (List.mem_cons_of_mem c hd)) hbefore hafter, List.cons_append, tokensFrom]
    simp only [hc.1, hc.2, hempty, hmark, Bool.and_false, Bool.or_false, Bool.false_eq_true, if_false]

theorem lexes_word {name : String} (h : IsWord name) : Lexes name.toList [name] := by
  intro rest hrest
  have hne : name.toList ≠ [] := by simpa using h.nonempty
  obtain ⟨c, cs, hname⟩ := List.exists_cons_of_ne_nil hne
  have hwithin := h.within
  have hhyphen := h.hyphen
  have hbefore := h.before
  have hafter := h.after
  rw [hname] at hwithin hhyphen hbefore hafter ⊢
  have hc := hwithin c List.mem_cons_self
  simp only [endsWord, Bool.or_eq_false_iff] at hc
  have hfirst : c ≠ '-' := by
    rintro rfl
    exact hhyphen ⟨cs, rfl⟩
  have hrun := tokensFrom_word hrest cs [c] (List.cons_ne_nil _ _)
    (fun d hd => hwithin d (List.mem_cons_of_mem c hd)) hbefore hafter
  have hword : String.ofList ([c].reverse ++ cs) = name := by
    rw [← String.toList_inj, String.toList_ofList, hname]
    rfl
  rw [hword] at hrun
  rw [List.cons_append, tokensFrom]
  have hhyphen' : (c == '-') = false := beq_eq_false_iff_ne.2 hfirst
  have hstart : (([] : List Char) == ['L'] || ([] : List Char) == ['R']) = false := rfl
  simp only [hc.1, hc.2, hhyphen', hstart, Bool.false_and, Bool.and_false, Bool.or_false,
    Bool.false_eq_true, if_false]
  exact hrun

/-- A separator: no word goes on into it, and it falls into tokens of its own whatever follows. -/
structure Separates (separator : List Char) (ts : List String) : Prop where
  breaks : ∀ rest, Breaks (separator ++ rest)
  tokens : ∀ rest, tokensFrom [] (separator ++ rest) = ts ++ tokensFrom [] rest

theorem separates_blank : Separates [' '] [] := ⟨fun _ _ h => by cases h; rfl, fun _ => rfl⟩

theorem separates_bar : Separates [' ', '|', ' '] ["|"] :=
  ⟨fun _ _ h => by cases h; rfl, fun _ => rfl⟩

theorem separates_comma : Separates [',', ' '] [","] := ⟨fun _ _ h => by cases h; rfl, fun _ => rfl⟩

theorem Lexes.intercalate {separator : List Char} {ts : List String}
    (hseparator : Separates separator ts) : ∀ {texts : List (List Char)} {tss : List (List String)},
      List.Forall₂ Lexes texts tss → Lexes (separator.intercalate texts) (ts.intercalate tss)
  | _, _, .nil => fun _ _ => rfl
  | _, _, .cons h .nil => by
    rw [List.intercalate_singleton, List.intercalate_singleton]
    exact h
  | _, _, .cons h (.cons h' hs) => by
    intro rest hrest
    have hmore := Lexes.intercalate hseparator (.cons h' hs) rest hrest
    rw [List.intercalate_cons_cons, List.intercalate_cons_cons, List.append_assoc, List.append_assoc,
      List.append_assoc, List.append_assoc, h _ (hseparator.breaks _), hseparator.tokens, hmore]

/-- Tokens in parentheses. -/
def grouped (ts : List String) : List String := "(" :: ts ++ [")"]

theorem grouped_append (ts rest : List String) : grouped ts ++ rest = "(" :: (ts ++ ")" :: rest) := by
  simp [grouped]

theorem Lexes.grouped {text : String} {ts : List String} (h : Lexes text.toList ts) :
    Lexes (inParentheses text).toList (grouped ts) := by
  intro rest _
  have hclose : Breaks (')' :: rest) := fun _ h => by cases h; rfl
  have htext : (inParentheses text).toList ++ rest = '(' :: (text.toList ++ ')' :: rest) := by
    simp [inParentheses, String.toList_append]
  have hopening : ∀ cs, tokensFrom [] ('(' :: cs) = "(" :: tokensFrom [] cs := fun _ => rfl
  have hclosing : ∀ cs, tokensFrom [] (')' :: cs) = ")" :: tokensFrom [] cs := fun _ => rfl
  rw [htext, hopening, h _ hclose, hclosing]
  simp [Selector.grouped]

end Selector

namespace ScopeCondition

open Selector (Lexes grouped lexes_word)

/-- The tokens of the condition as text. -/
def tokens : ScopeCondition → List String
  | .path names => names
  | .excluding c => "-" :: grouped c.tokens
  | .all cs => (groupTokens cs).flatten
  | .any cs => ["|"].intercalate (groupTokens cs)
where
  /-- The tokens of the conditions in parentheses. -/
  groupTokens : List ScopeCondition → List (List String)
    | [] => []
    | c :: cs => grouped c.tokens :: groupTokens cs

theorem forall₂_groups : ∀ {cs : List ScopeCondition}, (∀ c ∈ cs, Lexes c.text.toList c.tokens) →
    List.Forall₂ Lexes ((text.groups cs).map String.toList) (tokens.groupTokens cs)
  | [], _ => .nil
  | c :: _, h =>
    .cons (h c List.mem_cons_self).grouped (forall₂_groups fun c' hc' => h c' (List.mem_cons_of_mem c hc'))

theorem intercalate_nothing (tss : List (List String)) : [].intercalate tss = tss.flatten := by
  induction tss with
  | nil => rfl
  | cons ts tss ih =>
    cases tss with
    | nil => simp
    | cons ts' tss => rw [List.intercalate_cons_cons, ih, List.append_nil, ← List.flatten_cons]

theorem flatten_singletons (names : List String) : (names.map fun n => [n]).flatten = names := by
  induction names with
  | nil => rfl
  | cons n names ih => rw [List.map_cons, List.flatten_cons, ih, List.singleton_append]

theorem lexes {c : ScopeCondition} (h : c.Spellable) : Lexes c.text.toList c.tokens := by
  induction h with
  | @path names _ h =>
    have hwords : List.Forall₂ Lexes (names.map String.toList) (names.map fun n => [n]) := by
      rw [List.forall₂_map_left_iff, List.forall₂_map_right_iff, List.forall₂_same]
      exact fun n hn => lexes_word (h n hn)
    have hpath := Lexes.intercalate Selector.separates_blank hwords
    rw [intercalate_nothing, flatten_singletons] at hpath
    rw [text, tokens, String.toList_intercalate]
    exact hpath
  | @excluding c _ ih =>
    intro rest hrest
    have hhyphen : ∀ cs, Selector.tokensFrom [] ('-' :: cs) = "-" :: Selector.tokensFrom [] cs :=
      fun _ => rfl
    have htext : (text (.excluding c)).toList ++ rest =
        '-' :: ((inParentheses c.text).toList ++ rest) := by
      rw [text, String.toList_append, List.append_assoc]
      rfl
    rw [htext, hhyphen, ih.grouped rest hrest, tokens, List.cons_append]
  | all _ _ ih =>
    rw [text, tokens, ← intercalate_nothing, String.toList_intercalate]
    exact Lexes.intercalate Selector.separates_blank (forall₂_groups ih)
  | any _ _ ih =>
    rw [text, tokens, String.toList_intercalate]
    exact Lexes.intercalate Selector.separates_bar (forall₂_groups ih)

end ScopeCondition

/-! ## Reading the tokens -/

namespace Selector

/-- No condition goes on here: the tokens end, or the next one ends a phrase. -/
def Closes (rest : List String) : Prop := ∀ t ∈ rest.head?, t = ")" ∨ t = "|" ∨ t = ","

theorem Closes.reads {rest : List String} (h : Closes rest) : Reads .operand rest [] rest := by
  cases rest with
  | nil => exact .nothing
  | cons t rest =>
    rcases h t rfl with rfl | rfl | rfl
    · exact .other (by decide) (by decide) (by decide)
    · exact .other (by decide) (by decide) (by decide)
    · exact .other (by decide) (by decide) (by decide)

theorem Closes.not_isName {rest : List String} (h : Closes rest) :
    ∀ t ∈ rest.head?, isName t = false := by
  intro t ht
  rcases h t ht with rfl | rfl | rfl <;> decide

theorem isName_word {name : String} (h : IsWord name) : isName name = true := by
  have hends : ∀ c, endsWord c = true → c ∉ name.toList := by
    intro c hc hmem
    rw [h.within c hmem] at hc
    cases hc
  simp only [isName, Bool.not_eq_true', List.contains_eq_mem, decide_eq_false_iff_not,
    List.mem_cons, List.not_mem_nil, or_false, not_or]
  refine ⟨?_, ?_, ?_, ?_, ?_, ?_, ?_⟩
  · rintro rfl
    exact hends ',' (by decide) (by decide)
  · rintro rfl
    exact hends '|' (by decide) (by decide)
  · rintro rfl
    exact h.hyphen (by decide)
  · rintro rfl
    exact hends '(' (by decide) (by decide)
  · rintro rfl
    exact hends ')' (by decide) (by decide)
  · rintro rfl
    exact h.before (by decide)
  · rintro rfl
    exact h.after (by decide)

theorem spanNames_append {rest : List String} (hrest : ∀ t ∈ rest.head?, isName t = false) :
    ∀ {names : List String}, (∀ n ∈ names, isName n = true) →
      spanNames (names ++ rest) = (names, rest)
  | [], _ => by
    cases rest with
    | nil => rfl
    | cons t rest =>
      rw [List.nil_append, spanNames, hrest t rfl]
      rfl
  | n :: names, h => by
    have hmore := spanNames_append hrest fun n' hn' => h n' (List.mem_cons_of_mem n hn')
    rw [List.cons_append, spanNames, if_pos (h n List.mem_cons_self), hmore]

theorem combine_join {join : List ScopeCondition → ScopeCondition} {cs : List ScopeCondition}
    (h : 2 ≤ cs.length) : combine join cs = some (join cs) := by
  match cs, h with
  | _ :: _ :: _, _ => rfl

/-- The mark of an alternative is no beginning of a condition. -/
theorem Reads.begins {phrase : Phrase} {ts rest : List String} {cs : List ScopeCondition}
    (h : Reads phrase ts cs rest) (hphrase : phrase ≠ .choices) (hne : cs ≠ []) :
    ∃ t ts', ts = t :: ts' ∧ t ≠ "L:" ∧ t ≠ "R:" := by
  induction h with
  | nothing | other | stop => exact absurd rfl hne
  | excluding ht | hyphen ht | group ht =>
    subst ht
    exact ⟨_, _, rfl, by decide, by decide⟩
  | path ht =>
    refine ⟨_, _, rfl, ?_, ?_⟩
    · rintro rfl
      cases ht
    · rintro rfl
      cases ht
  | more _ _ ih => exact ih (by simp) (by simp)
  | next | last => exact absurd rfl hphrase

end Selector

namespace ScopeCondition

open Selector (Reads Closes combine combine_join grouped grouped_append)

/-- The tokens of the condition in parentheses are read as the condition, whatever follows. -/
def ReadsGrouped (c : ScopeCondition) : Prop :=
  ∀ rest, Reads .operand (grouped c.tokens ++ rest) [c] rest

/-- The tokens of the condition are read as operands that come to it, up to where no condition goes
on. -/
def ReadsBare (c : ScopeCondition) : Prop :=
  ∀ rest, Closes rest →
    ∃ cs, Reads .operands (c.tokens ++ rest) cs rest ∧ combine .all cs = some c

theorem ReadsBare.grouped {c : ScopeCondition} (h : c.ReadsBare) : c.ReadsGrouped := by
  intro rest
  have hclose : Closes (")" :: rest) := fun t ht => .inl (Option.some_inj.1 ht).symm
  obtain ⟨cs, hreads, hcombine⟩ := h _ hclose
  have hchoices : Reads .choices (c.tokens ++ ")" :: rest) [c] (")" :: rest) := by
    have hlast := hreads.last fun t ht => by cases ht; decide
    rwa [hcombine] at hlast
  rw [grouped_append]
  exact .group rfl hchoices

theorem readsBare_path {names : List ScopeName} (hne : names ≠ []) (h : ∀ n ∈ names, IsWord n) :
    ReadsBare (.path names) := by
  intro rest hrest
  obtain ⟨n, ns, rfl⟩ := List.exists_cons_of_ne_nil hne
  have hname := Selector.isName_word (h n List.mem_cons_self)
  have hspan : Selector.spanNames (ns ++ rest) = (ns, rest) :=
    Selector.spanNames_append hrest.not_isName fun n' hn' =>
      Selector.isName_word (h n' (List.mem_cons_of_mem n hn'))
  have hpath : Reads .operand (n :: (ns ++ rest)) [.path (n :: (Selector.spanNames (ns ++ rest)).1)]
      (Selector.spanNames (ns ++ rest)).2 := .path hname
  rw [hspan] at hpath
  exact ⟨_, hpath.more hrest.reads.stop, rfl⟩

theorem ReadsGrouped.excluding {c : ScopeCondition} (h : c.ReadsGrouped) :
    ReadsBare (.excluding c) :=
  fun rest hrest => ⟨_, (Reads.excluding rfl (h rest)).more hrest.reads.stop, rfl⟩

theorem readsBare_all {cs : List ScopeCondition} (htwo : 2 ≤ cs.length)
    (h : ∀ c ∈ cs, c.ReadsGrouped) : ReadsBare (.all cs) := by
  intro rest hrest
  refine ⟨cs, ?_, combine_join htwo⟩
  rw [tokens]
  clear htwo
  induction cs with
  | nil => exact hrest.reads.stop
  | cons c cs ih =>
    have hmore := ih fun c' hc' => h c' (List.mem_cons_of_mem c hc')
    rw [tokens.groupTokens, List.flatten_cons, List.append_assoc]
    exact (h c List.mem_cons_self _).more hmore

/-- Choices between bars are read up to the parenthesis behind them. -/
theorem reads_choices (rest : List String) : ∀ {cs : List ScopeCondition}, cs ≠ [] →
    (∀ c ∈ cs, c.ReadsGrouped) →
    Reads .choices (["|"].intercalate (tokens.groupTokens cs) ++ ")" :: rest) cs (")" :: rest)
  | [], hne, _ => absurd rfl hne
  | [c], _, h => by
    have hclose : Closes (")" :: rest) := fun t ht => .inl (Option.some_inj.1 ht).symm
    have hoperand := (h c List.mem_cons_self (")" :: rest)).more hclose.reads.stop
    rw [tokens.groupTokens, tokens.groupTokens, List.intercalate_singleton]
    exact hoperand.last fun t ht => by cases ht; decide
  | c :: c' :: cs, _, h => by
    have hmore := reads_choices rest (List.cons_ne_nil c' cs) fun d hd =>
      h d (List.mem_cons_of_mem c hd)
    rw [tokens.groupTokens, tokens.groupTokens, List.intercalate_cons_cons, ← tokens.groupTokens,
      List.append_assoc, List.append_assoc]
    generalize ["|"].intercalate (tokens.groupTokens (c' :: cs)) ++ ")" :: rest = ts at hmore ⊢
    have hclose : Closes ("|" :: ts) := fun t ht => .inr (.inl (Option.some_inj.1 ht).symm)
    have hoperand := (h c List.mem_cons_self ("|" :: ts)).more hclose.reads.stop
    exact hoperand.next (.inl rfl) hmore

theorem readsGrouped_any {cs : List ScopeCondition} (htwo : 2 ≤ cs.length)
    (h : ∀ c ∈ cs, c.ReadsGrouped) : ReadsGrouped (.any cs) := by
  intro rest
  have hne : cs ≠ [] := by
    rintro rfl
    cases htwo
  have hgroup := Reads.group rfl (reads_choices rest hne h)
  rw [combine_join htwo] at hgroup
  rw [grouped_append, tokens]
  exact hgroup

theorem Spellable.readsGrouped {c : ScopeCondition} (h : c.Spellable) : c.ReadsGrouped := by
  induction h with
  | path hne h => exact (readsBare_path hne h).grouped
  | excluding _ ih => exact ih.excluding.grouped
  | all htwo _ ih => exact (readsBare_all htwo ih).grouped
  | any htwo _ ih => exact readsGrouped_any htwo ih

theorem Spellable.readsBare {c : ScopeCondition} (h : c.Spellable) (hchoice : c.isChoice = false) :
    c.ReadsBare := by
  cases h with
  | path hne h => exact readsBare_path hne h
  | excluding h => exact h.readsGrouped.excluding
  | all htwo h => exact readsBare_all htwo fun c hc => (h c hc).readsGrouped
  | any => cases hchoice

end ScopeCondition

/-! ## Alternatives -/

namespace Alternative

open Selector (Lexes Reads Closes Marked combine grouped)

/-- The condition of the alternative as tokens. -/
def body (outer : Bool) (a : Alternative) : List String :=
  if outer || a.condition.isChoice then grouped a.condition.tokens else a.condition.tokens

/-- The tokens of the alternative as text. -/
def tokens (outer : Bool) (a : Alternative) : List String :=
  match a.priority with
  | .before => "L:" :: a.body outer
  | .normal => a.body outer
  | .after => "R:" :: a.body outer

theorem lexes {a : Alternative} (outer : Bool) (h : a.condition.Spellable) :
    Lexes (a.text outer).toList (a.tokens outer) := by
  have hcondition := ScopeCondition.lexes h
  have hbody : Lexes (if outer || a.condition.isChoice then inParentheses a.condition.text
      else a.condition.text).toList (a.body outer) := by
    unfold body
    split
    · exact hcondition.grouped
    · exact hcondition
  intro rest hrest
  have hbody := hbody rest hrest
  have hbefore : ∀ cs, Selector.tokensFrom [] ('L' :: ':' :: cs) = "L:" :: Selector.tokensFrom [] cs :=
    fun _ => rfl
  have hafter : ∀ cs, Selector.tokensFrom [] ('R' :: ':' :: cs) = "R:" :: Selector.tokensFrom [] cs :=
    fun _ => rfl
  rw [text, String.toList_append, List.append_assoc, tokens]
  cases a.priority with
  | before => exact (hbefore _).trans (congrArg _ hbody)
  | normal => exact hbody
  | after => exact (hafter _).trans (congrArg _ hbody)

theorem reads_body {a : Alternative} (outer : Bool) (h : a.condition.Spellable)
    {rest : List String} (hrest : Closes rest) :
    ∃ cs, Reads .operands (a.body outer ++ rest) cs rest ∧ combine .all cs = some a.condition := by
  unfold body
  split
  · exact ⟨_, (h.readsGrouped rest).more hrest.reads.stop, rfl⟩
  · next hbare =>
    have hchoice := (Bool.or_eq_false_iff.1 (Bool.eq_false_iff.2 hbare)).2
    exact h.readsBare hchoice rest hrest

/-- The mark is told from the condition behind it. -/
theorem marked {a : Alternative} (outer : Bool) (h : a.condition.Spellable) {rest : List String}
    (hrest : Closes rest) : Marked (a.tokens outer ++ rest) a.priority (a.body outer ++ rest) := by
  obtain ⟨cs, hreads, hcombine⟩ := reads_body outer h hrest
  have hne : cs ≠ [] := by
    rintro rfl
    cases hcombine
  obtain ⟨t, ts, hbody, hbefore, hafter⟩ := hreads.begins (by simp) hne
  rw [tokens]
  cases a.priority with
  | before => exact .before rfl
  | normal =>
    dsimp only
    rw [hbody]
    exact .normal hbefore hafter
  | after => exact .after rfl

end Alternative

namespace Selector

theorem tokens_text (outer : Bool) {as : List Alternative}
    (h : ∀ a ∈ as, a.condition.Spellable) :
    tokens (text outer as) = [","].intercalate (as.map (·.tokens outer)) := by
  have hall : List.Forall₂ Lexes ((as.map (·.text outer)).map String.toList)
      (as.map (·.tokens outer)) := by
    rw [List.map_map, List.forall₂_map_left_iff, List.forall₂_map_right_iff, List.forall₂_same]
    exact fun a ha => Alternative.lexes outer (h a ha)
  have hlexes := Lexes.intercalate separates_comma hall [] (fun _ h => by cases h)
  rw [List.append_nil] at hlexes
  rw [tokens, text, String.toList_intercalate]
  exact hlexes.trans (List.append_nil _)

theorem readsAlternatives_tokens (outer : Bool) : ∀ {as : List Alternative},
    (∀ a ∈ as, a.condition.Spellable) →
    ReadsAlternatives ([","].intercalate (as.map (·.tokens outer))) as
  | [], _ => .nothing
  | [a], h => by
    have ha := h a List.mem_cons_self
    have hrest : Closes [] := fun t ht => by cases ht
    obtain ⟨cs, hreads, hcombine⟩ := Alternative.reads_body outer ha hrest
    have hlast := ReadsAlternatives.last (Alternative.marked outer ha hrest) hreads (by simp)
    rw [hcombine, List.append_nil] at hlast
    rw [List.map_singleton, List.intercalate_singleton]
    exact hlast
  | a :: a' :: as, h => by
    have ha := h a List.mem_cons_self
    have hmore := readsAlternatives_tokens outer fun b hb => h b (List.mem_cons_of_mem a hb)
    rw [List.map_cons, List.map_cons, List.intercalate_cons_cons, ← List.map_cons,
      List.append_assoc]
    generalize [","].intercalate ((a' :: as).map (·.tokens outer)) = ts at hmore ⊢
    have hrest : Closes ("," :: ts) := fun t ht => .inr (.inr (Option.some_inj.1 ht).symm)
    obtain ⟨cs, hreads, hcombine⟩ := Alternative.reads_body outer ha hrest
    have hnext := ReadsAlternatives.next (Alternative.marked outer ha hrest) hreads rfl hmore
    rw [hcombine] at hnext
    exact hnext

/-- Reading the text of alternatives gives them back, in their order, and the reading of every text
ends: what it comes to is what the rules of reading allow, and they allow nothing else. -/
theorem parse_text : (∀ (outer : Bool) (as : List Alternative),
      (∀ a ∈ as, a.condition.Spellable) → (parse (text outer as)).alternatives = as) ∧
    ∀ (source : String) (as : List Alternative),
      ReadsAlternatives (tokens source) as ↔ as = (parse source).alternatives := by
  refine ⟨fun outer as h => ?_, readsAlternatives_iff⟩
  have hreads := readsAlternatives_tokens outer h
  rw [← tokens_text outer h] at hreads
  exact ((readsAlternatives_iff _ _).1 hreads).symm

/-- Outside of parentheses, what follows a bar is lost. -/
example : (parse "(a) | (b), c").alternatives = [⟨.normal, .path ["a"]⟩] := by rfl

/-- Markup outside of what is raw or a quote in no list, or code, or anything but a comment. -/
def markupOrCode : List Alternative :=
  [⟨.before, .all [.path ["text.html", "markup"],
      .excluding (.any [.path ["markup.raw"], .all [.path ["markup.quote"],
        .excluding (.path ["markup.list"])]])]⟩,
    ⟨.after, .any [.path ["source-x"], .path ["L"]]⟩, ⟨.normal, .excluding (.path ["comment"])⟩]

theorem parse_text_markupOrCode :
    (∀ a ∈ markupOrCode, a.condition.Spellable) ∧
    text false markupOrCode = "L:(text.html markup) (-((markup.raw) | ((markup.quote) " ++
      "(-(markup.list))))), R:((source-x) | (L)), -(comment)" ∧
    (parse (text false markupOrCode)).alternatives = markupOrCode := by
  have hspellable : ∀ a ∈ markupOrCode, a.condition.Spellable := by decide +kernel
  exact ⟨hspellable, by decide +kernel, parse_text.1 false markupOrCode hspellable⟩

end Selector

end Highlight
