import Highlight.Proofs.YamlScalars

/-!
# Flow collections as tokens

How the lexer reads what flow collections are written with: brackets, commas, marked keys, quoted
scalars and words. Inside flow collections, with no block around them, nothing requires a key
(`Lexer.Level`), so each of these is read as its token whatever came before (`Lexer.Leads`).
-/

namespace Highlight.Yaml

namespace Lexer

/-! ## States inside flow collections -/

/-- Inside `level` flow collections with no block around them. -/
structure Level (level : Nat) (l : Lexer) : Prop where
  count : l.keys.length = level + 1
  free : ∀ k ∈ l.keys, k.required = false
  unindented : l.indents = []
  column : 0 < level → 0 < l.here.column

/-- Whether the colon that comes next is not taken for one after an unmarked key. -/
structure Marked (l : Lexer) : Prop where
  keyAllowed : l.keyAllowed = false
  impossible : ∀ k ∈ l.keys.head?, k.possible = false

/-- The place, given up where it is too old. -/
def renew (c : Cursor) (k : KeyPlace) : KeyPlace :=
  if k.possible && (k.start.line < c.line || k.start.index + 1024 < c.index) then
    { k with possible := false }
  else k

/-- The state without places that are too old. -/
def renewed (l : Lexer) : Lexer := { l with keys := l.keys.map (renew l.here) }

/-- The state without the innermost place. -/
def freed (l : Lexer) : Lexer :=
  { l with keys := (l.keys.take 1).map (fun k => { k with possible := false }) ++ l.keys.tail }

/-- The state where a key may start here, if it may start anywhere. -/
def saved (l : Lexer) : Lexer :=
  if l.keyAllowed then { l with keys := ⟨true, false, l.tokens.size, l.here⟩ :: l.keys.tail }
  else l

/-- The state past `n` characters that are read as a token. -/
def passed (l : Lexer) (t : Token) (n : Nat) (keyAllowed : Bool) : Lexer :=
  { (l.emit t).skip n with keyAllowed := keyAllowed }

variable {l : Lexer} {n : Nat}

theorem renew_required (c : Cursor) (k : KeyPlace) : (renew c k).required = k.required := by
  unfold renew
  split <;> rfl

theorem renew_possible {c : Cursor} {k : KeyPlace} (h : k.possible = false) :
    (renew c k).possible = false := by
  simp [renew, h]

namespace Level

theorem renewed (h : Level n l) : Level n l.renewed where
  count := by rw [Lexer.renewed, List.length_map, h.count]
  free := by
    intro k hk
    obtain ⟨k', hk', rfl⟩ := List.mem_map.1 hk
    rw [renew_required]
    exact h.free k' hk'
  unindented := h.unindented
  column := h.column

theorem exists_keys (h : Level n l) : ∃ k ks, l.keys = k :: ks ∧ ks.length = n := by
  obtain ⟨k, ks, hkeys⟩ := List.exists_cons_of_length_eq_add_one h.count
  have hcount := h.count
  rw [hkeys, List.length_cons] at hcount
  exact ⟨k, ks, hkeys, Nat.succ.inj hcount⟩

theorem freed (h : Level n l) : Level n l.freed where
  count := by
    obtain ⟨k, ks, hkeys, hks⟩ := h.exists_keys
    simp [Lexer.freed, hkeys, hks]
  free := by
    have hfree := h.free
    obtain ⟨k, ks, hkeys, -⟩ := h.exists_keys
    rw [hkeys] at hfree
    intro k' hk'
    simp only [Lexer.freed, hkeys] at hk'
    rcases List.mem_cons.1 hk' with rfl | hk'
    · exact hfree k List.mem_cons_self
    · exact hfree k' (List.mem_cons_of_mem _ hk')
  unindented := h.unindented
  column := h.column

theorem saved (h : Level n l) : Level n l.saved := by
  obtain ⟨k, ks, hkeys, hks⟩ := h.exists_keys
  unfold Lexer.saved
  split
  · refine ⟨?_, ?_, h.unindented, h.column⟩
    · rw [hkeys, List.tail_cons, List.length_cons, hks]
    · intro k' hk'
      rw [hkeys, List.tail_cons] at hk'
      rcases List.mem_cons.1 hk' with rfl | hk'
      · rfl
      · exact h.free k' (hkeys ▸ List.mem_cons_of_mem _ hk')
  · exact h

theorem skip (h : Level n l) (m : Nat) : Level n (l.skip m) where
  count := h.count
  free := h.free
  unindented := h.unindented
  column := fun hn => Cursor.column_pos_steps (h.column hn) m

theorem passed (h : Level n l) (t : Token) (m : Nat) (keyAllowed : Bool) :
    Level n (l.passed t m keyAllowed) where
  count := h.count
  free := h.free
  unindented := h.unindented
  column := (h.skip m).column

/-- Inside flow collections there are places for more than the block around them. -/
theorem inFlow (h : Level (n + 1) l) : l.inFlow = true := by
  rw [Lexer.inFlow, h.count]
  simp

theorem dropStale (h : Level n l) : l.dropStale = some l.renewed := by
  unfold Lexer.dropStale
  rw [mapM_of_forall₂ (l := l.keys.map (renew l.here))]
  · rfl
  · apply List.forall₂_map_left_iff.2
    apply List.forall₂_same.2
    intro k hk
    have hfree := h.free k hk
    unfold renew
    split
    · simp [hfree]
    · rfl

theorem dropKey (h : Level n l) : l.dropKey = some l.freed := by
  obtain ⟨k, ks, hkeys, -⟩ := h.exists_keys
  have hfree := h.free k (hkeys ▸ List.mem_cons_self)
  simp [Lexer.dropKey, Lexer.freed, hkeys, hfree]

theorem saveKey (h : Level n l) : l.saveKey = some l.saved := by
  have hindents : (l.indents.head? == some l.here.column) = false := by
    rw [h.unindented]
    rfl
  have hkeys : l.freed.keys.tail = l.keys.tail := by
    obtain ⟨k, ks, hkeys, -⟩ := h.exists_keys
    simp [Lexer.freed, hkeys]
  unfold Lexer.saveKey Lexer.saved
  -- a key could be required only where a block starts, and there is none
  split
  · rw [h.dropKey, hindents, Bool.and_false]
    simp only [Option.bind_eq_bind, Option.bind_some, hkeys]
    rfl
  · rfl

theorem closeBlocks (h : Level n l) (column : Option Nat) : l.closeBlocks column = l := by
  have hindents := h.unindented
  cases l
  unfold Lexer.closeBlocks
  split
  · rfl
  · dsimp only at hindents
    simp only [hindents]
    show Lexer.mk _ (_ ++ ([] : List Token).toArray) [] _ _ = _
    rw [Array.append_empty]

end Level

theorem Marked.renewed (h : Marked l) : Marked l.renewed where
  keyAllowed := h.keyAllowed
  impossible := by
    intro k hk
    rw [Lexer.renewed, List.head?_map] at hk
    obtain ⟨k', hk', rfl⟩ := Option.map_eq_some_iff.1 hk
    exact renew_possible (h.impossible k' hk')

theorem Marked.skip (h : Marked l) (m : Nat) : Marked (l.skip m) := ⟨h.keyAllowed, h.impossible⟩

/-! ## Steps -/

/-- Whether a token starts with the character where white space is skipped. -/
def Begins (c : Char) : Prop := (isBlank c || isBreak c) = false ∧ c ≠ '#' ∧ c ≠ '\ufeff'

instance (c : Char) : Decidable (Begins c) := inferInstanceAs (Decidable (_ ∧ _))

variable {c : Char} {cs rest : List Char}

theorem toToken_begins (hc : Begins c) (h : l.here.rest = c :: cs) (fuel : Nat) :
    toToken (fuel + 1) l = l := by
  have hhere : l.here.here = some c := by rw [Cursor.here, h]; rfl
  obtain ⟨hgap, hcomment, hmark⟩ := hc
  rw [Bool.or_eq_false_iff, isBlank, Bool.or_eq_false_iff] at hgap
  simp only [beq_eq_false_iff_ne] at hgap
  obtain ⟨⟨hspace, htab⟩, hbreak⟩ := hgap
  simp [toToken, hhere, hbreak]

/-- Where a token starts the state goes on with what is read for it. -/
theorem finish_begins (hl : Level n l) (hc : Begins c) (h : l.here.rest = c :: cs) (fuel : Nat) :
    finish (fuel + 1) l = (l.renewed.readToken c).bind (finish fuel) := by
  have hhere : l.renewed.here.here = some c := by
    show l.here.rest.head? = _
    rw [h]
    rfl
  rw [finish, toToken_begins hc h, hl.dropStale]
  simp only [Option.bind_eq_bind, Option.bind_some, hhere, hl.renewed.closeBlocks]

/-- A space between tokens is passed over. -/
theorem finish_space (h : l.here.rest = ' ' :: cs) (fuel : Nat) :
    finish fuel l = finish fuel (l.skip 1) := by
  cases fuel with
  | zero => rfl
  | succ fuel =>
    have hhere : l.here.here = some ' ' := by rw [Cursor.here, h]; rfl
    have hrest : (l.skip 1).here.rest = cs := by
      show (l.here.steps 1).rest = cs
      rw [Cursor.steps_rest, h]
      rfl
    have hskip : toToken (l.here.rest.length + 1) l =
        toToken ((l.skip 1).here.rest.length + 1) (l.skip 1) := by
      rw [hrest, h, List.length_cons, toToken]
      simp only [hhere]
    rw [finish, finish, hskip]

/-- The lexer comes from one state to another past the characters, with the tokens added. -/
structure Leads (l : Lexer) (cs : List Char) (ts : List Token) (l' : Lexer) : Prop where
  goes : ∃ m ≤ cs.length, ∀ fuel, finish (m + fuel) l = finish fuel l'
  rest : l.here.rest = cs ++ l'.here.rest
  tokens : l'.tokens.toList = l.tokens.toList ++ ts

theorem Leads.trans {l₁ l₂ l₃ : Lexer} {cs cs' : List Char} {ts ts' : List Token}
    (h : Leads l₁ cs ts l₂) (h' : Leads l₂ cs' ts' l₃) :
    Leads l₁ (cs ++ cs') (ts ++ ts') l₃ := by
  obtain ⟨m, hm, hgoes⟩ := h.goes
  obtain ⟨m', hm', hgoes'⟩ := h'.goes
  refine ⟨⟨m + m', ?_, fun fuel => ?_⟩, ?_, ?_⟩
  · rw [List.length_append]
    omega
  · rw [Nat.add_assoc, hgoes, hgoes']
  · rw [h.rest, h'.rest, List.append_assoc]
  · rw [h'.tokens, h.tokens, List.append_assoc]

theorem leads_space (h : l.here.rest = ' ' :: cs) : Leads l [' '] [] (l.skip 1) where
  goes := ⟨0, Nat.zero_le _, fun fuel => by rw [Nat.zero_add, finish_space h]⟩
  rest := by
    show _ = [' '] ++ (l.here.steps 1).rest
    rw [Cursor.steps_rest, h]
    rfl
  tokens := (List.append_nil _).symm

/-- A token leads past the characters that it is read from. -/
theorem leads_of_readToken (hl : Level n l) (hc : Begins c) (h : l.here.rest = c :: cs ++ rest)
    {t : Token} {l' : Lexer} (hread : l.renewed.readToken c = some l')
    (hhere : l'.here = l.here.steps (c :: cs).length) (htokens : l'.tokens = l.tokens.push t) :
    Leads l (c :: cs) [t] l' where
  goes := by
    refine ⟨1, Nat.succ_le_succ (Nat.zero_le _), fun fuel => ?_⟩
    rw [Nat.add_comm, finish_begins hl hc h, hread]
    rfl
  rest := by rw [hhere, Cursor.steps_rest_append h, h]
  tokens := by rw [htokens, Array.toList_push]

/-! ## The whole text -/

theorem level_ofList (cs : List Char) : Level 0 (ofList cs) :=
  ⟨rfl, List.forall_mem_singleton.2 rfl, rfl, fun h => absurd h (Nat.lt_irrefl 0)⟩

/-- Where nothing is left the tokens are complete. -/
theorem finish_nil (hl : Level n l) (h : l.here.rest = []) (fuel : Nat) :
    finish (fuel + 1) l = some l.tokens.toList := by
  have hhere : l.here.here = none := by rw [Cursor.here, h]; rfl
  have hskip : ∀ fuel, toToken (fuel + 1) l = l := fun fuel => by simp only [toToken, hhere]
  have hrenewed : l.renewed.here.here = none := hhere
  rw [finish, hskip, hl.dropStale]
  simp only [Option.bind_eq_bind, Option.bind_some, hrenewed, hl.renewed.closeBlocks,
    hl.renewed.dropKey]
  rfl

/-- A text that leads to its end is read as the tokens. -/
theorem tokens?_of_leads {ts : List Token} {l' : Lexer} (hallowed : cs.all isAllowed = true)
    (h : Leads (ofList cs) cs ts l') (hl : Level n l') : tokens? cs = some ts := by
  obtain ⟨m, hm, hgoes⟩ := h.goes
  have hrest : l'.here.rest = [] := List.self_eq_append_right.1 h.rest
  have htokens : l'.tokens.toList = ts := h.tokens
  -- each token takes a character at least, so the steps to the end leave one more
  obtain ⟨fuel, hfuel⟩ : ∃ fuel, cs.length + 2 = m + (fuel + 1) :=
    ⟨cs.length + 1 - m, by omega⟩
  rw [tokens?, if_pos hallowed, hfuel, hgoes, finish_nil hl hrest, htokens]

/-! ## Brackets and commas -/

theorem atMarker_eq_false {mark : Char} (h : l.here.rest = c :: cs) (hc : c ≠ mark) :
    l.here.atMarker mark = false := by
  simp [Cursor.atMarker, h, hc]

theorem saved_here (l : Lexer) : l.saved.here = l.here := by
  unfold saved
  split <;> rfl

theorem saved_tokens (l : Lexer) : l.saved.tokens = l.tokens := by
  unfold saved
  split <;> rfl

/-- The characters that a flow collection stands between, and their tokens. -/
structure Brackets (first : Char) (opening : Token) (last : Char) (closing : Token) : Prop where
  begins : Begins first ∧ Begins last
  opens : ∀ {l : Lexer} {cs : List Char}, l.here.rest = first :: cs →
    l.readToken first = l.openFlow opening
  closes : ∀ {l : Lexer} {cs : List Char}, l.here.rest = last :: cs →
    l.readToken last = l.closeFlow closing
  stops : ∀ rest, Stops (last :: rest)

theorem brackets_list : Brackets '[' .openList ']' .closeList where
  begins := by decide
  opens := fun h => by simp [readToken, atMarker_eq_false h]
  closes := fun h => by simp [readToken, atMarker_eq_false h]
  stops := fun rest => ⟨']', rest, rfl, by decide, rfl⟩

theorem brackets_dict : Brackets '\x7b' .openDict '\x7d' .closeDict where
  begins := by decide
  opens := fun h => by simp [readToken, atMarker_eq_false h]
  closes := fun h => by simp [readToken, atMarker_eq_false h]
  stops := fun rest => ⟨'\x7d', rest, rfl, by decide, rfl⟩

variable {first last : Char} {opening closing : Token}

/-- The first bracket leads into the collection. -/
theorem Brackets.leads_first (h : Brackets first opening last closing) (hl : Level n l)
    (hrest : l.here.rest = first :: rest) :
    ∃ l', Leads l [first] [opening] l' ∧ Level (n + 1) l' := by
  have hsaved := hl.renewed.saved
  have hread := h.opens (l := l.renewed) hrest
  rw [openFlow, hl.renewed.saveKey] at hread
  refine ⟨_, leads_of_readToken hl h.begins.1 hrest hread ?_ ?_, ?_⟩
  · show l.renewed.saved.here.steps 1 = _
    rw [saved_here]
    rfl
  · show l.renewed.saved.tokens.push opening = _
    rw [saved_tokens]
    rfl
  · refine ⟨?_, ?_, hsaved.unindented, fun _ => Nat.succ_pos _⟩
    · exact congrArg Nat.succ hsaved.count
    · exact List.forall_mem_cons.2 ⟨rfl, hsaved.free⟩

/-- The last bracket leads out of the collection. -/
theorem Brackets.leads_last (h : Brackets first opening last closing) (hl : Level (n + 1) l)
    (hrest : l.here.rest = last :: rest) :
    ∃ l', Leads l [last] [closing] l' ∧ Level n l' := by
  have hfreed := hl.renewed.freed
  have hread := h.closes (l := l.renewed) hrest
  rw [closeFlow, hl.renewed.dropKey] at hread
  simp only [Option.bind_eq_bind, Option.bind_some, hfreed.inFlow, if_true] at hread
  refine ⟨_, leads_of_readToken hl h.begins.2 hrest hread rfl rfl, ?_⟩
  refine ⟨?_, ?_, hfreed.unindented, fun _ => Nat.succ_pos _⟩
  · show l.renewed.freed.keys.tail.length = _
    rw [List.length_tail, hfreed.count]
    rfl
  · exact fun k hk => hfreed.free k (List.mem_of_mem_tail hk)

theorem leads_comma (hl : Level n l) (h : l.here.rest = ',' :: rest) :
    ∃ l', Leads l [','] [.comma] l' ∧ Level n l' := by
  have hread : l.renewed.readToken ',' = l.renewed.readComma := by
    simp [readToken, atMarker_eq_false (l := l.renewed) h]
  rw [readComma, hl.renewed.dropKey] at hread
  exact ⟨_, leads_of_readToken hl (by decide) h hread rfl rfl,
    hl.renewed.freed.passed .comma 1 true⟩

/-! ## Keys -/

/-- The mark of a key leads to where a colon is not taken for one after an unmarked key. -/
theorem leads_key (hl : Level (n + 1) l) (h : l.here.rest = '?' :: rest) :
    ∃ l', Leads l ['?'] [.key] l' ∧ Level (n + 1) l' ∧ Marked l' := by
  have hflow := hl.renewed.inFlow
  have hread : l.renewed.readToken '?' = l.renewed.readKey := by
    simp [readToken, atMarker_eq_false (l := l.renewed) h, hflow]
  rw [readKey, openBlockHere, hflow, if_pos rfl] at hread
  simp only [Option.bind_eq_bind, Option.bind_some, hl.renewed.dropKey] at hread
  refine ⟨_, leads_of_readToken hl (by decide) h hread rfl rfl,
    hl.renewed.freed.passed .key 1 _, ?_, ?_⟩
  · show (!l.renewed.freed.inFlow) = false
    rw [hl.renewed.freed.inFlow]
    rfl
  · show ∀ k ∈ l.renewed.freed.keys.head?, k.possible = false
    obtain ⟨k, ks, hkeys, -⟩ := hl.renewed.exists_keys
    simp [freed, hkeys]

/-- The colon after a marked key leads to its value. -/
theorem leads_value (hl : Level (n + 1) l) (hmarked : Marked l) (h : l.here.rest = ':' :: rest) :
    ∃ l', Leads l [':'] [.value] l' ∧ Level (n + 1) l' := by
  have hflow := hl.renewed.inFlow
  have hread : l.renewed.readToken ':' = l.renewed.readValue := by
    simp [readToken, atMarker_eq_false (l := l.renewed) h, hflow]
  obtain ⟨k, ks, hkeys, -⟩ := hl.renewed.exists_keys
  have hpossible : k.possible = false := hmarked.renewed.impossible k (by rw [hkeys]; rfl)
  simp only [readValue, hkeys, hpossible, openBlockHere, hflow] at hread
  exact ⟨_, leads_of_readToken hl (by decide) h hread rfl rfl,
    hl.renewed.passed .value 1 _⟩

/-! ## Scalars -/

theorem Marked.saved (h : Marked l) : l.saved = l := by
  rw [Lexer.saved, h.keyAllowed]
  rfl

/-- A scalar leads past it, and where it is a marked key to the colon after it. -/
theorem leads_scalar (hl : Level n l) (hc : Begins c) (h : l.here.rest = c :: cs ++ rest)
    {t : Token}
    (hread : l.renewed.readToken c = some (l.renewed.saved.passed t (c :: cs).length false)) :
    ∃ l', Leads l (c :: cs) [t] l' ∧ Level n l' ∧ (Marked l → Marked l') := by
  refine ⟨_, leads_of_readToken hl hc h hread ?_ ?_,
    hl.renewed.saved.passed t (c :: cs).length false, fun hmarked => ?_⟩
  · show l.renewed.saved.here.steps _ = _
    rw [saved_here]
    rfl
  · show l.renewed.saved.tokens.push t = _
    rw [saved_tokens]
    rfl
  · refine ⟨rfl, ?_⟩
    show ∀ k ∈ l.renewed.saved.keys.head?, k.possible = false
    rw [hmarked.renewed.saved]
    exact hmarked.renewed.impossible

theorem leads_quoted (hl : Level n l) (h : l.here.rest = quoted cs ++ rest) :
    ∃ l', Leads l (quoted cs) [.scalar (String.ofList cs) false] l' ∧ Level n l' ∧
      (Marked l → Marked l') := by
  have hrest : l.renewed.here.rest = '"' :: (cs.flatMap escaped ++ ['"'] ++ rest) := h
  have hsaved : l.renewed.saved.here.rest = quoted cs ++ rest := by
    rw [saved_here]
    exact h
  have hread : l.renewed.readToken '"' = l.renewed.readQuoted true := by
    simp [readToken, atMarker_eq_false hrest]
  apply leads_scalar hl (by decide) h
  rw [hread, readQuoted, readKeyPart, hl.renewed.saveKey]
  simp only [Option.bind_eq_bind, Option.bind_some, quotedScalar_quoted hsaved, Option.map_some]
  rfl

/-- The first character of a word comes right before one that is no white space. -/
theorem exists_next (hword : ∀ x ∈ cs, isWordChar x = true) (hstop : Stops rest)
    (h : l.here.rest = c :: cs ++ rest) : ∃ y, l.here.next = some y ∧
      (isBlank y || isBreak y) = false := by
  cases cs with
  | nil =>
    obtain ⟨y, rest, rfl, hgap, -⟩ := hstop
    refine ⟨y, ?_, hgap⟩
    rw [Cursor.next, h]
    rfl
  | cons y cs =>
    refine ⟨y, ?_, isGap_of_isWordChar (hword y List.mem_cons_self)⟩
    rw [Cursor.next, h]
    rfl

theorem startsPlain_of_isWordChar (hc : isWordChar c = true) {y : Char}
    (hy : (isBlank y || isBreak y) = false) (inFlow : Bool) :
    startsPlain inFlow c (some y) = true := by
  have hgap := isGap_of_isWordChar hc
  rw [Bool.or_eq_false_iff] at hy
  by_cases hhyphen : c = '-'
  · simp [startsPlain, hhyphen, hy.1]
  · simp [startsPlain, isIndicator, hgap, hhyphen, isWordChar_ne hc '?', isWordChar_ne hc ':',
      isWordChar_ne hc ',', isWordChar_ne hc '[', isWordChar_ne hc ']', isWordChar_ne hc '\x7b',
      isWordChar_ne hc '\x7d', isWordChar_ne hc '#', isWordChar_ne hc '&', isWordChar_ne hc '*',
      isWordChar_ne hc '!', isWordChar_ne hc '|', isWordChar_ne hc '>', isWordChar_ne hc '\'',
      isWordChar_ne hc '"', isWordChar_ne hc '%', isWordChar_ne hc '@', isWordChar_ne hc '`']

theorem readToken_word (hcolumn : 0 < l.here.column)
    (hword : ∀ x ∈ c :: cs, isWordChar x = true) (hstop : Stops rest)
    (h : l.here.rest = c :: cs ++ rest) : l.readToken c = l.readPlain := by
  have hc := hword c List.mem_cons_self
  obtain ⟨y, hnext, hgap⟩ :=
    exists_next (fun x hx => hword x (List.mem_cons_of_mem c hx)) hstop h
  have hfirst : (l.here.column == 0) = false := beq_eq_false_iff_ne.2 (Nat.ne_of_gt hcolumn)
  have halone : isBlankOrEnd l.here.next = false := by rw [hnext]; exact hgap
  have hstarts : startsPlain l.inFlow c l.here.next = true := by
    rw [hnext]
    exact startsPlain_of_isWordChar hc hgap l.inFlow
  simp [readToken, hfirst, Cursor.atMarker, halone, hstarts, isWordChar_ne hc '[',
    isWordChar_ne hc ']', isWordChar_ne hc '\x7b', isWordChar_ne hc '\x7d', isWordChar_ne hc ',',
    isWordChar_ne hc '?', isWordChar_ne hc ':', isWordChar_ne hc '*', isWordChar_ne hc '&',
    isWordChar_ne hc '!', isWordChar_ne hc '|', isWordChar_ne hc '>', isWordChar_ne hc '\'',
    isWordChar_ne hc '"']

theorem begins_of_isWordChar (h : isWordChar c = true) : Begins c :=
  ⟨isGap_of_isWordChar h, isWordChar_ne h '#', isWordChar_ne h '\ufeff'⟩

theorem leads_word (hl : Level (n + 1) l) (hne : cs ≠ []) (hword : ∀ x ∈ cs, isWordChar x = true)
    (hstop : Stops rest) (h : l.here.rest = cs ++ rest) :
    ∃ l', Leads l cs [.scalar (String.ofList cs) true] l' ∧ Level (n + 1) l' ∧
      (Marked l → Marked l') := by
  have hcolumn := hl.renewed.saved.column (Nat.succ_pos n)
  have hsaved : l.renewed.saved.here.rest = cs ++ rest := by
    rw [saved_here]
    exact h
  have hscalar := fun indent => plainScalar_word indent hne hword hstop hcolumn hsaved
  obtain ⟨c, cs, rfl⟩ := List.exists_cons_of_ne_nil hne
  have hread := readToken_word (l := l.renewed) (hl.renewed.column (Nat.succ_pos n)) hword hstop h
  apply leads_scalar hl (begins_of_isWordChar (hword c List.mem_cons_self)) h
  rw [hread, readPlain, hl.renewed.saveKey]
  simp only [Option.bind_eq_bind, Option.bind_some, hl.renewed.saved.inFlow, hscalar]
  rfl

end Lexer

end Highlight.Yaml
