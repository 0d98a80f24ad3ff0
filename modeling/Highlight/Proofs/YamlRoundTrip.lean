import Highlight.Data.Yaml.Document
import Highlight.Proofs.YamlTokens

/-!
# YAML texts that are read back

`Yaml.render` writes a value as flow collections with quoted scalars and words, where all keys are
marked, and `Yaml.parse?` reads the value back (`Yaml.parse?_rendered`): the text is cut into the
tokens of the value (`lexes_characters`), and these are read as the value (`ReadsBack`).
-/

namespace Highlight.Yaml

/-! ## Writing -/

/-- What stands before an item or entry. -/
def separator (first : Bool) : List Char := if first then [] else [',', ' ']

/-- The characters of a value. A key is marked, for only a short one may do without; values that are
not written are left out. -/
def characters : Value → List Char
  | .text s => quoted s.toList
  | .plain w => w.toList
  | .list vs => '[' :: (items true vs ++ [']'])
  | .dict es => '\x7b' :: (pairs true es ++ ['\x7d'])
  | _ => []
where
  /-- The items of a list. -/
  items : Bool → List Value → List Char
    | _, [] => []
    | first, v :: vs => separator first ++ (characters v ++ items false vs)
  /-- The entries of a dictionary. -/
  pairs : Bool → List (Value × Value) → List Char
    | _, [] => []
    | first, (k, v) :: es =>
      separator first ++
        (('?' :: ' ' :: (characters k ++ [':', ' '])) ++ (characters v ++ pairs false es))

/-- A text for a value. -/
def render (v : Value) : String := String.ofList (characters v)

/-! ## Tokens of values -/

/-- The comma before an item or entry. -/
def commas (first : Bool) : List Token := if first then [] else [.comma]

/-- The tokens of a value. -/
def tokens : Value → List Token
  | .text s => [.scalar s false]
  | .plain w => [.scalar w true]
  | .list vs => .openList :: (items true vs ++ [.closeList])
  | .dict es => .openDict :: (pairs true es ++ [.closeDict])
  | _ => []
where
  /-- The tokens of the items of a list. -/
  items : Bool → List Value → List Token
    | _, [] => []
    | first, v :: vs => commas first ++ (tokens v ++ items false vs)
  /-- The tokens of the entries of a dictionary. -/
  pairs : Bool → List (Value × Value) → List Token
    | _, [] => []
    | first, (k, v) :: es =>
      commas first ++ ((.key :: (tokens k ++ [.value])) ++ (tokens v ++ pairs false es))

/-- The scalars that are written: texts between quotes and words without them. -/
inductive IsScalar : Value → Prop
  | text (s : String) : IsScalar (.text s)
  | word {w : String} (hne : w ≠ "") (h : w.toList.all isWordChar = true) : IsScalar (.plain w)

/-- The values that are written. -/
abbrev Writable : Value → Prop := Value.Built IsScalar IsScalar

/-! ## Cutting -/

open Lexer (Level Leads Marked)

/-- The text is read as the tokens inside flow collections, in front of what may follow it. -/
def Lexes (follows : List Char → Prop) (level : Nat) (cs : List Char) (ts : List Token) : Prop :=
  ∀ (l : Lexer) (rest : List Char), Level level l → l.here.rest = cs ++ rest → follows rest →
    ∃ l', Leads l cs ts l' ∧ Level level l'

/-- Nothing is asked of what follows. -/
def Anything (_ : List Char) : Prop := True

theorem stops_comma (rest : List Char) : Stops (',' :: rest) :=
  ⟨',', rest, rfl, by decide, rfl⟩

theorem stops_colon (rest : List Char) : Stops (':' :: ' ' :: rest) :=
  ⟨':', ' ' :: rest, rfl, by decide, rfl⟩

variable {follows follows' : List Char → Prop} {level : Nat} {cs cs' rest : List Char}
  {ts ts' : List Token}

theorem rest_eq {l l' : Lexer} (hl : Leads l cs ts l') (h : l.here.rest = cs ++ rest) :
    l'.here.rest = rest := by
  have hrest := hl.rest
  rw [h] at hrest
  exact (List.append_cancel_left hrest).symm

namespace Lexes

theorem nil : Lexes follows level [] [] := fun l _ hl _ _ =>
  ⟨l, ⟨⟨0, Nat.le_refl 0, fun fuel => by rw [Nat.zero_add]⟩, rfl, (List.append_nil _).symm⟩, hl⟩

theorem append (h : Lexes follows level cs ts) (h' : Lexes follows' level cs' ts')
    (hfollows : ∀ rest, follows' rest → follows (cs' ++ rest)) :
    Lexes follows' level (cs ++ cs') (ts ++ ts') := by
  intro l rest hl hrest hrest'
  rw [List.append_assoc] at hrest
  obtain ⟨l₁, hleads₁, hl₁⟩ := h l _ hl hrest (hfollows rest hrest')
  obtain ⟨l₂, hleads₂, hl₂⟩ := h' l₁ rest hl₁ (rest_eq hleads₁ hrest) hrest'
  exact ⟨l₂, hleads₁.trans hleads₂, hl₂⟩

/-- What stands between brackets is read between the tokens of the brackets. -/
theorem brackets {first last : Char} {opening closing : Token}
    (hbrackets : Lexer.Brackets first opening last closing) (h : Lexes Stops (level + 1) cs ts) :
    Lexes follows level (first :: (cs ++ [last])) (opening :: (ts ++ [closing])) := by
  intro l rest hl hrest _
  have hrest : l.here.rest = [first] ++ (cs ++ last :: rest) := by
    rw [hrest]
    simp
  obtain ⟨l₁, hfirst, hl₁⟩ := hbrackets.leads_first hl hrest
  have hrest₁ := rest_eq hfirst hrest
  obtain ⟨l₂, hinner, hl₂⟩ := h l₁ _ hl₁ hrest₁ (hbrackets.stops rest)
  obtain ⟨l₃, hlast, hl₃⟩ := hbrackets.leads_last hl₂ (rest_eq hinner hrest₁)
  exact ⟨l₃, hfirst.trans (hinner.trans hlast), hl₃⟩

theorem separator (first : Bool) : Lexes follows level (separator first) (commas first) := by
  cases first with
  | true => exact nil
  | false =>
    intro l rest hl hrest _
    obtain ⟨l₁, hcomma, hl₁⟩ := Lexer.leads_comma hl hrest
    have hspace := Lexer.leads_space (rest_eq hcomma hrest)
    exact ⟨_, hcomma.trans hspace, hl₁.skip 1⟩

end Lexes

/-- A scalar is read as its token, and where it is a marked key the colon after it as its mark. -/
theorem IsScalar.leads {v : Value} (h : IsScalar v) {l : Lexer} (hl : Level (level + 1) l)
    (hrest : l.here.rest = characters v ++ rest) (hstop : Stops rest) :
    ∃ l', Leads l (characters v) (tokens v) l' ∧ Level (level + 1) l' ∧ (Marked l → Marked l') := by
  cases h with
  | text s =>
    have hleads := Lexer.leads_quoted hl hrest
    rw [String.ofList_toList] at hleads
    exact hleads
  | @word w hne hword =>
    have hne : w.toList ≠ [] := fun heq => hne (String.toList_eq_nil_iff.1 heq)
    have hleads := Lexer.leads_word hl hne (List.all_eq_true.1 hword) hstop hrest
    rw [String.ofList_toList] at hleads
    exact hleads

/-- A marked key with its colon. -/
theorem lexes_key {k : Value} (h : IsScalar k) :
    Lexes follows (level + 1) ('?' :: ' ' :: (characters k ++ [':', ' ']))
      (.key :: (tokens k ++ [.value])) := by
  intro l rest hl hrest _
  have hrest : l.here.rest = ['?'] ++ (' ' :: (characters k ++ (':' :: ' ' :: rest))) := by
    rw [hrest]
    simp
  obtain ⟨l₁, hkey, hl₁, hmarked₁⟩ := Lexer.leads_key hl hrest
  have hrest₁ := rest_eq hkey hrest
  have hspace := Lexer.leads_space hrest₁
  have hrest₂ := rest_eq hspace hrest₁
  obtain ⟨l₃, hscalar, hl₃, hmarked₃⟩ := h.leads (hl₁.skip 1) hrest₂ (stops_colon rest)
  have hrest₃ := rest_eq hscalar hrest₂
  obtain ⟨l₄, hvalue, hl₄⟩ := Lexer.leads_value hl₃ (hmarked₃ (hmarked₁.skip 1)) hrest₃
  have hspace' := Lexer.leads_space (rest_eq hvalue hrest₃)
  exact ⟨_, hkey.trans (hspace.trans (hscalar.trans (hvalue.trans hspace'))), hl₄.skip 1⟩

theorem stops_items (vs : List Value) (h : Stops rest) :
    Stops (characters.items false vs ++ rest) := by
  cases vs with
  | nil => exact h
  | cons v vs => exact stops_comma _

theorem stops_pairs (es : List (Value × Value)) (h : Stops rest) :
    Stops (characters.pairs false es ++ rest) := by
  cases es with
  | nil => exact h
  | cons e es => exact stops_comma _

theorem lexes_items : ∀ (first : Bool) (vs : List Value),
    (∀ v ∈ vs, Lexes Stops (level + 1) (characters v) (tokens v)) →
      Lexes Stops (level + 1) (characters.items first vs) (tokens.items first vs)
  | _, [], _ => .nil
  | first, v :: vs, h => by
    have hv := h v List.mem_cons_self
    have hvs := lexes_items false vs fun w hw => h w (List.mem_cons_of_mem _ hw)
    have hseparator : Lexes Anything (level + 1) (separator first) (commas first) :=
      .separator first
    exact hseparator.append (hv.append hvs fun rest => stops_items vs) fun _ _ => trivial

theorem lexes_pairs : ∀ (first : Bool) (es : List (Value × Value)), (∀ e ∈ es, IsScalar e.1) →
    (∀ e ∈ es, Lexes Stops (level + 1) (characters e.2) (tokens e.2)) →
      Lexes Stops (level + 1) (characters.pairs first es) (tokens.pairs first es)
  | _, [], _, _ => .nil
  | first, (k, v) :: es, hkeys, h => by
    have hk : IsScalar k := hkeys (k, v) List.mem_cons_self
    have hv : Lexes Stops (level + 1) (characters v) (tokens v) := h (k, v) List.mem_cons_self
    have hes := lexes_pairs false es (fun e he => hkeys e (List.mem_cons_of_mem _ he))
      fun e he => h e (List.mem_cons_of_mem _ he)
    have hseparator : Lexes Anything (level + 1) (separator first) (commas first) :=
      .separator first
    have hkey : Lexes Anything (level + 1) ('?' :: ' ' :: (characters k ++ [':', ' ']))
        (.key :: (tokens k ++ [.value])) := lexes_key hk
    have hentry := hkey.append (hv.append hes fun rest => stops_pairs es) fun _ _ => trivial
    exact hseparator.append hentry fun _ _ => trivial

/-- Inside flow collections the text of a value is read as its tokens. -/
theorem lexes_characters {v : Value} (h : Writable v) :
    ∀ level, Lexes Stops (level + 1) (characters v) (tokens v) := by
  induction h with
  | scalar h =>
    intro level l rest hl hrest hstop
    obtain ⟨l', hleads, hl', -⟩ := h.leads hl hrest hstop
    exact ⟨l', hleads, hl'⟩
  | list _ ih =>
    intro level
    exact .brackets Lexer.brackets_list (lexes_items true _ fun v hv => ih v hv (level + 1))
  | dict hkeys _ ih =>
    intro level
    exact .brackets Lexer.brackets_dict (lexes_pairs true _ hkeys fun e he => ih e he (level + 1))

/-! ## Reading -/

/-- Whether a value without properties starts with the token. -/
def startsContent : Token → Bool
  | .scalar _ _ => true
  | .openList => true
  | .openDict => true
  | _ => false

/-- The tokens of a value are read as the value in front of whatever follows them. -/
structure ReadsBack (v : Value) : Prop where
  starts : ∃ t ts, tokens v = t :: ts ∧ startsContent t = true
  reads : ∀ (handles : TagHandles) (fuel : Nat) (block : Bool) (a : Anchored) (rest : List Token),
    4 * (tokens v).length ≤ fuel →
      node handles fuel block false a (tokens v ++ rest) = some (v, a, rest)

section Reading

variable {handles : TagHandles} {fuel : Nat} {a : Anchored} {t : Token} {rest : List Token}

/-- A value without an anchor and a tag is its content. -/
theorem node_eq (ht : startsContent t = true) (block : Bool) :
    node handles (fuel + 1) block false a (t :: rest) =
      content handles fuel block false ⟨none, none⟩ none a (t :: rest) := by
  have hnode : node handles (fuel + 1) block false a (t :: rest) =
      (content handles fuel block false ⟨none, none⟩ none a (t :: rest)).bind
        fun r => some (r.1, r.2.1.close none r.1, r.2.2) := by
    cases t <;> first | rfl | cases ht
  rw [hnode]
  exact Option.bind_fun_some _

theorem nodeUnless_eq {followers : Followers} (h : followers t = false) (block shared : Bool) :
    nodeUnless handles (fuel + 1) followers block shared a (t :: rest) =
      node handles fuel block shared a (t :: rest) := by
  rw [nodeUnless, h]
  rfl

theorem afterFlowKey_eq_false (ht : startsContent t = true) :
    afterFlowKey .closeDict t = false := by
  cases t <;> first | rfl | cases ht

theorem afterFlowValue_eq_false (ht : startsContent t = true) :
    afterFlowValue .closeDict t = false := by
  cases t <;> first | rfl | cases ht

/-- A scalar is read from its token. -/
theorem IsScalar.readsBack {v : Value} (h : IsScalar v) : ReadsBack v := by
  cases h with
  | text s =>
    refine ⟨⟨_, _, rfl, rfl⟩, fun handles fuel block a rest hfuel => ?_⟩
    obtain ⟨fuel, rfl⟩ : ∃ n, fuel = n + 2 := ⟨fuel - 2, by simp [tokens] at hfuel; omega⟩
    rfl
  | @word w _ _ =>
    refine ⟨⟨_, _, rfl, rfl⟩, fun handles fuel block a rest hfuel => ?_⟩
    obtain ⟨fuel, rfl⟩ : ∃ n, fuel = n + 2 := ⟨fuel - 2, by simp [tokens] at hfuel; omega⟩
    rfl

theorem flowEntries_cons {first : Bool} {v : Value} {vs : List Value} {ts' : List Token}
    {r : Anchored × List Token} (ht : startsContent t = true)
    (hv : node handles fuel false false a (t :: rest) = some (v, a, ts'))
    (hvs : flowEntries handles fuel false a ts' = some (vs, r)) :
    flowEntries handles (fuel + 1) first a (commas first ++ t :: rest) = some (v :: vs, r) := by
  cases first <;> cases t <;>
    first | cases ht; done | simp [flowEntries, commas, afterComma, hv, hvs]

theorem flowPairs_cons (first : Bool) {k v : Value} {es : List (Value × Value)}
    {ts' ts'' : List Token} {r : Anchored × List Token}
    (hk : nodeUnless handles fuel (afterFlowKey .closeDict) false false a rest = some (k, a, ts'))
    (hv : flowValue handles fuel .closeDict a ts' = some (v, a, ts''))
    (hes : flowPairs handles fuel false a ts'' = some (es, r)) :
    flowPairs handles (fuel + 1) first a (commas first ++ .key :: rest) =
      some ((k, v) :: es, r) := by
  cases first <;> simp [flowPairs, commas, afterComma, hk, hv, hes]

/-- The tokens of the items of a list are read up to its end. -/
theorem flowEntries_items : ∀ (first : Bool) (vs : List Value) (fuel : Nat),
    (∀ v ∈ vs, ReadsBack v) → 4 * (tokens.items first vs).length + 1 ≤ fuel →
      flowEntries handles fuel first a (tokens.items first vs ++ .closeList :: rest) =
        some (vs, a, rest)
  | first, [], fuel + 1, _, _ => rfl
  | first, v :: vs, fuel + 1, h, hfuel => by
    have hv := h v List.mem_cons_self
    obtain ⟨t, ts, htokens, ht⟩ := hv.starts
    simp only [tokens.items, List.length_append, htokens, List.length_cons] at hfuel
    have hread := hv.reads handles fuel false a (tokens.items false vs ++ .closeList :: rest)
      (by rw [htokens, List.length_cons]; omega)
    have hvs := flowEntries_items false vs fuel (fun w hw => h w (List.mem_cons_of_mem _ hw))
      (by omega)
    rw [htokens] at hread
    rw [tokens.items, htokens, List.append_assoc, List.append_assoc]
    exact flowEntries_cons ht hread hvs

/-- The tokens of the entries of a dictionary are read up to its end. -/
theorem flowPairs_pairs : ∀ (first : Bool) (es : List (Value × Value)) (fuel : Nat),
    (∀ e ∈ es, IsScalar e.1) → (∀ e ∈ es, ReadsBack e.2) →
      4 * (tokens.pairs first es).length + 1 ≤ fuel →
      flowPairs handles fuel first a (tokens.pairs first es ++ .closeDict :: rest) =
        some (es, a, rest)
  | first, [], fuel + 1, _, _, _ => rfl
  | first, (k, v) :: es, fuel + 1, hkeys, h, hfuel => by
    have hk : ReadsBack k := (hkeys _ List.mem_cons_self).readsBack
    have hv : ReadsBack v := h _ List.mem_cons_self
    obtain ⟨tk, tsk, hktokens, htk⟩ := hk.starts
    obtain ⟨tv, tsv, hvtokens, htv⟩ := hv.starts
    simp only [tokens.pairs, List.length_append, List.length_cons, List.length_nil] at hfuel
    -- a value is read two calls deeper than its entry, which its mark and that of its key pay for
    obtain ⟨fuel, rfl⟩ : ∃ n, fuel = n + 2 := ⟨fuel - 2, by omega⟩
    have hes := flowPairs_pairs false es (fuel + 2)
      (fun e he => hkeys e (List.mem_cons_of_mem _ he))
      (fun e he => h e (List.mem_cons_of_mem _ he)) (by omega)
    have hkread := hk.reads handles (fuel + 1) false a
      (.value :: (tokens v ++ (tokens.pairs false es ++ .closeDict :: rest))) (by omega)
    have hvread := hv.reads handles fuel false a (tokens.pairs false es ++ .closeDict :: rest)
      (by omega)
    have hkey : nodeUnless handles (fuel + 2) (afterFlowKey .closeDict) false false a
        (tokens k ++ .value :: (tokens v ++ (tokens.pairs false es ++ .closeDict :: rest))) =
        some (k, a, .value :: (tokens v ++ (tokens.pairs false es ++ .closeDict :: rest))) := by
      rw [hktokens] at hkread ⊢
      rw [List.cons_append, nodeUnless_eq (afterFlowKey_eq_false htk)]
      exact hkread
    have hvalue : flowValue handles (fuel + 2) .closeDict a
        (.value :: (tokens v ++ (tokens.pairs false es ++ .closeDict :: rest))) =
        some (v, a, tokens.pairs false es ++ .closeDict :: rest) := by
      rw [flowValue]
      rw [hvtokens] at hvread ⊢
      rw [List.cons_append, nodeUnless_eq (afterFlowValue_eq_false htv)]
      exact hvread
    have hpairs := flowPairs_cons first hkey hvalue hes
    rw [tokens.pairs]
    simpa using hpairs

theorem readsBack_list {vs : List Value} (h : ∀ v ∈ vs, ReadsBack v) : ReadsBack (.list vs) := by
  refine ⟨⟨_, _, rfl, rfl⟩, fun handles fuel block a rest hfuel => ?_⟩
  rw [tokens, List.length_cons, List.length_append, List.length_singleton] at hfuel
  obtain ⟨fuel, rfl⟩ : ∃ n, fuel = n + 2 := ⟨fuel - 2, by omega⟩
  rw [tokens, List.cons_append, List.append_assoc, node_eq rfl]
  show (flowEntries handles fuel true a _).map _ = _
  rw [List.singleton_append, flowEntries_items true vs fuel h (by omega)]
  rfl

theorem readsBack_dict {es : List (Value × Value)} (hkeys : ∀ e ∈ es, IsScalar e.1)
    (h : ∀ e ∈ es, ReadsBack e.2) : ReadsBack (.dict es) := by
  refine ⟨⟨_, _, rfl, rfl⟩, fun handles fuel block a rest hfuel => ?_⟩
  rw [tokens, List.length_cons, List.length_append, List.length_singleton] at hfuel
  obtain ⟨fuel, rfl⟩ : ∃ n, fuel = n + 2 := ⟨fuel - 2, by omega⟩
  rw [tokens, List.cons_append, List.append_assoc, node_eq rfl]
  show (flowPairs handles fuel true a _).map _ = _
  rw [List.singleton_append, flowPairs_pairs true es fuel hkeys h (by omega)]
  rfl

end Reading

/-- The tokens of a value are read in front of whatever follows them. -/
theorem Writable.readsBack {v : Value} (h : Writable v) : ReadsBack v := by
  induction h with
  | scalar h => exact h.readsBack
  | list _ ih => exact readsBack_list ih
  | dict hkeys _ ih => exact readsBack_dict hkeys ih

/-! ## Texts -/

theorem IsScalar.isAllowed_of_mem {v : Value} (h : IsScalar v) {d : Char}
    (hd : d ∈ characters v) : isAllowed d = true := by
  cases h with
  | text s => exact isAllowed_of_mem_quoted hd
  | word hne hword => exact isAllowed_of_isWordChar (List.all_eq_true.1 hword d hd)

theorem isAllowed_separator (first : Bool) : (separator first).all isAllowed = true := by
  cases first <;> decide

theorem all_isAllowed_items : ∀ (first : Bool) (vs : List Value),
    (∀ v ∈ vs, (characters v).all isAllowed = true) →
      (characters.items first vs).all isAllowed = true
  | _, [], _ => rfl
  | first, v :: vs, h => by
    have hv := h v List.mem_cons_self
    have hvs := all_isAllowed_items false vs fun w hw => h w (List.mem_cons_of_mem _ hw)
    simp only [characters.items, List.all_append, isAllowed_separator, hv, hvs, Bool.and_self]

theorem all_isAllowed_pairs : ∀ (first : Bool) (es : List (Value × Value)),
    (∀ e ∈ es, (characters e.1).all isAllowed = true) →
    (∀ e ∈ es, (characters e.2).all isAllowed = true) →
      (characters.pairs first es).all isAllowed = true
  | _, [], _, _ => rfl
  | first, (k, v) :: es, hkeys, h => by
    have hk : (characters k).all isAllowed = true := hkeys _ List.mem_cons_self
    have hv : (characters v).all isAllowed = true := h _ List.mem_cons_self
    have hes := all_isAllowed_pairs false es (fun e he => hkeys e (List.mem_cons_of_mem _ he))
      fun e he => h e (List.mem_cons_of_mem _ he)
    have hmark : isAllowed '?' = true ∧ isAllowed ' ' = true ∧ isAllowed ':' = true := by decide
    simp [characters.pairs, isAllowed_separator, hk, hv, hes, hmark]

/-- A text may contain what values are written with. -/
theorem all_isAllowed_characters {v : Value} (h : Writable v) :
    (characters v).all isAllowed = true := by
  induction h with
  | scalar h => exact List.all_eq_true.2 fun d hd => h.isAllowed_of_mem hd
  | list _ ih =>
    have hbrackets : isAllowed '[' = true ∧ isAllowed ']' = true := by decide
    have hitems := all_isAllowed_items true _ ih
    simp [characters, hitems, hbrackets]
  | dict hkeys _ ih =>
    have hbrackets : isAllowed '\x7b' = true ∧ isAllowed '\x7d' = true := by decide
    have hpairs := all_isAllowed_pairs true _
      (fun e he => List.all_eq_true.2 fun d hd => (hkeys e he).isAllowed_of_mem hd) ih
    simp [characters, hpairs, hbrackets]

/-- The text of a list or dictionary is read as its tokens. -/
theorem tokens?_characters {v : Value} (h : Writable v) (hv : ¬IsScalar v) :
    tokens? (characters v) = some (tokens v) := by
  have hallowed := all_isAllowed_characters h
  have hlexes : Lexes Anything 0 (characters v) (tokens v) := by
    cases h with
    | scalar h => exact absurd h hv
    | list h =>
      have hitems := lexes_items true _ fun w hw => lexes_characters (h w hw) 0
      exact .brackets Lexer.brackets_list hitems
    | dict hkeys h =>
      have hpairs := lexes_pairs true _ hkeys fun e he => lexes_characters (h e he) 0
      exact .brackets Lexer.brackets_dict hpairs
  obtain ⟨l', hleads, hl'⟩ := hlexes (Lexer.ofList (characters v)) [] (Lexer.level_ofList _)
    (List.append_nil _).symm trivial
  exact Lexer.tokens?_of_leads hallowed hleads hl'

/-- The tokens of a value are those of a document without directives. -/
theorem ofTokens?_tokens {v : Value} (h : Writable v) : ofTokens? (tokens v) = some v := by
  obtain ⟨t, ts, htokens, ht⟩ := h.readsBack.starts
  have hread := h.readsBack.reads defaultHandles (4 * (tokens v).length + 4) true .empty []
    (by omega)
  have hdocument : ofTokens? (tokens v) = documentOf defaultHandles (tokens v) := by
    rw [htokens]
    cases t <;> first | rfl | cases ht
  have hcontent : endsDocument (tokens v) = false := by
    rw [htokens]
    cases t <;> first | rfl | cases ht
  rw [List.append_nil] at hread
  rw [hdocument, documentOf, hcontent]
  simp [hread]

/-- The text of a list or dictionary is read as the value. -/
theorem parse?_rendered {v : Value} (h : Writable v) (hv : ¬IsScalar v) :
    parse? (render v) = some v := by
  have hmark : ((characters v).head? == some '\ufeff') = false := by
    cases h with
    | scalar h => exact absurd h hv
    | list h => rfl
    | dict hkeys h => rfl
  rw [parse?, render, String.toList_ofList, hmark]
  show (tokens? (characters v)).bind ofTokens? = some v
  rw [tokens?_characters h hv]
  exact ofTokens?_tokens h

example : render (.dict [(.text "match", .text "\\w \t"),
    (.text "captures", .dict [(.plain "1", .dict [])]), (.text "while", .list [])]) =
    "\x7b? \"match\": \"\\\\w \\t\", ? \"captures\": \x7b? 1: \x7b\x7d\x7d, ? \"while\": []\x7d" := by
  decide

end Highlight.Yaml
