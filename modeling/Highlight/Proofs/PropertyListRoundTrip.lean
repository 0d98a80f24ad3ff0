import Mathlib.Data.List.TakeWhile
import Highlight.Data.PropertyList
import Highlight.Proofs.WrittenValues

/-!
# Property lists that are read back

`PropertyList.render` writes a value as an XML property list, and `PropertyList.parse?` reads the
value back (`PropertyList.parse?_rendered`): the text is cut into the tags and contents of its
elements (`Cuts`), whatever is around it, and these are read as the value (`ReadsBack`).
-/

namespace Highlight

/-! ## Writing -/

namespace PropertyList

/-- The start tag of an element. -/
def openTag (name : String) : List Char := '<' :: (name.toList ++ ['>'])

/-- The end tag of an element. -/
def closeTag (name : String) : List Char := '<' :: '/' :: (name.toList ++ ['>'])

/-- An element around a text that is written already. -/
def element (name : String) (content : List Char) : List Char :=
  openTag name ++ (content ++ closeTag name)

/-- An element without content. -/
def emptyElement (name : String) : List Char := '<' :: (name.toList ++ ['/', '>'])

/-- A character between tags. A carriage return is written by its number, for a reader may take it
for a line feed. -/
def escaped (c : Char) : List Char :=
  if c == '&' then "&amp;".toList
  else if c == '<' then "&lt;".toList
  else if c == '>' then "&gt;".toList
  else if c == '\r' then "&#13;".toList
  else [c]

/-- An element with a text. -/
def textElement (name : String) (text : List Char) : List Char :=
  element name (text.flatMap escaped)

/-- The text of a key. -/
def keyText : Value → String
  | .text s => s
  | _ => ""

/-- The characters of a value; values that property lists do not have are left out. -/
def characters : Value → List Char
  | .bool b => emptyElement (if b then "true" else "false")
  | .int n => textElement "integer" (toString n).toList
  | .text s => textElement "string" s.toList
  | .list vs => element "array" (items vs)
  | .dict es => element "dict" (pairs es)
  | _ => []
where
  /-- The items of a list. -/
  items : List Value → List Char
    | [] => []
    | v :: vs => characters v ++ items vs
  /-- The entries of a dictionary. -/
  pairs : List (Value × Value) → List Char
    | [] => []
    | (k, v) :: es => textElement "key" (keyText k).toList ++ (characters v ++ pairs es)

/-- What stands before the value of a property list. -/
def header : List Char :=
  "<?xml version=\"1.0\" encoding=\"UTF-8\"?>\n<plist version=\"1.0\">\n".toList

/-- What stands after the value of a property list. -/
def footer : List Char := "\n</plist>\n".toList

/-- A property list with a value. -/
def render (v : Value) : String := String.ofList (header ++ (characters v ++ footer))

end PropertyList

/-! ## Cutting -/

namespace Markup

/-- A name of letters. -/
def isName (name : String) : Bool := !name.toList.isEmpty && name.toList.all Char.isAlpha

/-- The text is cut into the pieces, whatever elements are around it and whatever follows. -/
def Cuts (cs : List Char) (ms : List Markup) : Prop :=
  ∃ n ≤ cs.length, ∀ fuel opened rest,
    pieces (n + fuel) opened (cs ++ rest) = ms.map some ++ pieces fuel opened rest

theorem Cuts.nil : Cuts [] [] :=
  ⟨0, Nat.le_refl 0, fun fuel opened rest => by rw [Nat.zero_add]; rfl⟩

theorem Cuts.append {cs cs' : List Char} {ms ms' : List Markup} (h : Cuts cs ms)
    (h' : Cuts cs' ms') : Cuts (cs ++ cs') (ms ++ ms') := by
  obtain ⟨n, hn, hcuts⟩ := h
  obtain ⟨n', hn', hcuts'⟩ := h'
  refine ⟨n + n', ?_, fun fuel opened rest => ?_⟩
  · rw [List.length_append]
    omega
  · rw [List.append_assoc, Nat.add_assoc, hcuts, hcuts', List.map_append, List.append_assoc]

theorem isAlpha_of_mem {name : String} (h : isName name = true) {c : Char}
    (hc : c ∈ name.toList) : c.isAlpha = true := by
  rw [isName, Bool.and_eq_true] at h
  exact List.all_eq_true.1 h.2 c hc

theorem ne_of_isAlpha {c d : Char} (h : c.isAlpha = true) (hd : d.isAlpha = false := by decide) :
    c ≠ d := by
  rintro rfl
  rw [hd] at h
  cases h

/-! ## Tags -/

/-- Characters of tags that end them or hide their ends. -/
def endsTag (c : Char) : Bool := c == '>' || c == '"' || c == '\''

theorem endsTag_of_isAlpha {c : Char} (h : c.isAlpha = true) : endsTag c = false := by
  simp [endsTag, ne_of_isAlpha (d := '>') h, ne_of_isAlpha (d := '"') h,
    ne_of_isAlpha (d := '\'') h]

theorem tagText?_append (rest : List Char) : ∀ cs : List Char,
    (∀ c ∈ cs, endsTag c = false) → tagText? none (cs ++ '>' :: rest) = some (cs, rest)
  | [], _ => rfl
  | c :: cs, h => by
    have hc := h c List.mem_cons_self
    simp only [endsTag, Bool.or_eq_false_iff] at hc
    obtain ⟨⟨hclose, hdouble⟩, hsingle⟩ := hc
    have ih := tagText?_append rest cs fun d hd => h d (List.mem_cons_of_mem _ hd)
    simp [tagText?, hclose, hdouble, hsingle, ih]

variable {name : String}

theorem localName_toList (h : isName name = true) : localName name.toList = name := by
  have hspace : ∀ c ∈ name.toList,
      (!(c == ' ' || c == '\t' || c == '\n' || c == '\r')) = true := by
    intro c hc
    have hc := isAlpha_of_mem h hc
    simp [ne_of_isAlpha (d := ' ') hc, ne_of_isAlpha (d := '\t') hc, ne_of_isAlpha (d := '\n') hc,
      ne_of_isAlpha (d := '\r') hc]
  have hcolon : ∀ c ∈ name.toList, (c != ':') = true := fun c hc =>
    bne_iff_ne.2 (ne_of_isAlpha (isAlpha_of_mem h hc))
  have hname := List.takeWhile_eq_self_iff.2 hspace
  have hdrop := List.dropWhile_eq_nil_iff.2 hcolon
  simp only [localName, hname, hdrop, String.ofList_toList]

theorem exists_head (h : isName name = true) :
    ∃ c cs, name.toList = c :: cs ∧ c.isAlpha = true := by
  have hne : name.toList ≠ [] := fun heq => by simp [isName, heq] at h
  obtain ⟨c, cs, hname⟩ := List.exists_cons_of_ne_nil hne
  exact ⟨c, cs, hname, isAlpha_of_mem h (hname ▸ List.mem_cons_self)⟩

section

variable (fuel : Nat) (opened : List String) (rest : List Char)

theorem pieces_openTag (h : isName name = true) :
    pieces (fuel + 1) opened (PropertyList.openTag name ++ rest) =
      some (.openTag name) :: pieces fuel (name :: opened) rest := by
  have htext := tagText?_append rest name.toList fun c hc =>
    endsTag_of_isAlpha (isAlpha_of_mem h hc)
  have hlocal := localName_toList h
  have hlast : (name.toList.getLast? == some '/') = false := by
    rw [beq_eq_false_iff_ne]
    intro heq
    exact absurd rfl (ne_of_isAlpha (isAlpha_of_mem h (List.mem_of_getLast? heq)))
  obtain ⟨c, cs, hname, hc⟩ := exists_head h
  rw [PropertyList.openTag, List.cons_append, List.append_assoc, List.singleton_append]
  rw [hname, List.cons_append] at htext ⊢
  rw [hname] at hlocal hlast
  rw [pieces]
  · rw [htext]
    simp only [hlast, hlocal]
    rfl
  all_goals
    intro _ heq
    exact absurd (List.cons.inj heq).1 (ne_of_isAlpha hc)

theorem pieces_emptyElement (h : isName name = true) :
    pieces (fuel + 1) opened (PropertyList.emptyElement name ++ rest) =
      some (.openTag name) :: some (.closeTag name) :: pieces fuel opened rest := by
  have htext := tagText?_append rest (name.toList ++ ['/']) fun c hc => by
    rcases List.mem_append.1 hc with hc | hc
    · exact endsTag_of_isAlpha (isAlpha_of_mem h hc)
    · rw [List.mem_singleton.1 hc]
      rfl
  have hlocal := localName_toList h
  obtain ⟨c, cs, hname, hc⟩ := exists_head h
  have hhead : name.toList ++ ['/'] = c :: (cs ++ ['/']) := by
    rw [hname]
    rfl
  show pieces (fuel + 1) opened ('<' :: (name.toList ++ ['/', '>'] ++ rest)) = _
  rw [List.append_assoc, show ['/', '>'] ++ rest = ['/'] ++ '>' :: rest from rfl,
    ← List.append_assoc, hhead, List.cons_append, pieces]
  · rw [← List.cons_append, ← hhead, htext]
    simp only [List.getLast?_concat, List.dropLast_concat, hlocal]
    rfl
  all_goals
    intro _ heq
    exact absurd (List.cons.inj heq).1 (ne_of_isAlpha hc)

theorem pieces_closeTag (h : isName name = true) :
    pieces (fuel + 1) (name :: opened) (PropertyList.closeTag name ++ rest) =
      some (.closeTag name) :: pieces fuel opened rest := by
  have htext := tagText?_append rest name.toList fun c hc =>
    endsTag_of_isAlpha (isAlpha_of_mem h hc)
  have hlocal := localName_toList h
  rw [PropertyList.closeTag, List.cons_append, List.cons_append, List.append_assoc,
    List.singleton_append, pieces, htext]
  simp only [hlocal, beq_self_eq_true, if_true]

end

/-! ## Texts -/

open PropertyList (escaped)

theorem unescape?_entity (name : List Char) {cs rest : List Char} {c : Char} {fuel : Nat}
    (h : unescape? fuel rest = some cs) (hname : name.all (· != ';') = true)
    (hc : entity? name = some c) :
    unescape? (fuel + 1) ('&' :: (name ++ ';' :: rest)) = some (c :: cs) := by
  have htake : (name ++ ';' :: rest).takeWhile (· != ';') = name := by
    rw [List.takeWhile_append_of_pos (List.all_eq_true.1 hname)]
    simp
  have hdrop : (name ++ ';' :: rest).dropWhile (· != ';') = ';' :: rest := by
    rw [List.dropWhile_append_of_pos (List.all_eq_true.1 hname)]
    simp
  rw [unescape?, if_pos (by decide)]
  simp only [htake, hdrop, hc, h]
  rfl

/-- A character between tags is read as itself. -/
theorem unescape?_escaped {cs : List Char} {fuel : Nat} {rest : List Char}
    (h : unescape? fuel rest = some cs) (c : Char) :
    unescape? (fuel + 1) (escaped c ++ rest) = some (c :: cs) := by
  unfold escaped
  split_ifs with hand hless hgreater hreturn
  · rw [beq_iff_eq.1 hand]
    exact unescape?_entity ['a', 'm', 'p'] h (by decide) (by decide)
  · rw [beq_iff_eq.1 hless]
    exact unescape?_entity ['l', 't'] h (by decide) (by decide)
  · rw [beq_iff_eq.1 hgreater]
    exact unescape?_entity ['g', 't'] h (by decide) (by decide)
  · rw [beq_iff_eq.1 hreturn]
    exact unescape?_entity ['#', '1', '3'] h (by decide) (by decide)
  · rw [List.singleton_append, unescape?, if_neg hand, h]
    rfl

theorem exists_escaped (c : Char) :
    ∃ d ds, escaped c = d :: ds ∧ (d :: ds).all (· != '<') = true := by
  unfold escaped
  split_ifs with hand hless
  · exact ⟨_, _, rfl, by decide⟩
  · exact ⟨_, _, rfl, by decide⟩
  · exact ⟨_, _, rfl, by decide⟩
  · exact ⟨_, _, rfl, by decide⟩
  · refine ⟨c, [], rfl, ?_⟩
    simpa using hless

theorem ne_of_mem_flatMap {cs : List Char} {e : Char} (h : e ∈ cs.flatMap escaped) :
    (e != '<') = true := by
  obtain ⟨c, -, he⟩ := List.mem_flatMap.1 h
  obtain ⟨d, ds, hwritten, hne⟩ := exists_escaped c
  exact List.all_eq_true.1 hne e (hwritten ▸ he)

theorem unescape?_flatMap : ∀ (cs : List Char) (fuel : Nat), cs.length ≤ fuel →
    unescape? fuel (cs.flatMap escaped) = some cs
  | [], 0, _ => rfl
  | [], fuel + 1, _ => rfl
  | c :: cs, fuel + 1, h => by
    rw [List.flatMap_cons]
    exact unescape?_escaped (unescape?_flatMap cs fuel (Nat.le_of_succ_le_succ h)) c

theorem escaped_ne_nil (c : Char) : escaped c ≠ [] := by
  obtain ⟨d, ds, hwritten, -⟩ := exists_escaped c
  rw [hwritten]
  exact List.cons_ne_nil d ds

/-- The content of an element with a text: nothing where the text is empty. -/
def contents (cs : List Char) : List Markup := if cs.isEmpty then [] else [.content cs]

/-- A text between tags is one piece. -/
theorem pieces_text (fuel : Nat) (opened : List String) (c : Char) (cs rest : List Char) :
    pieces (fuel + 1) opened ((c :: cs).flatMap escaped ++ '<' :: rest) =
      some (.content (c :: cs)) :: pieces fuel opened ('<' :: rest) := by
  have hread := unescape?_flatMap (c :: cs) _ (length_le_flatMap escaped_ne_nil (c :: cs))
  have hne : ∀ e ∈ (c :: cs).flatMap escaped, (e != '<') = true := fun e he =>
    ne_of_mem_flatMap he
  have htake : ((c :: cs).flatMap escaped ++ '<' :: rest).takeWhile (· != '<') =
      (c :: cs).flatMap escaped := by
    rw [List.takeWhile_append_of_pos hne]
    simp
  have hdrop : ((c :: cs).flatMap escaped ++ '<' :: rest).dropWhile (· != '<') = '<' :: rest := by
    rw [List.dropWhile_append_of_pos hne]
    simp
  obtain ⟨d, ds, hwritten, hd⟩ := exists_escaped c
  have hhead : (c :: cs).flatMap escaped ++ '<' :: rest =
      d :: (ds ++ (cs.flatMap escaped ++ '<' :: rest)) := by
    rw [List.flatMap_cons, hwritten]
    simp
  rw [pieces]
  · simp only [htake, hdrop, hread, Option.map_some]
  · rw [hhead]
    exact nofun
  · rw [hhead]
    intro _ heq
    exact bne_iff_ne.1 (List.all_eq_true.1 hd d List.mem_cons_self) (List.cons.inj heq).1

/-! ## Elements -/

theorem Cuts.emptyElement (h : isName name = true) :
    Cuts (PropertyList.emptyElement name) [.openTag name, .closeTag name] :=
  ⟨1, Nat.succ_le_succ (Nat.zero_le _), fun fuel opened rest => by
    rw [Nat.add_comm, pieces_emptyElement fuel opened rest h]
    rfl⟩

theorem Cuts.element (h : isName name = true) {cs : List Char} {ms : List Markup}
    (hcuts : Cuts cs ms) :
    Cuts (PropertyList.element name cs) (.openTag name :: (ms ++ [.closeTag name])) := by
  obtain ⟨n, hn, hcuts⟩ := hcuts
  refine ⟨n + 2, ?_, fun fuel opened rest => ?_⟩
  · simp only [PropertyList.element, PropertyList.openTag, PropertyList.closeTag,
      List.length_append, List.length_cons]
    omega
  · rw [PropertyList.element, List.append_assoc, List.append_assoc,
      show n + 2 + fuel = (n + (fuel + 1)) + 1 by omega, pieces_openTag _ opened _ h, hcuts,
      pieces_closeTag fuel opened rest h]
    simp

theorem Cuts.textElement (h : isName name = true) (cs : List Char) :
    Cuts (PropertyList.textElement name cs)
      (.openTag name :: (contents cs ++ [.closeTag name])) := by
  cases cs with
  | nil => exact Cuts.element h .nil
  | cons c cs =>
    refine ⟨3, ?_, fun fuel opened rest => ?_⟩
    · simp only [PropertyList.textElement, PropertyList.element, PropertyList.openTag,
        PropertyList.closeTag, List.length_append, List.length_cons]
      omega
    · rw [PropertyList.textElement, PropertyList.element, List.append_assoc, List.append_assoc,
        show 3 + fuel = (fuel + 1 + 1) + 1 by omega, pieces_openTag _ opened _ h]
      have hclose := pieces_closeTag fuel opened rest h
      have htext := pieces_text (fuel + 1) (name :: opened) c cs
        ('/' :: (name.toList ++ ['>']) ++ rest)
      exact congrArg (some (.openTag name) :: ·) (htext.trans (congrArg _ hclose))

end Markup

namespace PropertyList

open Markup (Cuts contents)

/-! ## Pieces of values -/

/-- The pieces of an element with a text. -/
def textMarks (name : String) (text : List Char) : List Markup :=
  .openTag name :: (contents text ++ [.closeTag name])

/-- The pieces of a value. -/
def marks : Value → List Markup
  | .bool b => [.openTag (if b then "true" else "false"), .closeTag (if b then "true" else "false")]
  | .int n => textMarks "integer" (toString n).toList
  | .text s => textMarks "string" s.toList
  | .list vs => .openTag "array" :: (items vs ++ [.closeTag "array"])
  | .dict es => .openTag "dict" :: (pairs es ++ [.closeTag "dict"])
  | _ => []
where
  /-- The pieces of the items of a list. -/
  items : List Value → List Markup
    | [] => []
    | v :: vs => marks v ++ items vs
  /-- The pieces of the entries of a dictionary. -/
  pairs : List (Value × Value) → List Markup
    | [] => []
    | (k, v) :: es => textMarks "key" (keyText k).toList ++ (marks v ++ pairs es)

mutual

/-- The text of a value is cut into its pieces. -/
theorem cuts_characters : ∀ v : Value, Cuts (characters v) (marks v)
  | .bool true => Cuts.emptyElement (by decide)
  | .bool false => Cuts.emptyElement (by decide)
  | .int _ => Cuts.textElement (by decide) _
  | .text _ => Cuts.textElement (by decide) _
  | .list vs => Cuts.element (by decide) (cuts_items vs)
  | .dict es => Cuts.element (by decide) (cuts_pairs es)
  | .null => Cuts.nil
  | .real => Cuts.nil
  | .plain _ => Cuts.nil
  | .foreign => Cuts.nil

theorem cuts_items : ∀ vs : List Value, Cuts (characters.items vs) (marks.items vs)
  | [] => Cuts.nil
  | v :: vs => (cuts_characters v).append (cuts_items vs)

theorem cuts_pairs : ∀ es : List (Value × Value), Cuts (characters.pairs es) (marks.pairs es)
  | [] => Cuts.nil
  | (k, v) :: es =>
    (Cuts.textElement (by decide) _).append ((cuts_characters v).append (cuts_pairs es))

end

/-! ## Reading -/

/-- The scalars that property lists have. -/
inductive IsScalar : Value → Prop
  | bool (b : Bool) : IsScalar (.bool b)
  | int {n : Int} (h : Value.isWord n = true) : IsScalar (.int n)
  | text (s : String) : IsScalar (.text s)

/-- Keys are texts. -/
inductive IsKey : Value → Prop
  | text (s : String) : IsKey (.text s)

/-- The values that have a property list. -/
abbrev Writable : Value → Prop := Value.Built IsScalar IsKey

/-- The pieces are read as the value in front of whatever follows them. -/
structure ReadsBack (ms : List Markup) (v : Value) : Prop where
  opens : ∃ name ms', ms = .openTag name :: ms'
  reads : ∀ (fuel : Nat) (rest : List (Option Markup)), ms.length ≤ fuel →
    value? fuel (ms.map some ++ rest) = some (v, rest)

/-! ### Scalars -/

theorem textOf?_contents (name : String) (cs : List Char) (rest : List (Option Markup)) :
    textOf? ((contents cs ++ [Markup.closeTag name]).map some ++ rest) = some (cs, rest) := by
  cases cs with
  | nil => rfl
  | cons c cs =>
    show (textOf? (some (.closeTag name) :: rest)).map (fun r => ((c :: cs) ++ r.1, r.2)) = _
    simp [textOf?]

/-- The names of elements that are not read as a text. -/
def isStructural (name : String) : Bool := name == "plist" || name == "array" || name == "dict"

theorem value?_openTag {name : String} (h : isStructural name = false) (fuel : Nat)
    (ms : List (Option Markup)) :
    value? (fuel + 1) (some (.openTag name) :: ms) =
      (textOf? ms).bind fun r => (scalar? name r.1).map (·, r.2) := by
  simp only [isStructural, Bool.or_eq_false_iff] at h
  obtain ⟨⟨hplist, harray⟩, hdict⟩ := h
  simp only [value?, hplist, harray, hdict, Bool.false_eq_true, if_false]
  cases textOf? ms with
  | none => rfl
  | some p =>
    obtain ⟨text, rest⟩ := p
    show (scalar? name text).bind (fun v => some (v, rest)) = (scalar? name text).map (·, rest)
    cases scalar? name text <;> rfl

/-- An element with a text is read as the scalar that its name makes of the text. -/
theorem readsBack_textMarks {name : String} (h : isStructural name = false) {text : List Char}
    {v : Value} (hv : scalar? name text = some v) : ReadsBack (textMarks name text) v := by
  refine ⟨⟨_, _, rfl⟩, fun fuel rest hfuel => ?_⟩
  rw [textMarks, List.length_cons] at hfuel
  obtain ⟨fuel, rfl⟩ := Nat.exists_eq_add_one.2 (Nat.zero_lt_of_lt hfuel)
  show value? (fuel + 1)
    (some (.openTag name) :: ((contents text ++ [Markup.closeTag name]).map some ++ rest)) = _
  rw [value?_openTag h, textOf?_contents, Option.bind_some]
  show (scalar? name text).map (·, rest) = _
  rw [hv]
  rfl

/-- An integer is read from its decimal digits. -/
theorem integer?_toString {n : Int} (h : Value.isWord n = true) :
    integer? (toString n).toList = some n := by
  have hdigits := Value.value?_toDigits n.natAbs
  rw [Value.toList_toString_int]
  by_cases hneg : n < 0
  · have habs : -(n.natAbs : Int) = n := by omega
    rw [if_pos hneg]
    simp only [integer?, hdigits]
    show (some (-(n.natAbs : Int))).filter Value.isWord = some n
    rw [habs, Option.filter_some, if_pos h]
  · have habs : (n.natAbs : Int) = n := by omega
    rw [if_neg hneg]
    -- no digit is a sign, and none is the letter of another base
    have hmem : ∀ d ∈ Nat.toDigits 10 n.natAbs, d.isDigit = true := fun d hd =>
      Value.isDigit_of_mem_toDigits hd
    rw [integer?]
    · rw [hdigits]
      show (some (n.natAbs : Int)).filter Value.isWord = some n
      rw [habs, Option.filter_some, if_pos h]
    · intro ds heq
      exact absurd (hmem 'x' (by simp [heq])) (by decide)
    · intro ds heq
      exact absurd (hmem '-' (by simp [heq])) (by decide)
    · intro ds heq
      exact absurd (hmem '+' (by simp [heq])) (by decide)

/-- A scalar is read as it was written. -/
theorem IsScalar.readsBack {v : Value} (h : IsScalar v) : ReadsBack (marks v) v := by
  cases h with
  | bool b =>
    have hname : ∀ b : Bool, isStructural (if b then "true" else "false") = false := by decide
    have hscalar : scalar? (if b then "true" else "false") [] = some (.bool b) := by
      cases b <;> rfl
    exact readsBack_textMarks (hname b) hscalar
  | text s =>
    have hscalar : scalar? "string" s.toList = some (.text s) := by
      rw [scalar?, String.ofList_toList]
    exact readsBack_textMarks (by decide) hscalar
  | @int n h =>
    have hscalar : scalar? "integer" (toString n).toList = some (.int n) := by
      rw [scalar?, integer?_toString h]
      rfl
    exact readsBack_textMarks (by decide) hscalar

theorem readsBack_key (s : String) : ReadsBack (textMarks "key" s.toList) (.text s) := by
  have hscalar : scalar? "key" s.toList = some (.text s) := by
    rw [scalar?, String.ofList_toList]
  exact readsBack_textMarks (by decide) hscalar

/-! ### Lists and dictionaries -/

/-- The pieces are read as the values up to the end of the element around them. -/
def ReadsAll (ms : List Markup) (vs : List Value) : Prop :=
  ∀ (name : String) (fuel : Nat) (acc : List Value) (rest : List (Option Markup)),
    name ≠ "plist" → ms.length < fuel →
      values? fuel acc (ms.map some ++ some (.closeTag name) :: rest) =
        some (acc.reverse ++ vs, rest)

theorem ReadsAll.nil : ReadsAll [] [] := by
  intro name fuel acc rest hname hfuel
  obtain ⟨fuel, rfl⟩ := Nat.exists_eq_add_one.2 (Nat.zero_lt_of_lt hfuel)
  have hplist : (name == "plist") = false := beq_eq_false_iff_ne.2 hname
  simp [values?, hplist]

theorem ReadsBack.cons {ms ms' : List Markup} {v : Value} {vs : List Value} (h : ReadsBack ms v)
    (h' : ReadsAll ms' vs) : ReadsAll (ms ++ ms') (v :: vs) := by
  intro name fuel acc rest hname hfuel
  rw [List.length_append] at hfuel
  obtain ⟨fuel, rfl⟩ := Nat.exists_eq_add_one.2 (Nat.zero_lt_of_lt hfuel)
  have hread := h.reads fuel (ms'.map some ++ some (.closeTag name) :: rest) (by omega)
  obtain ⟨tag, ms, rfl⟩ := h.opens
  rw [List.length_cons] at hfuel
  have hrest := h' name fuel (v :: acc) rest hname (by omega)
  rw [List.map_append, List.append_assoc]
  rw [List.map_cons, List.cons_append] at hread ⊢
  simp only [values?, hread, hrest]
  rw [List.reverse_cons, List.append_assoc]
  rfl

/-- A list is read from the pieces of its items. -/
theorem ReadsAll.list {ms : List Markup} {vs : List Value} (h : ReadsAll ms vs) :
    ReadsBack (.openTag "array" :: (ms ++ [.closeTag "array"])) (.list vs) := by
  refine ⟨⟨_, _, rfl⟩, fun fuel rest hfuel => ?_⟩
  rw [List.length_cons, List.length_append, List.length_singleton] at hfuel
  obtain ⟨fuel, rfl⟩ := Nat.exists_eq_add_one.2 (Nat.zero_lt_of_lt hfuel)
  have hread := h "array" fuel [] rest (by decide) (by omega)
  rw [List.map_cons, List.map_append, List.cons_append, List.append_assoc]
  show (values? fuel [] (ms.map some ++ some (.closeTag "array") :: rest)).map _ = _
  rw [hread]
  rfl

/-- The keys and values of entries, one after another. -/
def alternating (es : List (Value × Value)) : List Value := es.flatMap fun e => [e.1, e.2]

theorem pair?_alternating : ∀ es : List (Value × Value), pair? (alternating es) = some es
  | [] => rfl
  | (k, v) :: es => by
    show (pair? (alternating es)).map ((k, v) :: ·) = _
    rw [pair?_alternating es]
    rfl

/-- A dictionary is read from the pieces of its keys and values. -/
theorem ReadsAll.dict {ms : List Markup} {es : List (Value × Value)}
    (h : ReadsAll ms (alternating es)) :
    ReadsBack (.openTag "dict" :: (ms ++ [.closeTag "dict"])) (.dict es) := by
  refine ⟨⟨_, _, rfl⟩, fun fuel rest hfuel => ?_⟩
  rw [List.length_cons, List.length_append, List.length_singleton] at hfuel
  obtain ⟨fuel, rfl⟩ := Nat.exists_eq_add_one.2 (Nat.zero_lt_of_lt hfuel)
  have hread := h "dict" fuel [] rest (by decide) (by omega)
  have hpair := pair?_alternating es
  rw [List.map_cons, List.map_append, List.cons_append, List.append_assoc]
  show (values? fuel [] (ms.map some ++ some (.closeTag "dict") :: rest)).bind _ = _
  rw [hread, Option.bind_some]
  show (pair? (alternating es)).bind _ = _
  rw [hpair]
  rfl

theorem readsAll_items : ∀ vs : List Value, (∀ v ∈ vs, ReadsBack (marks v) v) →
    ReadsAll (marks.items vs) vs
  | [], _ => .nil
  | v :: vs, h => (h v List.mem_cons_self).cons
    (readsAll_items vs fun w hw => h w (List.mem_cons_of_mem _ hw))

theorem readsAll_pairs : ∀ es : List (Value × Value), (∀ e ∈ es, IsKey e.1) →
    (∀ e ∈ es, ReadsBack (marks e.2) e.2) → ReadsAll (marks.pairs es) (alternating es)
  | [], _, _ => .nil
  | (k, v) :: es, hkeys, h => by
    obtain ⟨s⟩ := hkeys _ List.mem_cons_self
    have hes := readsAll_pairs es (fun e he => hkeys e (List.mem_cons_of_mem _ he))
      fun e he => h e (List.mem_cons_of_mem _ he)
    exact (readsBack_key s).cons ((h _ List.mem_cons_self).cons hes)

/-- A value that has a property list is read in front of whatever follows it. -/
theorem Writable.readsBack {v : Value} (h : Writable v) : ReadsBack (marks v) v := by
  induction h with
  | scalar h => exact h.readsBack
  | list _ ih => exact (readsAll_items _ ih).list
  | dict hkeys _ ih => exact (readsAll_pairs _ hkeys ih).dict

/-! ## Texts -/

theorem exists_characters {v : Value} (h : Writable v) : ∃ cs, characters v = '<' :: cs := by
  cases h with
  | list _ => exact ⟨_, rfl⟩
  | dict _ _ => exact ⟨_, rfl⟩
  | scalar h => cases h <;> exact ⟨_, rfl⟩

theorem pieces_header (fuel : Nat) (cs : List Char) :
    Markup.pieces (fuel + 4) [] (header ++ '<' :: cs) =
      some (.content ['\n']) :: some (.openTag "plist") :: some (.content ['\n']) ::
        Markup.pieces fuel ["plist"] ('<' :: cs) := rfl

/-- A property list has its value in the document element. -/
theorem pieces_render {v : Value} (h : Writable v) : ∃ ms,
    Markup.pieces ((header ++ (characters v ++ footer)).length + 1) []
        (header ++ (characters v ++ footer)) =
      some (.content ['\n']) :: some (.openTag "plist") :: some (.content ['\n']) ::
        ((marks v).map some ++ ms) := by
  obtain ⟨n, hn, hcuts⟩ := cuts_characters v
  obtain ⟨cs, hwritten⟩ := exists_characters h
  have hheader : 4 ≤ header.length := by decide
  obtain ⟨fuel, hfuel⟩ : ∃ fuel,
      (header ++ (characters v ++ footer)).length + 1 = n + fuel + 4 := by
    refine ⟨(header ++ (characters v ++ footer)).length - n - 3, ?_⟩
    rw [List.length_append, List.length_append]
    omega
  refine ⟨Markup.pieces fuel ["plist"] footer, ?_⟩
  have hheader := pieces_header (n + fuel) (cs ++ footer)
  rw [← List.cons_append, ← hwritten, hcuts] at hheader
  rw [hfuel, hheader]

theorem value?_blank {cs : List Char} (h : cs.all Property.isWhiteSpace = true) (fuel : Nat)
    (ms : List (Option Markup)) :
    value? (fuel + 1) (some (.content cs) :: ms) = value? fuel ms := by
  rw [value?, if_pos h]

theorem value?_documentElement (fuel : Nat) (ms : List (Option Markup)) :
    value? (fuel + 1) (some (.openTag "plist") :: ms) = value? fuel ms := rfl

theorem parse?_eq {s : String} {c : Char} {cs : List Char} (h : s.toList = c :: cs)
    (hc : c ≠ '\ufeff') : parse? s =
      (value? (2 * (Markup.pieces ((c :: cs).length + 1) [] (c :: cs)).length + 2)
        (Markup.pieces ((c :: cs).length + 1) [] (c :: cs))).map (·.1) := by
  unfold parse?
  rw [h]
  split
  · rename_i heq
    exact absurd (List.cons.inj heq).1 hc
  · rfl

/-- The text of a value is read as the value. -/
theorem parse?_rendered {v : Value} (h : Writable v) : parse? (render v) = some v := by
  obtain ⟨ms, hpieces⟩ := pieces_render h
  have hread := h.readsBack.reads (2 * ((marks v).map some ++ ms).length + 5) ms (by
    rw [List.length_append, List.length_map]
    omega)
  have hblank : (['\n'].all Property.isWhiteSpace) = true := by decide
  obtain ⟨cs, hheader⟩ : ∃ cs, header = '<' :: cs := ⟨_, rfl⟩
  have htext : (render v).toList = '<' :: (cs ++ (characters v ++ footer)) := by
    rw [render, String.toList_ofList, hheader, List.cons_append]
  rw [hheader, List.cons_append] at hpieces
  rw [parse?_eq htext (by decide), hpieces]
  simp only [List.length_cons]
  rw [show 2 * (((marks v).map some ++ ms).length + 1 + 1 + 1) + 2 =
    2 * ((marks v).map some ++ ms).length + 5 + 1 + 1 + 1 by omega, value?_blank hblank]
  rw [value?_documentElement, value?_blank hblank, hread]
  rfl

end PropertyList

end Highlight
