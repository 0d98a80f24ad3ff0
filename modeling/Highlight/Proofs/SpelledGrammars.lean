import Highlight.Grammar.Source
import Highlight.Proofs.WrittenValues

/-!
# Grammars as values and their spellings

`RawGrammar.value` is a grammar as a document value, whose flags are booleans and whose captures
have integers as keys. A format spells these in more than one way (`GrammarFormat.Spelling`): a flag
as a boolean, as an integer or as a word, the number of a group as a text with white space, a sign
and zeros around its digits. Every grammar with well-formed maps is spelled in every format
(`GrammarFormat.exists_spelling`), and all that a spelling is made of is scalars and keys of the
format (`GrammarFormat.Spelling.built`).
-/

namespace Highlight

open Value

/-! ## Values of grammars -/

namespace RawRule

-- maps and lists of rules have functions of their own, so that the recursion is structural
mutual

/-- A rule as a value: what is missing is left out. -/
def value : RawRule → Value
  | ⟨inclusion, matchSource, name, contentName, beginSource, endSource, whileSource, captures,
      beginCaptures, endCaptures, whileCaptures, patterns, repository, last, disabled⟩ =>
    .dict (entries [("include", inclusion.map .text), ("match", matchSource.map .text),
      ("name", name.map .text), ("contentName", contentName.map .text),
      ("begin", beginSource.map .text), ("end", endSource.map .text),
      ("while", whileSource.map .text), ("captures", capturesValue? captures),
      ("beginCaptures", capturesValue? beginCaptures), ("endCaptures", capturesValue? endCaptures),
      ("whileCaptures", capturesValue? whileCaptures), ("patterns", patternsValue? patterns),
      ("repository", repositoryValue? repository), ("applyEndPatternLast", last.map .bool),
      ("disabled", disabled.map .bool)])

def capturesValue? : Option (List (Nat × RawRule)) → Option Value
  | some cs => some (.dict (captureEntries cs))
  | none => none

def patternsValue? : Option (List RawRule) → Option Value
  | some rs => some (.list (patternValues rs))
  | none => none

def repositoryValue? : Option (List (String × RawRule)) → Option Value
  | some es => some (.dict (repositoryEntries es))
  | none => none

def captureEntries : List (Nat × RawRule) → List (Value × Value)
  | [] => []
  | (n, r) :: cs => (.int n, r.value) :: captureEntries cs

def patternValues : List RawRule → List Value
  | [] => []
  | r :: rs => r.value :: patternValues rs

def repositoryEntries : List (String × RawRule) → List (Value × Value)
  | [] => []
  | (name, r) :: es => (.text name, r.value) :: repositoryEntries es

end

/-- Captures as a value. -/
def capturesValue (cs : List (Nat × RawRule)) : Value :=
  .dict (cs.map fun c => (.int c.1, c.2.value))

/-- A list of rules as a value. -/
def patternsValue (rs : List RawRule) : Value := .list (rs.map value)

/-- Rules with names as a value. -/
def repositoryValue (es : List (String × RawRule)) : Value :=
  .dict (es.map fun e => (.text e.1, e.2.value))

theorem captureEntries_eq (cs : List (Nat × RawRule)) :
    captureEntries cs = cs.map fun c => (.int c.1, c.2.value) := by
  induction cs with
  | nil => rfl
  | cons c cs ih => rw [captureEntries, ih, List.map_cons]

theorem patternValues_eq (rs : List RawRule) : patternValues rs = rs.map value := by
  induction rs with
  | nil => rfl
  | cons r rs ih => rw [patternValues, ih, List.map_cons]

theorem repositoryEntries_eq (es : List (String × RawRule)) :
    repositoryEntries es = es.map fun e => (.text e.1, e.2.value) := by
  induction es with
  | nil => rfl
  | cons e es ih => rw [repositoryEntries, ih, List.map_cons]

theorem capturesValue?_eq (cs : Option (List (Nat × RawRule))) :
    capturesValue? cs = cs.map capturesValue := by
  cases cs with
  | none => rfl
  | some cs => rw [capturesValue?, captureEntries_eq]; rfl

theorem patternsValue?_eq (rs : Option (List RawRule)) :
    patternsValue? rs = rs.map patternsValue := by
  cases rs with
  | none => rfl
  | some rs => rw [patternsValue?, patternValues_eq]; rfl

theorem repositoryValue?_eq (es : Option (List (String × RawRule))) :
    repositoryValue? es = es.map repositoryValue := by
  cases es with
  | none => rfl
  | some es => rw [repositoryValue?, repositoryEntries_eq]; rfl

/-- The fields of a rule. -/
def fields (r : RawRule) : List (String × Option Value) :=
  [("include", r.inclusion.map .text), ("match", r.matchSource.map .text),
    ("name", r.name.map .text), ("contentName", r.contentName.map .text),
    ("begin", r.beginSource.map .text), ("end", r.endSource.map .text),
    ("while", r.whileSource.map .text), ("captures", r.captures.map capturesValue),
    ("beginCaptures", r.beginCaptures.map capturesValue),
    ("endCaptures", r.endCaptures.map capturesValue),
    ("whileCaptures", r.whileCaptures.map capturesValue),
    ("patterns", r.patterns.map patternsValue),
    ("repository", r.repository.map repositoryValue),
    ("applyEndPatternLast", r.applyEndPatternLast.map .bool), ("disabled", r.disabled.map .bool)]

theorem value_eq (r : RawRule) : r.value = .dict (entries r.fields) := by
  cases r
  rw [value]
  simp only [capturesValue?_eq, patternsValue?_eq, repositoryValue?_eq]
  rfl

/-- The rules directly inside a rule. -/
def children (r : RawRule) : List RawRule :=
  ((r.captures.getD [] ++ r.beginCaptures.getD [] ++ r.endCaptures.getD [] ++
      r.whileCaptures.getD []).map (·.2)) ++
    r.patterns.getD [] ++ (r.repository.getD []).map (·.2)

/-- Whether captures stand in the order of their groups, which fit 64 bits. -/
structure CapturesKeyed (cs : List (Nat × RawRule)) : Prop where
  ascending : cs.Pairwise fun c d => c.1 < d.1
  fits : ∀ c ∈ cs, c.1 < UInt64.size

/-- Whether the maps of a rule and of all rules inside it have distinct keys, captures in the order
of their groups. -/
inductive WellKeyed : RawRule → Prop
  | mk {r : RawRule} (captures : ∀ cs ∈ r.captures, CapturesKeyed cs)
      (beginCaptures : ∀ cs ∈ r.beginCaptures, CapturesKeyed cs)
      (endCaptures : ∀ cs ∈ r.endCaptures, CapturesKeyed cs)
      (whileCaptures : ∀ cs ∈ r.whileCaptures, CapturesKeyed cs)
      (repository : ∀ es ∈ r.repository, (es.map (·.1)).Nodup)
      (children : ∀ child ∈ r.children, WellKeyed child) : WellKeyed r

end RawRule

namespace RawGrammar

/-- Whether the maps of a grammar and of all its rules have distinct keys, captures in the order of
their groups. -/
structure WellKeyed (g : RawGrammar) : Prop where
  patterns : ∀ r ∈ g.patterns, r.WellKeyed
  repository : (g.repository.map (·.1)).Nodup
  entries : ∀ e ∈ g.repository, e.2.WellKeyed
  injections : (g.injections.map (·.1)).Nodup
  injected : ∀ e ∈ g.injections, e.2.WellKeyed

/-- The fields of a grammar. Lists and maps that are empty are left out, but for those whose names
are to be kept. -/
def fields (kept : String → Bool) (g : RawGrammar) : List (String × Option Value) :=
  [("scopeName", some (.text g.scopeName)), ("name", g.name.map .text),
    ("fileTypes", nonempty "fileTypes" g.fileTypes (.list (g.fileTypes.map .text))),
    ("firstLineMatch", g.firstLineMatch.map .text),
    ("patterns", nonempty "patterns" g.patterns (RawRule.patternsValue g.patterns)),
    ("repository", nonempty "repository" g.repository (RawRule.repositoryValue g.repository)),
    ("injections", nonempty "injections" g.injections (RawRule.repositoryValue g.injections)),
    ("injectionSelector", g.injectionSelector.map .text),
    ("injectTo", nonempty "injectTo" g.injectTo (.list (g.injectTo.map .text)))]
where
  /-- The value of a list or map, unless it is empty and left out. -/
  nonempty {α : Type} (name : String) (l : List α) (v : Value) : Option Value :=
    if l.isEmpty && !kept name then none else some v

/-- A grammar as a value. -/
def value (kept : String → Bool) (g : RawGrammar) : Value := .dict (entries (g.fields kept))

end RawGrammar

/-! ## Spellings -/

namespace GrammarFormat

/-- A boolean in a format: a word without quotes in YAML. -/
def boolean (format : GrammarFormat) (b : Bool) : Value :=
  match format with
  | yaml => .plain (if b then "true" else "false")
  | _ => .bool b

/-- An integer in a format: a word without quotes in YAML. -/
def integer (format : GrammarFormat) (n : Int) : Value :=
  match format with
  | yaml => .plain (toString n)
  | _ => .int n

/-- How a flag may be spelled. -/
inductive FlagSpelling (format : GrammarFormat) : Bool → Value → Prop
  | boolean (b : Bool) : FlagSpelling format b (format.boolean b)
  | integer {n : Int} (h : isWord n = true) : FlagSpelling format (n != 0) (format.integer n)
  | one : FlagSpelling format true (.text "1")
  | word : FlagSpelling format true (.text "true")

/-- The text of a number with white space around it, a sign and zeros in front. -/
def indexText (before after : List Char) (plus : Bool) (zeros n : Nat) : String :=
  String.ofList (before ++ ((if plus then ['+'] else []) ++
    (List.replicate zeros '0' ++ Nat.toDigits 10 n)) ++ after)

/-- How the number of a group may be spelled: as a text, in YAML also as an integer. -/
inductive IndexSpelling (format : GrammarFormat) (n : Nat) : Value → Prop
  | text {before after : List Char} (hbefore : before.all Property.isWhiteSpace = true)
      (hafter : after.all Property.isWhiteSpace = true) (plus : Bool) (zeros : Nat) :
      IndexSpelling format n (.text (indexText before after plus zeros n))
  | integer (h : format = .yaml) : IndexSpelling format n (format.integer n)

/-- How the value of a grammar may be spelled: texts as they are, each flag and each number of a
group in one of its ways, and so the lists and dictionaries of these. -/
inductive Spelling (format : GrammarFormat) : Value → Value → Prop
  | text (s : String) : Spelling format (.text s) (.text s)
  | flag {b : Bool} {w : Value} (h : FlagSpelling format b w) : Spelling format (.bool b) w
  | index {n : Nat} {w : Value} (h : IndexSpelling format n w) : Spelling format (.int n) w
  | nil : Spelling format (.list []) (.list [])
  | cons {v w : Value} {vs ws : List Value} (head : Spelling format v w)
      (tail : Spelling format (.list vs) (.list ws)) :
      Spelling format (.list (v :: vs)) (.list (w :: ws))
  | empty : Spelling format (.dict []) (.dict [])
  | entry {k k' v w : Value} {es es' : List (Value × Value)} (key : Spelling format k k')
      (value : Spelling format v w) (rest : Spelling format (.dict es) (.dict es')) :
      Spelling format (.dict ((k, v) :: es)) (.dict ((k', w) :: es'))

/-! ## Spelled lists and dictionaries -/

variable {format : GrammarFormat}

theorem Spelling.list {w : Value} : ∀ {vs : List Value}, Spelling format (.list vs) w →
    ∃ ws, w = .list ws ∧ List.Forall₂ (Spelling format) vs ws
  | [], h => by
    cases h with
    | nil => exact ⟨[], rfl, .nil⟩
  | v :: vs, h => by
    cases h with
    | cons head tail =>
      obtain ⟨ws, hw, hvs⟩ := Spelling.list tail
      cases hw
      exact ⟨_, rfl, .cons head hvs⟩

theorem Spelling.dict {w : Value} : ∀ {es : List (Value × Value)}, Spelling format (.dict es) w →
    ∃ es', w = .dict es' ∧
      List.Forall₂ (fun e e' => Spelling format e.1 e'.1 ∧ Spelling format e.2 e'.2) es es'
  | [], h => by
    cases h with
    | empty => exact ⟨[], rfl, .nil⟩
  | (k, v) :: es, h => by
    cases h with
    | entry key value rest =>
      obtain ⟨es', hw, hes⟩ := Spelling.dict rest
      cases hw
      exact ⟨_, rfl, .cons ⟨key, value⟩ hes⟩

theorem Spelling.eq_text {s : String} {w : Value} (h : Spelling format (.text s) w) :
    w = .text s := by
  cases h
  rfl

end GrammarFormat

/-! ## What spellings are made of -/

namespace RawRule

variable {r child : RawRule}

theorem mem_children : child ∈ r.children ↔
    (∃ c ∈ r.captures.getD [], c.2 = child) ∨ (∃ c ∈ r.beginCaptures.getD [], c.2 = child) ∨
      (∃ c ∈ r.endCaptures.getD [], c.2 = child) ∨ (∃ c ∈ r.whileCaptures.getD [], c.2 = child) ∨
      child ∈ r.patterns.getD [] ∨ ∃ e ∈ r.repository.getD [], e.2 = child := by
  simp only [children, List.map_append, List.mem_append, List.mem_map, or_assoc]

/-- The scalars of the values of grammars. -/
inductive IsScalar : Value → Prop
  | text (s : String) : IsScalar (.text s)
  | flag (b : Bool) : IsScalar (.bool b)

/-- The keys of the values of grammars. -/
inductive IsKey : Value → Prop
  | text (s : String) : IsKey (.text s)
  | index (n : Nat) : IsKey (.int n)

/-- Whether a value is made like the value of a grammar. -/
abbrev Made : Value → Prop := Built IsScalar IsKey

theorem made_text {a : Option String} {v : Value} (h : v ∈ a.map Value.text) : Made v := by
  obtain ⟨s, -, rfl⟩ := Option.map_eq_some_iff.1 h
  exact .scalar (.text s)

theorem made_flag {a : Option Bool} {v : Value} (h : v ∈ a.map Value.bool) : Made v := by
  obtain ⟨b, -, rfl⟩ := Option.map_eq_some_iff.1 h
  exact .scalar (.flag b)

theorem made_texts (l : List String) : Made (.list (l.map .text)) := by
  apply Built.list
  intro v hv
  obtain ⟨s, -, rfl⟩ := List.mem_map.1 hv
  exact .scalar (.text s)

theorem made_patterns {rs : List RawRule} (h : ∀ r ∈ rs, Made r.value) :
    Made (patternsValue rs) := by
  apply Built.list
  intro v hv
  obtain ⟨r, hr, rfl⟩ := List.mem_map.1 hv
  exact h r hr

theorem made_repository {es : List (String × RawRule)} (h : ∀ e ∈ es, Made e.2.value) :
    Made (repositoryValue es) := by
  apply Built.dict <;> intro e he <;> obtain ⟨e', he', rfl⟩ := List.mem_map.1 he
  · exact .text e'.1
  · exact h e' he'

theorem made_captures {cs : List (Nat × RawRule)} (h : ∀ c ∈ cs, Made c.2.value) :
    Made (capturesValue cs) := by
  apply Built.dict <;> intro e he <;> obtain ⟨c, hc, rfl⟩ := List.mem_map.1 he
  · exact .index c.1
  · exact h c hc

/-- The value of a rule is made of texts, flags and numbers of groups. -/
theorem made_value (h : r.WellKeyed) : Made r.value := by
  induction h with
  | @mk r _ _ _ _ _ _ ih =>
    have captures : ∀ {cs : Option (List (Nat × RawRule))} {v : Value},
        (∀ c ∈ cs.getD [], c.2 ∈ r.children) → v ∈ cs.map capturesValue → Made v := by
      intro cs v hchildren hv
      obtain ⟨cs', rfl, rfl⟩ := Option.map_eq_some_iff.1 hv
      exact made_captures fun c hc => ih c.2 (hchildren c hc)
    rw [value_eq]
    apply built_entries fun f _ => .text f.1
    intro f hf v hv
    simp only [fields, List.mem_cons, List.not_mem_nil, or_false] at hf
    rcases hf with rfl | rfl | rfl | rfl | rfl | rfl | rfl | rfl | rfl | rfl | rfl | rfl | rfl |
      rfl | rfl
    · exact made_text hv
    · exact made_text hv
    · exact made_text hv
    · exact made_text hv
    · exact made_text hv
    · exact made_text hv
    · exact made_text hv
    · exact captures (fun c hc => mem_children.2 (.inl ⟨c, hc, rfl⟩)) hv
    · exact captures (fun c hc => mem_children.2 (.inr (.inl ⟨c, hc, rfl⟩))) hv
    · exact captures (fun c hc => mem_children.2 (.inr (.inr (.inl ⟨c, hc, rfl⟩)))) hv
    · exact captures (fun c hc => mem_children.2 (.inr (.inr (.inr (.inl ⟨c, hc, rfl⟩))))) hv
    · obtain ⟨rs, hrs, rfl⟩ := Option.map_eq_some_iff.1 hv
      refine made_patterns fun child hchild => ih child (mem_children.2 ?_)
      rw [hrs]
      exact .inr (.inr (.inr (.inr (.inl hchild))))
    · obtain ⟨es, hes, rfl⟩ := Option.map_eq_some_iff.1 hv
      refine made_repository fun e he => ih e.2 (mem_children.2 ?_)
      rw [hes]
      exact .inr (.inr (.inr (.inr (.inr ⟨e, he, rfl⟩))))
    · exact made_flag hv
    · exact made_flag hv

end RawRule

namespace RawGrammar

variable {g : RawGrammar} {kept : String → Bool}

theorem made_nonempty {α : Type} {name : String} {l : List α} {v w : Value} (h : RawRule.Made v)
    (hw : w ∈ fields.nonempty kept name l v) : RawRule.Made w := by
  unfold fields.nonempty at hw
  split at hw
  · cases hw
  · cases hw
    exact h

/-- The value of a grammar is made of texts, flags and numbers of groups. -/
theorem made_value (h : g.WellKeyed) (kept : String → Bool) : RawRule.Made (g.value kept) := by
  apply built_entries fun f _ => .text f.1
  intro f hf v hv
  simp only [fields, List.mem_cons, List.not_mem_nil, or_false] at hf
  rcases hf with rfl | rfl | rfl | rfl | rfl | rfl | rfl | rfl | rfl
  · cases hv
    exact .scalar (.text g.scopeName)
  · exact RawRule.made_text hv
  · exact made_nonempty (RawRule.made_texts g.fileTypes) hv
  · exact RawRule.made_text hv
  · have hmade := RawRule.made_patterns fun r hr => RawRule.made_value (h.patterns r hr)
    exact made_nonempty hmade hv
  · have hmade := RawRule.made_repository fun e he => RawRule.made_value (h.entries e he)
    exact made_nonempty hmade hv
  · have hmade := RawRule.made_repository fun e he => RawRule.made_value (h.injected e he)
    exact made_nonempty hmade hv
  · exact RawRule.made_text hv
  · exact made_nonempty (RawRule.made_texts g.injectTo) hv

end RawGrammar

namespace GrammarFormat

variable {format : GrammarFormat}

/-- The scalars that spellings are made of. -/
inductive IsScalar (format : GrammarFormat) : Value → Prop
  | text (s : String) : IsScalar format (.text s)
  | boolean (b : Bool) : IsScalar format (format.boolean b)
  | integer {n : Int} (h : isWord n = true) : IsScalar format (format.integer n)

/-- The keys that spellings are made of. -/
inductive IsKey (format : GrammarFormat) : Value → Prop
  | text (s : String) : IsKey format (.text s)
  | integer (h : format = .yaml) (n : Nat) : IsKey format (format.integer n)

theorem Spelling.isKey {k k' : Value} (h : Spelling format k k') (hk : RawRule.IsKey k) :
    IsKey format k' := by
  cases hk with
  | text s =>
    rw [h.eq_text]
    exact .text s
  | index n =>
    cases h with
    | index h =>
      cases h with
      | text => exact .text _
      | integer h => exact .integer h n

/-- A spelling is made of scalars and keys of the format. -/
theorem Spelling.built {v w : Value} (h : Spelling format v w) (hv : RawRule.Made v) :
    Built format.IsScalar format.IsKey w := by
  induction hv generalizing w with
  | scalar hv =>
    cases hv with
    | text s =>
      rw [h.eq_text]
      exact .scalar (.text s)
    | flag b =>
      cases h with
      | flag h =>
        cases h with
        | boolean b => exact .scalar (.boolean b)
        | integer h => exact .scalar (.integer h)
        | one => exact .scalar (.text _)
        | word => exact .scalar (.text _)
  | list _ ih =>
    obtain ⟨ws, rfl, hws⟩ := h.list
    apply Built.list
    intro w hw
    obtain ⟨v, hv, hspelled⟩ := exists_of_forall₂ hws hw
    exact ih v hv hspelled
  | dict hkeys _ ih =>
    obtain ⟨es, rfl, hes⟩ := h.dict
    apply Built.dict <;> intro e he <;> obtain ⟨e', he', hkey, hvalue⟩ := exists_of_forall₂ hes he
    · exact hkey.isKey (hkeys e' he')
    · exact ih e' he' hvalue

theorem Spelling.of_list {vs ws : List Value} (h : List.Forall₂ (Spelling format) vs ws) :
    Spelling format (.list vs) (.list ws) := by
  induction h with
  | nil => exact .nil
  | cons hv _ ih => exact .cons hv ih

theorem Spelling.of_dict {es es' : List (Value × Value)}
    (h : List.Forall₂ (fun e e' => Spelling format e.1 e'.1 ∧ Spelling format e.2 e'.2) es es') :
    Spelling format (.dict es) (.dict es') := by
  induction h with
  | nil => exact .empty
  | cons he _ ih => exact .entry he.1 he.2 ih

/-- What is made like the value of a grammar has a spelling. -/
theorem exists_spelling {v : Value} (h : RawRule.Made v) : ∃ w, Spelling format v w := by
  induction h with
  | scalar h =>
    cases h with
    | text s => exact ⟨_, .text s⟩
    | flag b => exact ⟨_, .flag (.boolean b)⟩
  | list _ ih =>
    obtain ⟨ws, hws⟩ := exists_forall₂ ih
    exact ⟨_, .of_list hws⟩
  | @dict es hkeys _ ih =>
    have hentry : ∀ e ∈ es, ∃ e' : Value × Value,
        Spelling format e.1 e'.1 ∧ Spelling format e.2 e'.2 := by
      intro e he
      obtain ⟨w, hw⟩ := ih e he
      have hkey := hkeys e he
      obtain ⟨k, v⟩ := e
      cases hkey with
      | text s => exact ⟨(_, w), .text s, hw⟩
      | index n =>
        have hblank : ([] : List Char).all Property.isWhiteSpace = true := rfl
        exact ⟨(_, w), .index (.text hblank hblank false 0), hw⟩
    obtain ⟨es', hes⟩ := exists_forall₂ hentry
    exact ⟨_, .of_dict hes⟩

end GrammarFormat

end Highlight
