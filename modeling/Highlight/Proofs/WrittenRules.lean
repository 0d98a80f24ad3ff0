import Mathlib.Data.List.Nodup
import Highlight.Grammar.Compile

/-!
# What the rules of a grammar say

A grammar as written is a tree of rules. A `Site` is a place in that tree: the grammar itself, or a
part of the rule at another site. `RawGrammar.rule?` gives the rule at a site, where parts that the
keys of a rule make meaningless (patterns beside a match, captures beside an include) are none.

`RawGrammar.Means` says what the rule at a site comes to once every site has a place in a table of
rules: the keys decide the kind of the rule, lists and captures hold the places of the parts, and a
name stands for the entry of the innermost repository around the site that has one
(`RawGrammar.resolve?`). `RawGrammar.Fault` lists what can be wrong with a rule. Nothing here looks
at how a grammar is compiled; that a faulty rule means nothing is `Fault.not_means`.
-/

namespace Highlight

/-- Where a rule is written inside another rule. -/
inductive Part where
  /-- The entry of the repository with a name. -/
  | entry (name : String)
  /-- A rule of the list of patterns, which is counted without its disabled rules. -/
  | pattern (index : Nat)
  /-- The rule for a group of the match or of the begin match. -/
  | opening (group : Nat)
  /-- The rule for a group of the match that ends or continues a region. -/
  | closing (group : Nat)
  /-- A rule that the grammar injects. -/
  | injection (index : Nat)
  deriving DecidableEq, Repr

/-- Where a rule is written in a grammar: the parts that lead to it, the innermost first. Without
any part this is the grammar itself. -/
abbrev Site := List Part

namespace RawRule

/-- The captures of the match or of the begin match; those of every kind stand for captures of the
begin match that are not written. -/
def openingCaptures (r : RawRule) : Option (List (Nat × RawRule)) :=
  match r.inclusion, r.matchSource, r.beginSource with
  | none, some _, _ => r.captures
  | none, none, some _ => r.beginCaptures.or r.captures
  | _, _, _ => none

/-- The captures of the match that ends or continues a region; those of every kind stand for
captures that are not written. -/
def closingCaptures (r : RawRule) : Option (List (Nat × RawRule)) :=
  match r.inclusion, r.matchSource, r.beginSource with
  | none, none, some _ =>
    (if r.whileSource.isSome then r.whileCaptures else r.endCaptures).or r.captures
  | _, _, _ => none

/-- The rules of a list that are not disabled. -/
def live (rs : List RawRule) : List RawRule := rs.filter fun r => !r.disabled.getD false

/-- The patterns of a rule that apply. -/
def innerPatterns (r : RawRule) : List RawRule :=
  match r.inclusion, r.matchSource with
  | none, none => live (r.patterns.getD [])
  | _, _ => []

/-- The rule that is written at a part. -/
def part? (r : RawRule) : Part → Option RawRule
  | .entry name => (r.repository.getD []).lookup name
  | .pattern n => r.innerPatterns[n]?
  | .opening n => (r.openingCaptures.getD []).lookup n
  | .closing n => (r.closingCaptures.getD []).lookup n
  | .injection _ => none

/-- The maps of the rule have each key once. -/
structure Keyed (r : RawRule) : Prop where
  repository : ((r.repository.getD []).map (·.1)).Nodup
  opening : ((r.openingCaptures.getD []).map (·.1)).Nodup
  closing : ((r.closingCaptures.getD []).map (·.1)).Nodup

end RawRule

namespace RawGrammar

/-- The grammar as a rule: the list of its patterns with its repository. -/
def rootRule (g : RawGrammar) : RawRule :=
  ⟨none, none, none, none, none, none, none, none, none, none, none, some g.patterns,
    some g.repository, none, none⟩

/-- The rule that is written at a site. -/
def rule? (g : RawGrammar) : Site → Option RawRule
  | [] => some g.rootRule
  | [.injection n] => g.injections[n]?.map (·.2)
  | part :: p => (g.rule? p).bind fun r => r.part? part

/-- The maps of the rules of the grammar have each key once. -/
def Keyed (g : RawGrammar) : Prop := ∀ p r, g.rule? p = some r → r.Keyed

/-- The entry that a name stands for at a site: that of the innermost repository which has one, from
the rule's own repository out to the grammar's. -/
def resolve? (g : RawGrammar) (p : Site) (name : String) : Option Site :=
  if (g.rule? (.entry name :: p)).isSome then some (.entry name :: p)
  else
    match p with
    | [] => none
    | _ :: outer => g.resolve? outer name

theorem isSome_of_resolve? {g : RawGrammar} {name : String} {q : Site} : ∀ {p : Site},
    g.resolve? p name = some q → (g.rule? q).isSome
  | [], h => by
    rw [resolve?] at h
    split at h
    · rename_i hsome
      cases h
      exact hsome
    · cases h
  | _ :: _, h => by
    rw [resolve?] at h
    split at h
    · rename_i hsome
      cases h
      exact hsome
    · exact isSome_of_resolve? h

end RawGrammar

/-! ## References -/

theorem splitReference_entry (name : String) : splitReference ("#" ++ name) = ("", some name) := by
  have hlist : ("#" ++ name).toList = '#' :: name.toList := by simp [String.toList_append]
  simp [splitReference, hlist]

theorem eq_entry_of_splitReference {reference name : String}
    (h : splitReference reference = ("", some name)) : reference = "#" ++ name := by
  unfold splitReference at h
  dsimp only at h
  have hparts := List.takeWhile_append_dropWhile (p := (· != '#')) (l := reference.toList)
  split at h
  · cases h
  · rename_i c rest hdrop
    have hc : c = '#' := by
      have := List.head?_dropWhile_not (· != '#') reference.toList
      simpa [hdrop] using this
    simp only [Prod.mk.injEq, Option.some.injEq] at h
    have hscope : reference.toList.takeWhile (· != '#') = [] := by
      simpa using congrArg String.toList h.1
    rw [hdrop, hscope, hc] at hparts
    rw [← String.toList_inj, ← hparts, ← h.2]
    simp [String.toList_append]

theorem eq_empty_of_splitReference {reference : String}
    (h : splitReference reference = ("", none)) : reference = "" := by
  unfold splitReference at h
  dsimp only at h
  split at h
  · exact congrArg Prod.fst h
  · simp at h

theorem entry_ne_self (name : String) : "#" ++ name ≠ "$self" := by
  intro h
  have hsplit := splitReference_entry name
  rw [h, show splitReference "$self" = ("$self", none) by decide] at hsplit
  simp at hsplit

theorem entry_ne_base (name : String) : "#" ++ name ≠ "$base" := by
  intro h
  have hsplit := splitReference_entry name
  rw [h, show splitReference "$base" = ("$base", none) by decide] at hsplit
  simp at hsplit

/-- The reference has the name of a scope in it, its own or another, and maybe that of an entry. -/
structure Spells (reference : String) (scope : ScopeName) (entry : Option String) : Prop where
  ne_self : reference ≠ "$self"
  ne_base : reference ≠ "$base"
  split : splitReference reference = (scope, entry)
  scope_ne : scope ≠ ""

namespace RawGrammar

variable (g : RawGrammar) (place : Site → RuleId) (p : Site)

/-- What a reference at a site stands for, where sites have places. -/
inductive Refers : String → IncludeTarget → Prop
  | ownRoot : Refers "$self" .ownRoot
  | baseRoot : Refers "$base" .baseRoot
  | entry {name : String} {q : Site} (h : g.resolve? p name = some q) :
      Refers ("#" ++ name) (.rule (place q))
  | own {reference : String} (h : Spells reference g.scopeName none) : Refers reference .ownRoot
  | ownEntry {reference name : String} (h : Spells reference g.scopeName (some name))
      (hentry : (g.rule? [.entry name]).isSome) : Refers reference (.rule (place [.entry name]))
  | other {reference : String} {scope : ScopeName} {entry : Option String}
      (h : Spells reference scope entry) (hne : scope ≠ g.scopeName) :
      Refers reference (.grammar scope entry)

/-- What the grammar's own name stands for in a reference, maybe with that of an entry. -/
def ownTarget? : Option String → Option IncludeTarget
  | none => some .ownRoot
  | some name => if (g.rule? [.entry name]).isSome then some (.rule (place [.entry name])) else none

/-- What the name of a scope stands for in a reference, maybe with that of an entry. -/
def spelled? (scope : ScopeName) (entry : Option String) : Option IncludeTarget :=
  if scope = g.scopeName then g.ownTarget? place entry else some (.grammar scope entry)

/-- The target of a reference at a site, if it has one. -/
def target? (reference : String) : Option IncludeTarget :=
  if reference = "$self" then some .ownRoot
  else if reference = "$base" then some .baseRoot
  else if (splitReference reference).1 = "" then
    (splitReference reference).2.bind fun name => (g.resolve? p name).map fun q => .rule (place q)
  else g.spelled? place (splitReference reference).1 (splitReference reference).2

variable {g place p}

theorem target?_entry (name : String) : g.target? place p ("#" ++ name) =
    (g.resolve? p name).map fun q => .rule (place q) := by
  rw [target?, if_neg (entry_ne_self name), if_neg (entry_ne_base name), splitReference_entry,
    if_pos rfl, Option.bind_some]

theorem target?_spells {reference : String} {scope : ScopeName} {entry : Option String}
    (h : Spells reference scope entry) :
    g.target? place p reference = g.spelled? place scope entry := by
  rw [target?, if_neg h.ne_self, if_neg h.ne_base, h.split, if_neg h.scope_ne]

/-- A reference is a word, the name of an entry, nothing, or has the name of a scope in it. -/
theorem reference_cases (reference : String) : reference = "$self" ∨ reference = "$base" ∨
    (∃ name, reference = "#" ++ name) ∨ reference = "" ∨
    ∃ scope entry, Spells reference scope entry := by
  by_cases hself : reference = "$self"
  · exact .inl hself
  by_cases hbase : reference = "$base"
  · exact .inr (.inl hbase)
  refine .inr (.inr ?_)
  obtain ⟨⟨scope, entry⟩, hsplit⟩ : ∃ parts, splitReference reference = parts := ⟨_, rfl⟩
  by_cases hscope : scope = ""
  · subst hscope
    cases entry with
    | none => exact .inr (.inl (eq_empty_of_splitReference hsplit))
    | some name => exact .inl ⟨name, eq_entry_of_splitReference hsplit⟩
  · exact .inr (.inr ⟨scope, entry, hself, hbase, hsplit, hscope⟩)

/-- A reference stands for its target. -/
theorem refers_iff {reference : String} {target : IncludeTarget} :
    g.Refers place p reference target ↔ g.target? place p reference = some target := by
  constructor
  · intro h
    cases h with
    | ownRoot => rfl
    | baseRoot => rfl
    | entry h => rw [target?_entry, h, Option.map_some]
    | own h => rw [target?_spells h, spelled?, if_pos rfl, ownTarget?]
    | ownEntry h hentry => rw [target?_spells h, spelled?, if_pos rfl, ownTarget?, if_pos hentry]
    | other h hne => rw [target?_spells h, spelled?, if_neg hne]
  · intro h
    rcases reference_cases reference with rfl | rfl | ⟨name, rfl⟩ | rfl | ⟨scope, entry, hs⟩
    · cases h
      exact .ownRoot
    · cases h
      exact .baseRoot
    · rw [target?_entry] at h
      obtain ⟨q, hq, rfl⟩ := Option.map_eq_some_iff.1 h
      exact .entry hq
    · cases h
    · rw [target?_spells hs, spelled?] at h
      split at h
      · rename_i hown
        subst hown
        cases entry with
        | none =>
          cases h
          exact .own hs
        | some name =>
          obtain ⟨hentry, heq⟩ := Option.ite_none_right_eq_some.1 h
          cases heq
          exact .ownEntry hs hentry
      · rename_i hne
        cases h
        exact .other hs hne

end RawGrammar

/-! ## Rules -/

/-- The captures hold the places of the rules that are written, each at the number of its group, and
nothing else. -/
structure CaptureRules.Holds (cs : CaptureRules) (written : Option (List (Nat × RawRule)))
    (place : Nat → RuleId) : Prop where
  bounded : ∀ n ∈ (written.getD []).map (·.1), n ≤ maxCaptureIndex
  rule : ∀ n id, cs[n]? = some (some id) ↔ n ∈ (written.getD []).map (·.1) ∧ id = place n
  /-- There is nothing behind the greatest number. -/
  last : ∀ n, cs.length = n + 1 → n ∈ (written.getD []).map (·.1)

/-- What the text of an end or a continuation comes to. -/
inductive EndPattern.Of (source : String) : EndPattern → Prop
  | fixed {p : Pattern} (href : hasReferences source.toList = false)
      (hp : Pattern.compile source = .ok p) : Of source (.fixed p)
  | dynamic {p : Pattern} (href : hasReferences source.toList = true)
      (hp : Pattern.compile (dropReferences source) = .ok p) : Of source (.dynamic source)

namespace RawGrammar

variable (g : RawGrammar) (place : Site → RuleId) (p : Site)

/-- The places of the patterns of a rule. -/
def patternPlaces (r : RawRule) : List RuleId :=
  (List.range r.innerPatterns.length).map fun n => place (.pattern n :: p)

/-- What the rule at a site comes to, where sites have places. -/
inductive Means (r : RawRule) : Rule → Prop
  | inclusion {reference : String} {target : IncludeTarget} (hi : r.inclusion = some reference)
      (ht : g.Refers place p reference target) : Means r (.inclusion target)
  | matching {source : String} {pattern : Pattern} {cs : CaptureRules} (hi : r.inclusion = none)
      (hm : r.matchSource = some source) (hp : Pattern.compile source = .ok pattern)
      (hcs : cs.Holds r.openingCaptures fun n => place (.opening n :: p)) :
      Means r (.matching ⟨r.name, pattern, cs⟩)
  | beginWhile {start source : String} {pattern : Pattern} {bs cs : CaptureRules} {w : EndPattern}
      (hi : r.inclusion = none) (hm : r.matchSource = none) (hb : r.beginSource = some start)
      (hp : Pattern.compile start = .ok pattern)
      (hbs : bs.Holds r.openingCaptures fun n => place (.opening n :: p))
      (hw : r.whileSource = some source) (hof : w.Of source)
      (hcs : cs.Holds r.closingCaptures fun n => place (.closing n :: p)) :
      Means r (.beginWhile ⟨r.name, r.contentName, pattern, bs, w, cs, patternPlaces place p r⟩)
  | beginEnd {start : String} {pattern : Pattern} {bs cs : CaptureRules} {e : EndPattern}
      (hi : r.inclusion = none) (hm : r.matchSource = none) (hb : r.beginSource = some start)
      (hp : Pattern.compile start = .ok pattern)
      (hbs : bs.Holds r.openingCaptures fun n => place (.opening n :: p))
      (hw : r.whileSource = none) (hof : e.Of (r.endSource.getD unendingSource))
      (hcs : cs.Holds r.closingCaptures fun n => place (.closing n :: p)) :
      Means r (.beginEnd ⟨r.name, r.contentName, pattern, bs, e, cs, patternPlaces place p r,
        r.applyEndPatternLast.getD false⟩)
  | group (hi : r.inclusion = none) (hm : r.matchSource = none) (hb : r.beginSource = none)
      (he : r.endSource = none) (hw : r.whileSource = none) :
      Means r (.group ⟨r.name, r.contentName, patternPlaces place p r⟩)

/-- The text of an end or a continuation is no pattern. -/
def BadEnd (source : String) (e : PatternError) : Prop :=
  if hasReferences source.toList then Pattern.compile (dropReferences source) = .error e
  else Pattern.compile source = .error e

/-- What is wrong with the rule at a site. -/
inductive Fault (r : RawRule) : GrammarError → Prop
  | noEntry {name : String} (hi : r.inclusion = some ("#" ++ name)) (h : g.resolve? p name = none) :
      Fault r (.unresolved g.scopeName ("#" ++ name))
  | nothing (hi : r.inclusion = some "") : Fault r (.unresolved g.scopeName "")
  | noOwnEntry {reference name : String} (hi : r.inclusion = some reference)
      (h : Spells reference g.scopeName (some name)) (hentry : g.rule? [.entry name] = none) :
      Fault r (.unresolved g.scopeName reference)
  | matching {source : String} {e : PatternError} (hi : r.inclusion = none)
      (hm : r.matchSource = some source) (hp : Pattern.compile source = .error e) :
      Fault r (.badPattern e)
  | starting {start : String} {e : PatternError} (hi : r.inclusion = none)
      (hm : r.matchSource = none) (hb : r.beginSource = some start)
      (hp : Pattern.compile start = .error e) : Fault r (.badPattern e)
  | continuing {start source : String} {e : PatternError} (hi : r.inclusion = none)
      (hm : r.matchSource = none) (hb : r.beginSource = some start)
      (hw : r.whileSource = some source) (he : BadEnd source e) : Fault r (.badPattern e)
  | ending {start : String} {e : PatternError} (hi : r.inclusion = none)
      (hm : r.matchSource = none) (hb : r.beginSource = some start) (hw : r.whileSource = none)
      (he : BadEnd (r.endSource.getD unendingSource) e) : Fault r (.badPattern e)
  | endWithoutBegin (hi : r.inclusion = none) (hm : r.matchSource = none)
      (hb : r.beginSource = none) (h : r.endSource.isSome ∨ r.whileSource.isSome) :
      Fault r (.badRule g.scopeName .endWithoutBegin)
  | openingIndex {n : Nat} (hn : n ∈ (r.openingCaptures.getD []).map (·.1))
      (h : maxCaptureIndex < n) (hfits : n + 1 < UInt64.size) :
      Fault r (.badRule g.scopeName (.captureIndex n))
  | closingIndex {n : Nat} (hn : n ∈ (r.closingCaptures.getD []).map (·.1))
      (h : maxCaptureIndex < n) (hfits : n + 1 < UInt64.size) :
      Fault r (.badRule g.scopeName (.captureIndex n))
  | openingOverflow {n : Nat} (hn : n ∈ (r.openingCaptures.getD []).map (·.1))
      (h : UInt64.size ≤ n + 1) : Fault r .overflow
  | closingOverflow {n : Nat} (hn : n ∈ (r.closingCaptures.getD []).map (·.1))
      (h : UInt64.size ≤ n + 1) : Fault r .overflow

variable {g place p} {r : RawRule}

/-- A reference with something wrong stands for nothing. -/
theorem Fault.target?_eq_none {reference : String} {e : GrammarError} (h : g.Fault p r e)
    (hi : r.inclusion = some reference) : g.target? place p reference = none := by
  cases h with
  | noEntry hi' hnone =>
    cases Option.some.inj (hi'.symm.trans hi)
    rw [target?_entry, hnone, Option.map_none]
  | nothing hi' =>
    cases Option.some.inj (hi'.symm.trans hi)
    rfl
  | noOwnEntry hi' hs hnone =>
    cases Option.some.inj (hi'.symm.trans hi)
    rw [target?_spells hs, spelled?, if_pos rfl, ownTarget?, hnone]
    rfl
  | matching hi' => cases hi'.symm.trans hi
  | starting hi' => cases hi'.symm.trans hi
  | continuing hi' => cases hi'.symm.trans hi
  | ending hi' => cases hi'.symm.trans hi
  | endWithoutBegin hi' => cases hi'.symm.trans hi
  | openingIndex hn | openingOverflow hn => simp [RawRule.openingCaptures, hi] at hn
  | closingIndex hn | closingOverflow hn => simp [RawRule.closingCaptures, hi] at hn

/-- Too great a number of a capture is a fault, however great it is. -/
theorem fault_openingCapture {n : Nat} (hn : n ∈ (r.openingCaptures.getD []).map (·.1))
    (h : maxCaptureIndex < n) : g.Fault p r (.ofCaptureIndex g.scopeName n) := by
  unfold GrammarError.ofCaptureIndex
  split
  · next hfits => exact .openingIndex hn h hfits
  · next hover => exact .openingOverflow hn (Nat.le_of_not_lt hover)

theorem fault_closingCapture {n : Nat} (hn : n ∈ (r.closingCaptures.getD []).map (·.1))
    (h : maxCaptureIndex < n) : g.Fault p r (.ofCaptureIndex g.scopeName n) := by
  unfold GrammarError.ofCaptureIndex
  split
  · next hfits => exact .closingIndex hn h hfits
  · next hover => exact .closingOverflow hn (Nat.le_of_not_lt hover)

theorem maxCaptureIndex_lt {n : Nat} (h : UInt64.size ≤ n + 1) : maxCaptureIndex < n :=
  Nat.lt_of_succ_lt_succ (Nat.lt_of_lt_of_le (by decide) h)

/-- A reference that stands for nothing is a fault. -/
theorem fault_of_target?_eq_none {reference : String} (hi : r.inclusion = some reference)
    (h : g.target? place p reference = none) :
    g.Fault p r (.unresolved g.scopeName reference) := by
  rcases reference_cases reference with rfl | rfl | ⟨name, rfl⟩ | rfl | ⟨scope, entry, hs⟩
  · cases h
  · cases h
  · rw [target?_entry, Option.map_eq_none_iff] at h
    exact .noEntry hi h
  · exact .nothing hi
  · rw [target?_spells hs, spelled?] at h
    split at h
    · rename_i hown
      subst hown
      cases entry with
      | none => cases h
      | some name =>
        refine .noOwnEntry hi hs ?_
        simpa [ownTarget?] using h
    · cases h

theorem BadEnd.not_of {source : String} {e : PatternError} {close : EndPattern}
    (h : BadEnd source e) : ¬close.Of source := by
  intro hof
  unfold BadEnd at h
  cases hof with
  | fixed href hp =>
    rw [href, if_neg Bool.false_ne_true, hp] at h
    cases h
  | dynamic href hp =>
    rw [href, if_pos rfl, hp] at h
    cases h

/-- A rule with something wrong means nothing. -/
theorem Fault.not_means {rule : Rule} {e : GrammarError} (h : g.Fault p r e) :
    ¬g.Means place p r rule := by
  intro hmeans
  cases hmeans with
  | inclusion hi ht =>
    rw [refers_iff, h.target?_eq_none hi] at ht
    cases ht
  | matching hi hm hp hcs =>
    cases h with
    | matching _ hm' hp' =>
      cases hm.symm.trans hm'
      cases hp.symm.trans hp'
    | openingIndex hn hlt => exact absurd (hcs.bounded _ hn) (Nat.not_le.2 hlt)
    | openingOverflow hn h =>
      exact absurd (hcs.bounded _ hn) (Nat.not_le.2 (maxCaptureIndex_lt h))
    | closingIndex hn | closingOverflow hn => simp [RawRule.closingCaptures, hi, hm] at hn
    | _ => simp_all
  | beginWhile hi hm hb hp hbs hw hof hcs =>
    cases h with
    | starting _ _ hb' hp' =>
      cases hb.symm.trans hb'
      cases hp.symm.trans hp'
    | continuing _ _ _ hw' he =>
      cases hw.symm.trans hw'
      exact he.not_of hof
    | openingIndex hn hlt => exact absurd (hbs.bounded _ hn) (Nat.not_le.2 hlt)
    | closingIndex hn hlt => exact absurd (hcs.bounded _ hn) (Nat.not_le.2 hlt)
    | openingOverflow hn h =>
      exact absurd (hbs.bounded _ hn) (Nat.not_le.2 (maxCaptureIndex_lt h))
    | closingOverflow hn h =>
      exact absurd (hcs.bounded _ hn) (Nat.not_le.2 (maxCaptureIndex_lt h))
    | _ => simp_all
  | beginEnd hi hm hb hp hbs hw hof hcs =>
    cases h with
    | starting _ _ hb' hp' =>
      cases hb.symm.trans hb'
      cases hp.symm.trans hp'
    | ending _ _ _ _ he => exact he.not_of hof
    | openingIndex hn hlt => exact absurd (hbs.bounded _ hn) (Nat.not_le.2 hlt)
    | closingIndex hn hlt => exact absurd (hcs.bounded _ hn) (Nat.not_le.2 hlt)
    | openingOverflow hn h =>
      exact absurd (hbs.bounded _ hn) (Nat.not_le.2 (maxCaptureIndex_lt h))
    | closingOverflow hn h =>
      exact absurd (hcs.bounded _ hn) (Nat.not_le.2 (maxCaptureIndex_lt h))
    | _ => simp_all
  | group hi hm hb he hw =>
    cases h with
    | endWithoutBegin _ _ _ hsome => simp [he, hw] at hsome
    | openingIndex hn | openingOverflow hn => simp [RawRule.openingCaptures, hi, hm, hb] at hn
    | closingIndex hn | closingOverflow hn => simp [RawRule.closingCaptures, hi, hm, hb] at hn
    | _ => simp_all

end RawGrammar

end Highlight
