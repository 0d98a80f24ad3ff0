import Mathlib.Data.List.Forall2
import Highlight.Proofs.PlacedRules
import Highlight.Proofs.ReadGrammars

/-!
# Reordered repositories

A repository is a map: the order in which its entries are listed has no meaning. Grammars are
`RawGrammar.Reordered` if they differ in nothing else, at whatever depth the repositories are. Such
grammars have the same sites, where the same is written but for the order of repositories inside
(`Reordered.rule?_rel`); names stand for the same sites (`Reordered.resolve?_eq`), and the same is
wrong with the rules of both (`Reordered.blames_iff`).
-/

namespace Highlight

/-- The rule without the rules inside it. -/
def RawRule.bare (r : RawRule) : RawRule :=
  { r with
    captures := none
    beginCaptures := none
    endCaptures := none
    whileCaptures := none
    patterns := none
    repository := none }

mutual

/-- The rules differ at most in the order of repositories, their own and those of rules inside. -/
inductive RawRule.Reordered : RawRule → RawRule → Prop
  | mk {r r' : RawRule} (bare : r'.bare = r.bare)
    (captures : Option.Rel (List.Forall₂ RawRule.ReorderedCapture) r.captures r'.captures)
    (beginCaptures :
      Option.Rel (List.Forall₂ RawRule.ReorderedCapture) r.beginCaptures r'.beginCaptures)
    (endCaptures : Option.Rel (List.Forall₂ RawRule.ReorderedCapture) r.endCaptures r'.endCaptures)
    (whileCaptures :
      Option.Rel (List.Forall₂ RawRule.ReorderedCapture) r.whileCaptures r'.whileCaptures)
    (patterns : Option.Rel (List.Forall₂ RawRule.Reordered) r.patterns r'.patterns)
    (repository : Option.Rel RawRule.ReorderedRepository r.repository r'.repository) :
    RawRule.Reordered r r'

/-- The rules for a group differ at most in the order of repositories. -/
inductive RawRule.ReorderedCapture : Nat × RawRule → Nat × RawRule → Prop
  | mk (n : Nat) {r r' : RawRule} (h : RawRule.Reordered r r') :
    RawRule.ReorderedCapture (n, r) (n, r')

/-- The rules of entries differ at most in the order of repositories. -/
inductive RawRule.ReorderedEntry : String × RawRule → String × RawRule → Prop
  | mk (name : String) {r r' : RawRule} (h : RawRule.Reordered r r') :
    RawRule.ReorderedEntry (name, r) (name, r')

/-- The repositories have the same entries in any order. -/
inductive RawRule.ReorderedRepository : List (String × RawRule) → List (String × RawRule) → Prop
  | mk {es es' es'' : List (String × RawRule)} (perm : es.Perm es')
    (entries : List.Forall₂ RawRule.ReorderedEntry es' es'') : RawRule.ReorderedRepository es es''

end

/-- The grammars differ at most in the order of repositories, their own and those of their rules. -/
structure RawGrammar.Reordered (g g' : RawGrammar) : Prop where
  header : g'.scopeName = g.scopeName ∧ g'.name = g.name ∧ g'.fileTypes = g.fileTypes ∧
    g'.firstLineMatch = g.firstLineMatch ∧ g'.injectionSelector = g.injectionSelector ∧
    g'.injectTo = g.injectTo
  patterns : List.Forall₂ RawRule.Reordered g.patterns g'.patterns
  repository : RawRule.ReorderedRepository g.repository g'.repository
  injections : List.Forall₂ RawRule.ReorderedEntry g.injections g'.injections

namespace RawRule

/-! ## Parts of reordered rules -/

/-- The same key with rules that differ at most in the order of repositories. -/
def SameKey {κ : Type} (e e' : κ × RawRule) : Prop := e'.1 = e.1 ∧ Reordered e.2 e'.2

theorem sameKey_of_capture {cs cs' : List (Nat × RawRule)}
    (h : List.Forall₂ ReorderedCapture cs cs') : List.Forall₂ SameKey cs cs' :=
  h.imp fun
    | _, _, .mk _ h => ⟨rfl, h⟩

theorem sameKey_of_entry {es es' : List (String × RawRule)}
    (h : List.Forall₂ ReorderedEntry es es') : List.Forall₂ SameKey es es' :=
  h.imp fun
    | _, _, .mk _ h => ⟨rfl, h⟩

section

variable {κ : Type} {es es' : List (κ × RawRule)}

theorem map_fst_of_sameKey (h : List.Forall₂ SameKey es es') : es'.map (·.1) = es.map (·.1) := by
  induction h with
  | nil => rfl
  | cons hkey _ ih => rw [List.map_cons, List.map_cons, ih, hkey.1]

theorem lookup_of_sameKey [BEq κ] (h : List.Forall₂ SameKey es es') (k : κ) :
    Option.Rel Reordered (es.lookup k) (es'.lookup k) := by
  induction h with
  | nil => exact .none
  | @cons e e' es es' hkey _ ih =>
    rw [List.lookup_cons, List.lookup_cons, hkey.1]
    cases k == e.1 with
    | true => exact .some hkey.2
    | false => exact ih

end

/-- What a rule says without the rules inside it is the same in a rule with the same texts. -/
theorem eq_of_bare {r r' : RawRule} (h : r'.bare = r.bare) {α : Type} (field : RawRule → α)
    (hfield : ∀ r, field r.bare = field r) : field r' = field r :=
  calc field r' = field r'.bare := (hfield r').symm
    _ = field r.bare := by rw [h]
    _ = field r := hfield r

namespace Reordered

variable {r r' : RawRule} (h : Reordered r r')

include h

theorem bare_eq : r'.bare = r.bare := by
  cases h with
  | mk bare => exact bare

theorem openingCaptures_rel :
    Option.Rel (List.Forall₂ ReorderedCapture) r.openingCaptures r'.openingCaptures := by
  unfold openingCaptures
  rw [eq_of_bare h.bare_eq inclusion fun _ => rfl, eq_of_bare h.bare_eq matchSource fun _ => rfl,
    eq_of_bare h.bare_eq beginSource fun _ => rfl]
  cases h with
  | mk _ captures beginCaptures _ _ _ _ =>
    split
    · exact captures
    · exact rel_or beginCaptures captures
    · exact .none

theorem closingCaptures_rel :
    Option.Rel (List.Forall₂ ReorderedCapture) r.closingCaptures r'.closingCaptures := by
  unfold closingCaptures
  rw [eq_of_bare h.bare_eq inclusion fun _ => rfl, eq_of_bare h.bare_eq matchSource fun _ => rfl,
    eq_of_bare h.bare_eq beginSource fun _ => rfl, eq_of_bare h.bare_eq whileSource fun _ => rfl]
  cases h with
  | mk _ captures _ endCaptures whileCaptures _ _ =>
    split
    · have hkind : Option.Rel (List.Forall₂ ReorderedCapture)
          (if r.whileSource.isSome then r.whileCaptures else r.endCaptures)
          (if r.whileSource.isSome then r'.whileCaptures else r'.endCaptures) := by
        split
        · exact whileCaptures
        · exact endCaptures
      exact rel_or hkind captures
    · exact .none

theorem innerPatterns_rel : List.Forall₂ Reordered r.innerPatterns r'.innerPatterns := by
  have hlive : ∀ rs rs' : List RawRule, List.Forall₂ Reordered rs rs' →
      List.Forall₂ Reordered (live rs) (live rs') := by
    intro rs rs' hrs
    refine List.rel_filter (fun r r' hr => ?_) hrs
    dsimp only
    rw [eq_of_bare hr.bare_eq disabled fun _ => rfl]
  unfold innerPatterns
  rw [eq_of_bare h.bare_eq inclusion fun _ => rfl, eq_of_bare h.bare_eq matchSource fun _ => rfl]
  cases h with
  | mk _ _ _ _ _ patterns _ =>
    split
    · exact hlive _ _ (forall₂_getD patterns)
    · exact .nil

theorem openings : List.Forall₂ SameKey (r.openingCaptures.getD [])
    (r'.openingCaptures.getD []) :=
  sameKey_of_capture (forall₂_getD h.openingCaptures_rel)

theorem closings : List.Forall₂ SameKey (r.closingCaptures.getD [])
    (r'.closingCaptures.getD []) :=
  sameKey_of_capture (forall₂_getD h.closingCaptures_rel)

theorem entries : ∃ es, (r.repository.getD []).Perm es ∧
    List.Forall₂ SameKey es (r'.repository.getD []) := by
  cases h with
  | mk _ _ _ _ _ _ repository =>
    obtain ⟨hes, hes'⟩ | ⟨es, es', hes, hes', hreordered⟩ := rel_cases repository
    · rw [hes, hes']
      exact ⟨[], .refl _, .nil⟩
    · rw [hes, hes']
      cases hreordered with
      | mk perm entries => exact ⟨_, perm, sameKey_of_entry entries⟩

theorem keyed (hr : r.Keyed) : r'.Keyed where
  repository := by
    obtain ⟨es, hperm, hes⟩ := h.entries
    rw [map_fst_of_sameKey hes]
    exact (hperm.map (·.1)).nodup_iff.1 hr.repository
  opening := by
    rw [map_fst_of_sameKey h.openings]
    exact hr.opening
  closing := by
    rw [map_fst_of_sameKey h.closings]
    exact hr.closing

/-- What is written at a part does not depend on the order of repositories. -/
theorem part?_rel (hr : r.Keyed) (part : Part) :
    Option.Rel Reordered (r.part? part) (r'.part? part) := by
  cases part with
  | entry name =>
    obtain ⟨es, hperm, hes⟩ := h.entries
    have hlookup := lookup_of_sameKey hes name
    rwa [lookup_perm hperm hr.repository] at hlookup
  | pattern n => exact rel_getElem? h.innerPatterns_rel n
  | opening n => exact lookup_of_sameKey h.openings n
  | closing n => exact lookup_of_sameKey h.closings n
  | injection n => exact .none

end Reordered

end RawRule

/-- A rule without rules inside has no map at all. -/
theorem RawRule.Deep.of_bare {r : RawRule} (h : r.bare = r) : r.Deep := by
  rw [← h]
  refine .of_fields ?_ ?_ ?_
  · rintro cs (hcs | hcs | hcs | hcs) <;> cases hcs
  · intro rs hrs
    cases hrs
  · intro es hes
    cases hes

theorem RawRule.Reordered.of_bare {r : RawRule} (h : r.bare = r) : r.Reordered r := by
  rw [← h]
  exact .mk rfl .none .none .none .none .none .none

theorem RawRule.ReorderedRepository.reverse {es : List (String × RawRule)}
    (h : ∀ e ∈ es, e.2.bare = e.2) : ReorderedRepository es es.reverse := by
  refine .mk (List.reverse_perm es).symm (List.forall₂_same.2 fun e he => ?_)
  exact .mk e.1 (.of_bare (h e (List.mem_reverse.1 he)))

namespace RawGrammar

/-! ## Sites of reordered grammars -/

variable {g g' : RawGrammar} {p : Site}

/-- What is wrong with a rule is wrong with a rule of the same texts and captures, where names stand
for the same. -/
theorem Fault.of_bare {r r' : RawRule} {e : GrammarError} (hname : g'.scopeName = g.scopeName)
    (hresolve : ∀ name, g'.resolve? p name = g.resolve? p name)
    (hentry : ∀ name, (g'.rule? [.entry name]).isSome = (g.rule? [.entry name]).isSome)
    (hbare : r'.bare = r.bare)
    (hopenings : (r'.openingCaptures.getD []).map (·.1) = (r.openingCaptures.getD []).map (·.1))
    (hclosings : (r'.closingCaptures.getD []).map (·.1) = (r.closingCaptures.getD []).map (·.1))
    (hfault : g'.Fault p r' e) : g.Fault p r e := by
  have hi := RawRule.eq_of_bare hbare RawRule.inclusion fun _ => rfl
  have hm := RawRule.eq_of_bare hbare RawRule.matchSource fun _ => rfl
  have hb := RawRule.eq_of_bare hbare RawRule.beginSource fun _ => rfl
  have he := RawRule.eq_of_bare hbare RawRule.endSource fun _ => rfl
  have hw := RawRule.eq_of_bare hbare RawRule.whileSource fun _ => rfl
  cases hfault with
  | noEntry hi' hnone =>
    rw [hname]
    exact .noEntry (hi.symm.trans hi') ((hresolve _).symm.trans hnone)
  | nothing hi' =>
    rw [hname]
    exact .nothing (hi.symm.trans hi')
  | noOwnEntry hi' hs hnone =>
    rw [hname] at hs ⊢
    refine .noOwnEntry (hi.symm.trans hi') hs ?_
    rw [← Option.not_isSome_iff_eq_none, hentry] at hnone
    exact Option.not_isSome_iff_eq_none.1 hnone
  | matching hi' hm' hp => exact .matching (hi.symm.trans hi') (hm.symm.trans hm') hp
  | starting hi' hm' hb' hp =>
    exact .starting (hi.symm.trans hi') (hm.symm.trans hm') (hb.symm.trans hb') hp
  | continuing hi' hm' hb' hw' hp =>
    exact .continuing (hi.symm.trans hi') (hm.symm.trans hm') (hb.symm.trans hb')
      (hw.symm.trans hw') hp
  | ending hi' hm' hb' hw' hp =>
    rw [he] at hp
    exact .ending (hi.symm.trans hi') (hm.symm.trans hm') (hb.symm.trans hb') (hw.symm.trans hw') hp
  | endWithoutBegin hi' hm' hb' hsome =>
    rw [he, hw] at hsome
    rw [hname]
    exact .endWithoutBegin (hi.symm.trans hi') (hm.symm.trans hm') (hb.symm.trans hb') hsome
  | openingIndex hn hlt hfits =>
    rw [hopenings] at hn
    rw [hname]
    exact .openingIndex hn hlt hfits
  | closingIndex hn hlt hfits =>
    rw [hclosings] at hn
    rw [hname]
    exact .closingIndex hn hlt hfits
  | openingOverflow hn hover =>
    rw [hopenings] at hn
    exact .openingOverflow hn hover
  | closingOverflow hn hover =>
    rw [hclosings] at hn
    exact .closingOverflow hn hover

namespace Reordered

theorem rootRule (h : g.Reordered g') : g.rootRule.Reordered g'.rootRule :=
  .mk rfl .none .none .none .none (.some h.patterns) (.some h.repository)

variable (hg : g.Keyed) (h : g.Reordered g')

include hg h

/-- The same is written at each site, but for the order of repositories. -/
theorem rule?_rel : ∀ p : Site, Option.Rel RawRule.Reordered (g.rule? p) (g'.rule? p)
  | [] => .some h.rootRule
  | [part] => by
    have hpart := h.rootRule.part?_rel (hg [] _ rfl) part
    cases part with
    | injection n =>
      have hinjections := rel_getElem? (RawRule.sameKey_of_entry h.injections) n
      change Option.Rel _ (g.injections[n]?.map (·.2)) (g'.injections[n]?.map (·.2))
      obtain ⟨he, he'⟩ | ⟨e, e', he, he', hkey⟩ := rel_cases hinjections
      · rw [he, he']
        exact .none
      · rw [he, he']
        exact .some hkey.2
    | entry name => exact hpart
    | pattern n => exact hpart
    | opening n => exact hpart
    | closing n => exact hpart
  | part :: part' :: p => by
    rw [rule?_cons, rule?_cons]
    obtain ⟨hr, hr'⟩ | ⟨r, r', hr, hr', hreordered⟩ := rel_cases (rule?_rel (part' :: p))
    · rw [hr, hr']
      exact .none
    · rw [hr, hr']
      exact hreordered.part?_rel (hg (part' :: p) r hr) part

theorem exists_rule? {r : RawRule} (hr : g.rule? p = some r) :
    ∃ r', g'.rule? p = some r' ∧ r.Reordered r' := by
  obtain ⟨hnone, _⟩ | ⟨r₁, r', hr₁, hr', hreordered⟩ := rel_cases (h.rule?_rel hg p)
  · cases hr.symm.trans hnone
  · cases hr.symm.trans hr₁
    exact ⟨r', hr', hreordered⟩

theorem isSome_rule? (p : Site) : (g'.rule? p).isSome = (g.rule? p).isSome :=
  isSome_eq_of_rel (h.rule?_rel hg p)

theorem keyed : g'.Keyed := by
  intro p r' hr'
  obtain ⟨_, hnone⟩ | ⟨r, r₁, hr, hr₁, hreordered⟩ := rel_cases (h.rule?_rel hg p)
  · cases hr'.symm.trans hnone
  · cases hr'.symm.trans hr₁
    exact hreordered.keyed (hg p r hr)

/-- Names stand for the same sites. -/
theorem resolve?_eq (name : String) : ∀ p : Site, g'.resolve? p name = g.resolve? p name
  | [] => by
    rw [resolve?, resolve?, h.isSome_rule? hg]
  | part :: p => by
    rw [resolve?, resolve?, h.isSome_rule? hg, resolve?_eq name p]

/-- The same is wrong with reordered grammars. -/
theorem blames_iff (e : GrammarError) : g'.Blames e ↔ g.Blames e := by
  refine exists_congr fun p => ?_
  have hresolve := fun name => h.resolve?_eq hg name p
  have hentry := fun name => h.isSome_rule? hg [.entry name]
  obtain ⟨hnone, hnone'⟩ | ⟨r, r', hsome, hsome', hr⟩ := rel_cases (h.rule?_rel hg p)
  · simp [hnone, hnone']
  · simp only [hsome, hsome', Option.some.injEq, exists_eq_left']
    have hopenings := RawRule.map_fst_of_sameKey hr.openings
    have hclosings := RawRule.map_fst_of_sameKey hr.closings
    constructor
    · exact Fault.of_bare h.header.1 hresolve hentry hr.bare_eq hopenings hclosings
    · exact Fault.of_bare h.header.1.symm (fun name => (hresolve name).symm)
        (fun name => (hentry name).symm) hr.bare_eq.symm hopenings.symm hclosings.symm

theorem mentions_iff (scope : ScopeName) : g'.Mentions scope ↔ g.Mentions scope := by
  unfold Mentions
  rw [h.header.1]
  refine and_congr_right fun _ => exists_congr fun p => ?_
  obtain ⟨hnone, hnone'⟩ | ⟨r, r', hsome, hsome', hr⟩ := rel_cases (h.rule?_rel hg p)
  · simp [hnone, hnone']
  · simp [hsome, hsome', RawRule.eq_of_bare hr.bare_eq RawRule.inclusion fun _ => rfl]

end Reordered

end RawGrammar

end Highlight
