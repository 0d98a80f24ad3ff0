import Highlight.Proofs.FaithfulTable
import Highlight.Proofs.RenamedScans
import Highlight.Proofs.ReorderedRules

/-!
# The order of repositories does not show

Places in the table are given out in the order in which the entries of repositories are listed, so
the places of the sites of two reordered grammars go with each other by a renaming (`renumbering`).
What a rule means in one table is what it means in the other with renamed places
(`Reordered.means_rename`). Hence documents, and with them linked grammars and the tokens of texts,
differ by the renaming only (`compile_reordered`).
-/

namespace Highlight

theorem EndPattern.Of.unique {source : String} {e e' : EndPattern} (h : e.Of source)
    (h' : e'.Of source) : e = e' := by
  cases h with
  | fixed href hp =>
    cases h' with
    | fixed _ hp' =>
      cases hp.symm.trans hp'
      rfl
    | dynamic href' _ => cases href.symm.trans href'
  | dynamic href _ =>
    cases h' with
    | fixed href' _ => cases href.symm.trans href'
    | dynamic _ _ => rfl

namespace CaptureRules.Holds

variable {cs : CaptureRules} {written : Option (List (Nat × RawRule))} {k : Nat → RuleId} {n : Nat}

theorem lt_length (h : cs.Holds written k) (hn : n ∈ (written.getD []).map (·.1)) :
    n < cs.length := by
  obtain ⟨hlt, _⟩ := List.getElem?_eq_some_iff.1 ((h.rule n _).2 ⟨hn, rfl⟩)
  exact hlt

theorem getElem?_eq_none (h : cs.Holds written k) (hn : n ∉ (written.getD []).map (·.1))
    (hlt : n < cs.length) : cs[n]? = some none := by
  rw [List.getElem?_eq_getElem hlt]
  cases hid : cs[n] with
  | none => rfl
  | some id =>
    have hrule := (h.rule n id).1 (by rw [List.getElem?_eq_getElem hlt, hid])
    exact absurd hrule.1 hn

theorem length_le {cs' : CaptureRules} {written' : Option (List (Nat × RawRule))}
    {k' : Nat → RuleId} (h : cs.Holds written k) (h' : cs'.Holds written' k')
    (hkeys : (written.getD []).map (·.1) ⊆ (written'.getD []).map (·.1)) :
    cs.length ≤ cs'.length := by
  cases hn : cs.length with
  | zero => exact Nat.zero_le _
  | succ n => exact h'.lt_length (hkeys (h.last n hn))

end CaptureRules.Holds

/-- The captures of a rule at other places are renamed. -/
theorem CaptureRules.Holds.rename {cs cs' : CaptureRules} {f : RuleId → RuleId}
    {written written' : Option (List (Nat × RawRule))} {k k' : Nat → RuleId}
    (h : cs.Holds written k) (h' : cs'.Holds written' k')
    (hkeys : (written'.getD []).map (·.1) = (written.getD []).map (·.1))
    (hplace : ∀ n ∈ (written.getD []).map (·.1), k' n = f (k n)) : cs' = cs.rename f := by
  have hlength : cs'.length = cs.length :=
    Nat.le_antisymm (h'.length_le h fun n hn => hkeys ▸ hn) (h.length_le h' fun n hn => hkeys ▸ hn)
  refine List.ext_getElem? fun n => ?_
  rw [CaptureRules.rename, List.getElem?_map]
  by_cases hn : n ∈ (written.getD []).map (·.1)
  · rw [(h.rule n _).2 ⟨hn, rfl⟩, (h'.rule n _).2 ⟨hkeys ▸ hn, rfl⟩, hplace n hn]
    rfl
  · by_cases hlen : n < cs.length
    · rw [h.getElem?_eq_none hn hlen, h'.getElem?_eq_none (hkeys ▸ hn) (hlength ▸ hlen)]
      rfl
    · rw [List.getElem?_eq_none (by omega), List.getElem?_eq_none (by omega)]
      rfl

namespace RawGrammar

variable {g g' : RawGrammar} {p : Site} {place place' : Site → RuleId} {f : RuleId → RuleId}

/-- Sites with a rule have renamed places. -/
def Moves (g : RawGrammar) (place place' : Site → RuleId) (f : RuleId → RuleId) : Prop :=
  ∀ q, (g.rule? q).isSome → place' q = f (place q)

theorem patternPlaces_rename (hmoves : g.Moves place place' f) {r r' : RawRule}
    (hr : g.rule? p = some r) (hreordered : r.Reordered r') :
    patternPlaces place' p r' = (patternPlaces place p r).map f := by
  rw [patternPlaces, patternPlaces, ← hreordered.innerPatterns_rel.length_eq, List.map_map]
  refine List.map_congr_left fun n hn => hmoves _ ?_
  have hpart : (r.part? (.pattern n)).isSome := by
    simpa [RawRule.part?] using List.mem_range.1 hn
  rw [rule?_part hr hpart]
  exact hpart

/-- The captures that make up the `part`s of a rule are renamed. -/
theorem captures_rename (hmoves : g.Moves place place' f) {r : RawRule} (hr : g.rule? p = some r)
    (part : Nat → Part) {written written' : Option (List (Nat × RawRule))}
    (hpart : ∀ n, r.part? (part n) = (written.getD []).lookup n)
    (hsame : List.Forall₂ RawRule.SameKey (written.getD []) (written'.getD []))
    {cs cs' : CaptureRules} (hcs : cs.Holds written fun n => place (part n :: p))
    (hcs' : cs'.Holds written' fun n => place' (part n :: p)) : cs' = cs.rename f := by
  refine hcs.rename hcs' (RawRule.map_fst_of_sameKey hsame) fun n hn => hmoves _ ?_
  have hsome : (r.part? (part n)).isSome := by
    rw [hpart]
    exact isSome_lookup_iff_mem.2 hn
  rw [rule?_part hr hsome]
  exact hsome

namespace Reordered

variable (hg : g.Keyed) (h : g.Reordered g') (hmoves : g.Moves place place' f)

include hg h hmoves

theorem target?_rename (reference : String) :
    g'.target? place' p reference = (g.target? place p reference).map (IncludeTarget.rename f) := by
  rcases reference_cases reference with rfl | rfl | ⟨name, rfl⟩ | rfl | ⟨scope, entry, hs⟩
  · rfl
  · rfl
  · rw [target?_entry, target?_entry, h.resolve?_eq hg]
    cases hq : g.resolve? p name with
    | none => rfl
    | some q => simp [IncludeTarget.rename, hmoves q (isSome_of_resolve? hq)]
  · rfl
  · rw [target?_spells hs, target?_spells hs, spelled?, spelled?, h.header.1]
    split
    · cases entry with
      | none => rfl
      | some name =>
        rw [ownTarget?, ownTarget?, h.isSome_rule? hg]
        split
        · rename_i hsome
          rw [hmoves _ hsome]
          rfl
        · rfl
    · rfl

theorem means_rename {r r' : RawRule} (hr : g.rule? p = some r) (hreordered : r.Reordered r')
    {rule rule' : Rule} (hmeans : g.Means place p r rule) (hmeans' : g'.Means place' p r' rule') :
    rule' = rule.rename f := by
  have hbare := hreordered.bare_eq
  have hi := RawRule.eq_of_bare hbare RawRule.inclusion fun _ => rfl
  have hm := RawRule.eq_of_bare hbare RawRule.matchSource fun _ => rfl
  have hb := RawRule.eq_of_bare hbare RawRule.beginSource fun _ => rfl
  have he := RawRule.eq_of_bare hbare RawRule.endSource fun _ => rfl
  have hw := RawRule.eq_of_bare hbare RawRule.whileSource fun _ => rfl
  have hname := RawRule.eq_of_bare hbare RawRule.name fun _ => rfl
  have hcontent := RawRule.eq_of_bare hbare RawRule.contentName fun _ => rfl
  have hlast := RawRule.eq_of_bare hbare RawRule.applyEndPatternLast fun _ => rfl
  have hpatterns := patternPlaces_rename hmoves hr hreordered
  have hopening : ∀ {cs cs' : CaptureRules},
      cs.Holds r.openingCaptures (fun n => place (.opening n :: p)) →
      cs'.Holds r'.openingCaptures (fun n => place' (.opening n :: p)) → cs' = cs.rename f :=
    captures_rename hmoves hr .opening (fun _ => rfl) hreordered.openings
  have hclosing : ∀ {cs cs' : CaptureRules},
      cs.Holds r.closingCaptures (fun n => place (.closing n :: p)) →
      cs'.Holds r'.closingCaptures (fun n => place' (.closing n :: p)) → cs' = cs.rename f :=
    captures_rename hmoves hr .closing (fun _ => rfl) hreordered.closings
  -- the keys, which decide what kind of rule it is, are the same in both
  cases hmeans with
  | inclusion hi₁ ht =>
    cases hmeans' with
    | inclusion hi₂ ht' =>
      cases hi₁.symm.trans (hi.symm.trans hi₂)
      rw [refers_iff] at ht ht'
      rw [h.target?_rename hg hmoves, ht] at ht'
      cases ht'
      rfl
    | _ => simp_all
  | matching hi₁ hm₁ hp hcs =>
    cases hmeans' with
    | matching hi₂ hm₂ hp' hcs' =>
      cases hm₁.symm.trans (hm.symm.trans hm₂)
      cases hp.symm.trans hp'
      rw [hopening hcs hcs', hname]
      rfl
    | _ => simp_all
  | beginWhile hi₁ hm₁ hb₁ hp hbs hw₁ hof hcs =>
    cases hmeans' with
    | beginWhile hi₂ hm₂ hb₂ hp' hbs' hw₂ hof' hcs' =>
      cases hb₁.symm.trans (hb.symm.trans hb₂)
      cases hp.symm.trans hp'
      cases hw₁.symm.trans (hw.symm.trans hw₂)
      rw [hopening hbs hbs', hclosing hcs hcs', hof.unique hof', hname,
        hcontent, hpatterns]
      rfl
    | _ => simp_all
  | beginEnd hi₁ hm₁ hb₁ hp hbs hw₁ hof hcs =>
    cases hmeans' with
    | beginEnd hi₂ hm₂ hb₂ hp' hbs' hw₂ hof' hcs' =>
      cases hb₁.symm.trans (hb.symm.trans hb₂)
      cases hp.symm.trans hp'
      rw [he] at hof'
      rw [hopening hbs hbs', hclosing hcs hcs', hof.unique hof', hname,
        hcontent, hlast, hpatterns]
      rfl
    | _ => simp_all
  | group hi₁ hm₁ hb₁ he₁ hw₁ =>
    cases hmeans' with
    | group hi₂ hm₂ hb₂ he₂ hw₂ =>
      rw [hname, hcontent, hpatterns]
      rfl
    | _ => simp_all

end Reordered

/-! ## Documents of reordered grammars -/

namespace Reordered

variable {d d' : CompiledGrammar} (hg : g.Keyed) (h : g.Reordered g')
  (hmoves : g.Moves place place' f) (hd : d.Renders g place) (hd' : d'.Renders g' place')

include hg h hmoves hd hd'

theorem rule_renamed {q : Site} (hq : (g.rule? q).isSome) :
    d'.rule? (place' q) = (d.rule? (place q)).map (Rule.rename f) := by
  obtain ⟨r, hr⟩ := Option.isSome_iff_exists.1 hq
  obtain ⟨r', hr', hreordered⟩ := h.exists_rule? hg hr
  obtain ⟨rule, hrule, hmeans⟩ := hd.rule q r hr
  obtain ⟨rule', hrule', hmeans'⟩ := hd'.rule q r' hr'
  rw [hrule, hrule', h.means_rename hg hmoves hr hreordered hmeans hmeans', Option.map_some]

omit hg in
theorem repository_renamed :
    d'.repository.Perm (d.repository.map fun e => (e.1, f e.2)) := by
  have hkeys : (g'.repository.map (·.1)).Perm (g.repository.map (·.1)) := by
    obtain ⟨es, hperm, hes⟩ := h.rootRule.entries
    have heq := RawRule.map_fst_of_sameKey hes
    exact (heq ▸ hperm.map Prod.fst).symm
  have hplaces : (g.repository.map fun e => (e.1, f (place [.entry e.1]))) =
      g.repository.map fun e => (e.1, place' [.entry e.1]) := by
    refine List.map_congr_left fun e he => ?_
    have hsite : (g.rule? [.entry e.1]).isSome :=
      isSome_lookup_iff_mem.2 (List.mem_map_of_mem (f := Prod.fst) he)
    rw [hmoves _ hsite]
  have hmap := hkeys.map fun name => (name, place' [.entry name])
  rw [List.map_map, List.map_map] at hmap
  rw [hd.repository, hd'.repository, List.map_map]
  exact hplaces ▸ hmap

theorem entry_renamed (name : String) : d'.entry? name = (d.entry? name).map f := by
  have hentry : ∀ {g : RawGrammar} {d : CompiledGrammar} {place : Site → RuleId},
      d.Renders g place →
      d.entry? name = (g.repository.lookup name).map fun _ => place [.entry name] := by
    intro g d place hd
    rw [CompiledGrammar.entry?, hd.repository]
    exact lookup_map_key (fun name => place [.entry name]) name g.repository
  rw [hentry hd, hentry hd']
  have hrel := h.rule?_rel hg [.entry name]
  have hplace := hmoves [.entry name]
  change Option.Rel _ (g.repository.lookup name) (g'.repository.lookup name) at hrel
  change (g.repository.lookup name).isSome → _ at hplace
  obtain ⟨hr, hr'⟩ | ⟨r, r', hr, hr', _⟩ := rel_cases hrel
  · rw [hr, hr']
    rfl
  · rw [hr, hr']
    exact congrArg some (hplace (Option.isSome_iff_exists.2 ⟨r, hr⟩))

omit hg in
theorem injections_renamed : d'.injections = d.injections.map fun e => (e.1, f e.2) := by
  rw [hd.injections, hd'.injections]
  refine List.ext_getElem? fun n => ?_
  have hkey := rel_getElem? (RawRule.sameKey_of_entry h.injections) n
  have hplace := hmoves [.injection n]
  change (g.injections[n]?.map (·.2)).isSome → _ at hplace
  rw [List.getElem?_map, List.getElem?_mapIdx, List.getElem?_mapIdx]
  obtain ⟨he, he'⟩ | ⟨e, e', he, he', hkey⟩ := rel_cases hkey
  · rw [he, he']
    rfl
  · simp [he, he', hkey.1, hplace (by rw [he]; rfl)]

omit hg hmoves in
theorem header_renamed : d'.scopeName = d.scopeName ∧ d'.name = d.name ∧
    d'.fileTypes = d.fileTypes ∧ d'.firstLineMatch = d.firstLineMatch ∧
    d'.injectionSelector = d.injectionSelector ∧ d'.injectTo = d.injectTo := by
  obtain ⟨h₁, h₂, h₃, h₄, h₅, h₆⟩ := hd.header
  obtain ⟨h₁', h₂', h₃', h₄', h₅', h₆'⟩ := hd'.header
  obtain ⟨k₁, k₂, k₃, k₄, k₅, k₆⟩ := h.header
  simp only [h₁, h₂, h₃, h₄, h₅, h₆, h₁', h₂', h₃', h₄', h₅', h₆', k₁, k₂, k₃, k₄, k₅, k₆,
    and_self]

end Reordered

/-! ## The renaming -/

/-- The place in one list of the site that is at a place of another. -/
def renumber (l l' : List Site) (n : Nat) : Nat :=
  match l[n]? with
  | some q => l'.idxOf q
  | none => n

theorem renumber_idxOf {l l' : List Site} {q : Site} (h : q ∈ l) :
    renumber l l' (l.idxOf q) = l'.idxOf q := by
  have hq : l[l.idxOf q]? = some q := by
    rw [List.getElem?_eq_getElem (List.idxOf_lt_length_iff.2 h), List.getElem_idxOf]
  rw [renumber, hq]

theorem renumber_of_le {l l' : List Site} {n : Nat} (h : l.length ≤ n) : renumber l l' n = n := by
  rw [renumber, List.getElem?_eq_none h]

theorem renumber_renumber {l l' : List Site} (hperm : l.Perm l') (hnodup : l.Nodup) (n : Nat) :
    renumber l' l (renumber l l' n) = n := by
  by_cases hn : n < l.length
  · have hmem : l[n] ∈ l' := hperm.mem_iff.1 (List.getElem_mem hn)
    have hrenumber : renumber l l' n = l'.idxOf l[n] := by
      rw [renumber, List.getElem?_eq_getElem hn]
    rw [hrenumber, renumber_idxOf hmem]
    exact hnodup.idxOf_getElem n hn
  · have hle := Nat.not_lt.1 hn
    rw [renumber_of_le hle, renumber_of_le (hperm.length_eq ▸ hle)]

/-- The renaming of places that goes with another order of the sites. -/
def renumbering {l l' : List Site} (hperm : l.Perm l') (hnodup : l.Nodup) : Equiv.Perm RuleId where
  toFun := renumber l l'
  invFun := renumber l' l
  left_inv := renumber_renumber hperm hnodup
  right_inv := renumber_renumber hperm.symm (hperm.nodup_iff.1 hnodup)

namespace Reordered

variable (hg : g.Keyed) (h : g.Reordered g')

include hg h

theorem layout_perm : g.layout.Perm g'.layout := by
  refine (List.perm_ext_iff_of_nodup (nodup_layout_root hg)
    (nodup_layout_root (h.keyed hg))).2 fun q => ?_
  rw [mem_layout_iff hg, mem_layout_iff (h.keyed hg), h.isSome_rule? hg]

/-- A reordered grammar compiles if the grammar does, to a document with renamed places. -/
theorem compile_renamed {d : CompiledGrammar} (hd : CompiledGrammar.compile g = .ok d) :
    ∃ d' σ, CompiledGrammar.compile g' = .ok d' ∧ d.Renamed σ d' := by
  have hg' := h.keyed hg
  obtain ⟨d', hd'⟩ := (exists_compile_eq_ok_iff hg').2 fun e he =>
    (exists_compile_eq_ok_iff hg).1 ⟨d, hd⟩ e ((h.blames_iff hg e).1 he)
  let σ := renumbering (h.layout_perm hg) (nodup_layout_root hg)
  have hmoves : g.Moves g.place g'.place σ := fun q hq =>
    (renumber_idxOf ((mem_layout_iff hg).2 hq)).symm
  have hrenders := compile_renders hg hd
  have hrenders' := compile_renders hg' hd'
  have hsize : d.rules.size = g.layout.length := compile_size hg hd
  have hsize' : d'.rules.size = d.rules.size := by
    rw [hsize, compile_size hg' hd', (h.layout_perm hg).length_eq]
  refine ⟨d', σ, hd', hsize', fun id => ?_, ?_, h.repository_renamed hmoves hrenders hrenders',
    h.entry_renamed hg hmoves hrenders hrenders', h.injections_renamed hmoves hrenders hrenders',
    fun scope => ?_, h.header_renamed hrenders hrenders'⟩
  · by_cases hid : id < d.rules.size
    · obtain ⟨q, hq, rfl⟩ := hrenders.onto id hid
      rw [← hmoves q hq]
      exact h.rule_renamed hg hmoves hrenders hrenders' hq
    · -- there is nothing behind the table on either side
      have hle := Nat.not_lt.1 hid
      have hsame : σ id = id := renumber_of_le (hsize ▸ hle)
      rw [hsame, CompiledGrammar.rule?, CompiledGrammar.rule?, Array.getElem?_eq_none hle,
        Array.getElem?_eq_none (hsize' ▸ hle), Option.map_none]
  · rw [hrenders.root, hrenders'.root]
    exact hmoves [] rfl
  · rw [hrenders.embedded, hrenders'.embedded, h.mentions_iff hg]

end Reordered

end RawGrammar

/-- The documents come from grammars that differ at most in the order of repositories. -/
def CompiledGrammar.Twins (d d' : CompiledGrammar) : Prop :=
  ∃ g g' : RawGrammar, g.Keyed ∧ g.Reordered g' ∧ CompiledGrammar.compile g = .ok d ∧
    CompiledGrammar.compile g' = .ok d'

theorem CompiledGrammar.Twins.renamed {d d' : CompiledGrammar} (h : d.Twins d') :
    ∃ σ, d.Renamed σ d' := by
  obtain ⟨g, g', hg, hreordered, hd, hd'⟩ := h
  obtain ⟨d'', σ, hd'', hrenamed⟩ := hreordered.compile_renamed hg hd
  cases hd'.symm.trans hd''
  exact ⟨σ, hrenamed⟩

namespace RawGrammar

/-- The order of repositories does not show. Under two orders a grammar compiles or not alike; the
documents differ by a renaming of places; and grammars linked from them, where for each scope the
documents that count differ by the order of repositories at most, give lines the same tokens, with
stacks that differ by the renaming. -/
theorem compile_reordered (hg : g.Keyed) (h : g.Reordered g') :
    ((∃ d, CompiledGrammar.compile g = .ok d) ↔ ∃ d', CompiledGrammar.compile g' = .ok d') ∧
    ∀ d d', CompiledGrammar.compile g = .ok d → CompiledGrammar.compile g' = .ok d' →
      ∃ σ, d.Renamed σ d' ∧ ∀ documents documents' injectors linked,
        (∀ scope, Option.Rel CompiledGrammar.Twins (lastOf documents scope)
          (lastOf documents' scope)) →
        Grammar.link d documents injectors = .ok linked →
        ∃ linked' ρ, Grammar.link d' documents' injectors = .ok linked' ∧ ρ d.scopeName = σ ∧
          ∀ levels stack lines,
            linked'.tokenizeLinesWithin levels (RuleStack.rename ρ stack) lines =
              (linked.tokenizeLinesWithin levels stack lines).map (LineTokens.rename ρ) := by
  constructor
  · rw [exists_compile_eq_ok_iff hg, exists_compile_eq_ok_iff (h.keyed hg)]
    exact forall_congr' fun e => not_congr (h.blames_iff hg e).symm
  · intro d d' hd hd'
    obtain ⟨σ, hrenamed⟩ : ∃ σ, d.Renamed σ d' :=
      CompiledGrammar.Twins.renamed ⟨g, g', hg, h, hd, hd'⟩
    refine ⟨σ, hrenamed, fun documents documents' injectors linked hdocuments hlink => ?_⟩
    have hname : d'.scopeName = d.scopeName := hrenamed.header.1
    -- the renamings of all documents, that of the root for its own scope
    have hρ : ∀ scope, ∃ τ, (scope = d.scopeName → τ = σ) ∧
        Option.Rel (CompiledGrammar.Renamed τ) (lastOf (documents ++ [d]) scope)
          (lastOf (documents' ++ [d']) scope) := by
      intro scope
      rw [Grammar.lastOf_append_root, Grammar.lastOf_append_root, hname]
      by_cases hscope : d.scopeName = scope
      · rw [if_pos hscope, if_pos hscope]
        exact ⟨σ, fun _ => rfl, .some hrenamed⟩
      · rw [if_neg hscope, if_neg hscope]
        have hne : ∀ {τ}, scope = d.scopeName → τ = σ := fun heq => absurd heq.symm hscope
        obtain ⟨he, he'⟩ | ⟨e, e', he, he', htwins⟩ := rel_cases (hdocuments scope)
        · rw [he, he']
          exact ⟨σ, hne, .none⟩
        · obtain ⟨τ, hτ⟩ := htwins.renamed
          rw [he, he']
          exact ⟨τ, hne, .some hτ⟩
    choose ρ hroot hrel using hρ
    have hρroot : ρ d.scopeName = σ := hroot d.scopeName rfl
    obtain ⟨linked', hlink', hlinked⟩ :=
      Grammar.link_renamed hrel (hρroot ▸ hrenamed) hlink
    exact ⟨linked', ρ, hlink', hρroot, fun levels stack lines =>
      hlinked.tokenizeLinesWithin_rename levels lines stack⟩

/-! A grammar whose repositories, one of them inside a rule, are listed in two orders. -/

/-- A rule that gives a name to a letter. -/
def letter (source name : String) : RawRule :=
  { (default : RawRule) with matchSource := some source, name := some name }

/-- A rule that refers to an entry. -/
def entryReference (name : String) : RawRule :=
  { (default : RawRule) with inclusion := some ("#" ++ name) }

/-- Letters in parentheses, with the repository of the rule. -/
def parenthesized (inner : List (String × RawRule)) : RawRule :=
  { (default : RawRule) with
    beginSource := some "\\("
    endSource := some "\\)"
    patterns := some [entryReference "x", entryReference "a"]
    repository := some inner }

/-- The grammar of letters with its repository and that of the rule inside. -/
def letters (outer inner : List (String × RawRule)) : RawGrammar :=
  { (default : RawGrammar) with
    scopeName := "source.letters"
    patterns := [entryReference "a", parenthesized inner]
    repository := outer }

/-- The entries of the grammar. -/
def outerLetters : List (String × RawRule) :=
  [("a", letter "a" "outer"), ("b", letter "b" "other")]

/-- The entries of the rule inside. -/
def innerLetters : List (String × RawRule) :=
  [("x", letter "x" "inner"), ("y", letter "y" "unused")]

theorem outerLetters_bare : ∀ e ∈ outerLetters, e.2.bare = e.2 :=
  List.forall_mem_cons.2 ⟨rfl, List.forall_mem_singleton.2 rfl⟩

theorem innerLetters_bare : ∀ e ∈ innerLetters, e.2.bare = e.2 :=
  List.forall_mem_cons.2 ⟨rfl, List.forall_mem_singleton.2 rfl⟩

theorem letters_reordered : (letters outerLetters innerLetters).Reordered
    (letters outerLetters.reverse innerLetters.reverse) where
  header := ⟨rfl, rfl, rfl, rfl, rfl, rfl⟩
  patterns := by
    have hreference : ∀ name, (entryReference name).Reordered (entryReference name) :=
      fun name => .of_bare rfl
    refine .cons (hreference "a") (.cons ?_ .nil)
    refine .mk rfl .none .none .none .none (.some ?_) (.some ?_)
    · exact .cons (hreference "x") (.cons (hreference "a") .nil)
    · exact .reverse innerLetters_bare
  repository := .reverse outerLetters_bare
  injections := .nil

theorem letters_keyed : (letters outerLetters innerLetters).Keyed := by
  have houter : RawRule.DeepMap outerLetters :=
    ⟨by decide, fun e he => .of_bare (outerLetters_bare e he)⟩
  have hinner : RawRule.DeepMap innerLetters :=
    ⟨by decide, fun e he => .of_bare (innerLetters_bare e he)⟩
  have hparenthesized : (parenthesized innerLetters).Deep := by
    refine .of_fields ?_ ?_ ?_
    · rintro cs (h | h | h | h) <;> cases h
    · intro rs h
      cases h
      exact List.forall_mem_cons.2 ⟨.of_bare rfl, List.forall_mem_singleton.2 (.of_bare rfl)⟩
    · intro es h
      cases h
      exact hinner
  refine keyed_of_deep (.of_fields ?_ ?_ ?_) (fun e he => by cases he)
  · rintro cs (h | h | h | h) <;> cases h
  · intro rs h
    cases h
    exact List.forall_mem_cons.2 ⟨.of_bare rfl, List.forall_mem_singleton.2 hparenthesized⟩
  · intro es h
    cases h
    exact houter

theorem letters_links :
    (Grammar.ofSource (letters outerLetters innerLetters)).toOption.isSome := by
  decide +kernel

theorem letters_places :
    ((CompiledGrammar.compile (letters outerLetters innerLetters)).toOption.map
        fun d => d.entry? "b") ≠
      (CompiledGrammar.compile (letters outerLetters.reverse innerLetters.reverse)).toOption.map
        fun d => d.entry? "b" := by
  decide +kernel

/-- An entry has another place under the other order, but lines have the same tokens. -/
theorem compile_reordered_letters : (letters outerLetters innerLetters).Keyed ∧
    (letters outerLetters innerLetters).Reordered
      (letters outerLetters.reverse innerLetters.reverse) ∧
    ∃ d d' linked linked' ρ,
      CompiledGrammar.compile (letters outerLetters innerLetters) = .ok d ∧
      CompiledGrammar.compile (letters outerLetters.reverse innerLetters.reverse) = .ok d' ∧
      d.entry? "b" ≠ d'.entry? "b" ∧ Grammar.link d [] [] = .ok linked ∧
      Grammar.link d' [] [] = .ok linked' ∧
      ∀ levels lines, linked'.tokenizeLinesWithin levels [] lines =
        (linked.tokenizeLinesWithin levels [] lines).map (LineTokens.rename ρ) := by
  refine ⟨letters_keyed, letters_reordered, ?_⟩
  have hsame := compile_reordered letters_keyed letters_reordered
  obtain ⟨linked, hlinked⟩ := Option.isSome_iff_exists.1 letters_links
  obtain ⟨d, hd, hlink⟩ := Except.bind_eq_ok.1 (Except.eq_ok_of_toOption hlinked)
  obtain ⟨d', hd'⟩ := hsame.1.1 ⟨d, hd⟩
  obtain ⟨σ, -, hdocuments⟩ := hsame.2 d d' hd hd'
  obtain ⟨linked', ρ, hlink', -, htokens⟩ := hdocuments [] [] [] linked (fun _ => .none) hlink
  refine ⟨d, d', linked, linked', ρ, hd, hd', fun heq => letters_places ?_, hlink, hlink',
    fun levels lines => htokens levels [] lines⟩
  rw [hd, hd']
  exact congrArg some heq

end RawGrammar

end Highlight
