import Mathlib.Data.List.Perm.Basic
import Highlight.Grammar.Link
import Highlight.Proofs.WrittenRules

/-!
# The places of rules

Where the rules of a grammar come to stand in its table follows from the grammar as written alone. A
rule takes its place before those inside it, and the entries of a repository take theirs before
anything in them: `RawRule.layout` lists the sites inside a rule in this order, `RawGrammar.layout`
those of a grammar, and `RawGrammar.place` counts them. Each site that has a rule is in the list
(`mem_layout_iff`), and none twice where the maps of the grammar have each key once
(`nodup_layout_root`). So places tell sites apart (`place_inj`).
-/

namespace Highlight

namespace RawRule

/-- The entries of the repository with their parts. -/
def entryParts (r : RawRule) : List (Part × RawRule) :=
  (r.repository.getD []).map fun e => (.entry e.1, e.2)

/-- Rules with their parts, counted from `n`. -/
def numberedParts (part : Nat → Part) : Nat → List RawRule → List (Part × RawRule)
  | _, [] => []
  | n, r :: rs => (part n, r) :: numberedParts part (n + 1) rs

/-- Captures with their parts. -/
def captureParts (part : Nat → Part) (cs : Option (List (Nat × RawRule))) :
    List (Part × RawRule) :=
  (cs.getD []).map fun c => (part c.1, c.2)

/-- The other rules inside a rule, in the order in which they are compiled. -/
def bodyParts (r : RawRule) : List (Part × RawRule) :=
  numberedParts .pattern 0 r.innerPatterns ++ captureParts .opening r.openingCaptures ++
    captureParts .closing r.closingCaptures

theorem sizeOf_lt_of_mem_getD {α : Type} [SizeOf α] {l : Option (List α)} {a : α}
    (h : a ∈ l.getD []) : sizeOf a < sizeOf l := by
  cases l with
  | none => cases h
  | some l =>
    have hlt : sizeOf a < sizeOf l := List.sizeOf_lt_of_mem h
    simp only [Option.some.sizeOf_spec]
    omega

theorem snd_mem_numberedParts {part : Nat → Part} {e : Part × RawRule} :
    ∀ {n : Nat} {rs : List RawRule}, e ∈ numberedParts part n rs → e.2 ∈ rs
  | _, _ :: _, h => by
    rcases List.mem_cons.1 h with rfl | h
    · exact List.mem_cons_self
    · exact List.mem_cons_of_mem _ (snd_mem_numberedParts h)

theorem openingCaptures_cases (r : RawRule) : r.openingCaptures = none ∨
    r.openingCaptures = r.captures ∨ r.openingCaptures = r.beginCaptures := by
  unfold openingCaptures
  split
  · simp
  · cases r.beginCaptures <;> simp
  · simp

theorem closingCaptures_cases (r : RawRule) : r.closingCaptures = none ∨
    r.closingCaptures = r.captures ∨ r.closingCaptures = r.whileCaptures ∨
      r.closingCaptures = r.endCaptures := by
  unfold closingCaptures
  split
  · split
    · cases r.whileCaptures <;> simp
    · cases r.endCaptures <;> simp
  · simp

/-- The rules inside a rule are smaller than the rule. -/
theorem sizeOf_lt {r r' : RawRule} (h : (∃ name, (name, r') ∈ r.repository.getD []) ∨
    r' ∈ r.innerPatterns ∨ (∃ n, (n, r') ∈ r.openingCaptures.getD []) ∨
    ∃ n, (n, r') ∈ r.closingCaptures.getD []) :
    sizeOf r' < sizeOf r := by
  have hcaptures : ∀ {cs : Option (List (Nat × RawRule))} {n}, (n, r') ∈ cs.getD [] →
      sizeOf r' < sizeOf cs := by
    intro cs n h
    have := sizeOf_lt_of_mem_getD h
    simp only [Prod.mk.sizeOf_spec] at this
    omega
  rcases h with ⟨name, h⟩ | h | ⟨n, h⟩ | ⟨n, h⟩
  · have := sizeOf_lt_of_mem_getD h
    cases r
    simp only [Prod.mk.sizeOf_spec, mk.sizeOf_spec] at *
    omega
  · unfold innerPatterns at h
    split at h
    · have := sizeOf_lt_of_mem_getD (List.mem_filter.1 h).1
      cases r
      simp only [mk.sizeOf_spec] at *
      omega
    · cases h
  · have := hcaptures h
    rcases openingCaptures_cases r with heq | heq | heq
    · rw [heq] at h
      cases h
    all_goals
      rw [heq] at this
      cases r
      simp only [mk.sizeOf_spec] at *
      omega
  · have := hcaptures h
    rcases closingCaptures_cases r with heq | heq | heq | heq
    · rw [heq] at h
      cases h
    all_goals
      rw [heq] at this
      cases r
      simp only [mk.sizeOf_spec] at *
      omega

theorem sizeOf_entryParts {r : RawRule} {e : Part × RawRule} (h : e ∈ r.entryParts) :
    sizeOf e.2 < sizeOf r := by
  obtain ⟨e', he', rfl⟩ := List.mem_map.1 h
  exact sizeOf_lt (.inl ⟨e'.1, he'⟩)

theorem sizeOf_bodyParts {r : RawRule} {e : Part × RawRule} (h : e ∈ r.bodyParts) :
    sizeOf e.2 < sizeOf r := by
  rcases List.mem_append.1 h with h | h
  · rcases List.mem_append.1 h with h | h
    · exact sizeOf_lt (.inr (.inl (snd_mem_numberedParts h)))
    · obtain ⟨e', he', rfl⟩ := List.mem_map.1 h
      exact sizeOf_lt (.inr (.inr (.inl ⟨e'.1, he'⟩)))
  · obtain ⟨e', he', rfl⟩ := List.mem_map.1 h
    exact sizeOf_lt (.inr (.inr (.inr ⟨e'.1, he'⟩)))

/-- The sites inside the rule at a site, in the order of their places: those of the repository are
taken before anything in it is compiled. -/
def layout (p : Site) (r : RawRule) : List Site :=
  r.entryParts.map (fun e => e.1 :: p) ++
    r.entryParts.attach.flatMap (fun e => layout (e.1.1 :: p) e.1.2) ++
    r.bodyParts.attach.flatMap fun e => (e.1.1 :: p) :: layout (e.1.1 :: p) e.1.2
termination_by sizeOf r
decreasing_by
  · exact sizeOf_entryParts e.2
  · exact sizeOf_bodyParts e.2

/-- The sites of rules and those inside them. -/
def spread (p : Site) (parts : List (Part × RawRule)) : List Site :=
  parts.flatMap fun e => (e.1 :: p) :: e.2.layout (e.1 :: p)

theorem spread_append (p : Site) (parts parts' : List (Part × RawRule)) :
    spread p (parts ++ parts') = spread p parts ++ spread p parts' := List.flatMap_append

theorem layout_eq (p : Site) (r : RawRule) : r.layout p = r.entryParts.map (fun e => e.1 :: p) ++
    r.entryParts.flatMap (fun e => e.2.layout (e.1 :: p)) ++ spread p r.bodyParts := by
  rw [layout, spread, List.flatMap_def, List.flatMap_def, List.flatMap_def, List.flatMap_def,
    List.attach_map_val (f := fun e : Part × RawRule => e.2.layout (e.1 :: p)),
    List.attach_map_val (f := fun e : Part × RawRule => (e.1 :: p) :: e.2.layout (e.1 :: p))]

/-- All rules inside a rule with their parts. -/
def parts (r : RawRule) : List (Part × RawRule) := r.entryParts ++ r.bodyParts

theorem sizeOf_parts {r : RawRule} {e : Part × RawRule} (h : e ∈ r.parts) :
    sizeOf e.2 < sizeOf r :=
  (List.mem_append.1 h).elim sizeOf_entryParts sizeOf_bodyParts

theorem layout_perm (p : Site) (r : RawRule) : (r.layout p).Perm (spread p r.parts) := by
  rw [layout_eq, parts, spread_append]
  exact (List.map_append_flatMap_perm _ _ _).append_right _

/-! ## Parts -/

theorem map_fst_numberedParts (part : Nat → Part) : ∀ (n : Nat) (rs : List RawRule),
    (numberedParts part n rs).map (·.1) = (List.range' n rs.length).map part
  | _, [] => rfl
  | n, r :: rs => by
    rw [numberedParts, List.map_cons, map_fst_numberedParts part (n + 1) rs, List.length_cons,
      List.range'_succ, List.map_cons]

theorem mem_numberedParts {part : Nat → Part} {e : Part × RawRule} :
    ∀ {m : Nat} {rs : List RawRule},
      e ∈ numberedParts part m rs ↔ ∃ n, e.1 = part (m + n) ∧ rs[n]? = some e.2
  | _, [] => by simp [numberedParts]
  | m, r :: rs => by
    rw [numberedParts, List.mem_cons, mem_numberedParts]
    constructor
    · rintro (rfl | ⟨n, hpart, hrule⟩)
      · exact ⟨0, rfl, rfl⟩
      · exact ⟨n + 1, by rw [hpart, Nat.add_right_comm, Nat.add_assoc], hrule⟩
    · rintro ⟨_ | n, hpart, hrule⟩
      · exact .inl (Prod.ext hpart (Option.some.inj hrule).symm)
      · exact .inr ⟨n, by rw [hpart, Nat.add_right_comm, Nat.add_assoc], hrule⟩

theorem mem_captureParts {part : Nat → Part} {cs : Option (List (Nat × RawRule))}
    {e : Part × RawRule} :
    e ∈ captureParts part cs ↔ ∃ n, e.1 = part n ∧ (n, e.2) ∈ cs.getD [] := by
  rw [captureParts, List.mem_map]
  constructor
  · rintro ⟨c, hc, rfl⟩
    exact ⟨c.1, rfl, hc⟩
  · rintro ⟨n, hpart, hc⟩
    exact ⟨_, hc, by rw [← hpart]⟩

theorem mem_entryParts {r : RawRule} {e : Part × RawRule} :
    e ∈ r.entryParts ↔ ∃ name, e.1 = .entry name ∧ (name, e.2) ∈ r.repository.getD [] := by
  rw [entryParts, List.mem_map]
  constructor
  · rintro ⟨c, hc, rfl⟩
    exact ⟨c.1, rfl, hc⟩
  · rintro ⟨n, hpart, hc⟩
    exact ⟨_, hc, by rw [← hpart]⟩

/-- The rules inside a rule are what is written at its parts. -/
theorem mem_parts {r r' : RawRule} (h : r.Keyed) {part : Part} :
    (part, r') ∈ r.parts ↔ r.part? part = some r' := by
  rw [parts, bodyParts, List.mem_append, List.mem_append, List.mem_append, mem_entryParts,
    mem_numberedParts, mem_captureParts, mem_captureParts]
  cases part with
  | entry name => simp [part?, lookup_eq_some_iff_mem h.repository]
  | pattern n => simp [part?]
  | opening n => simp [part?, lookup_eq_some_iff_mem h.opening]
  | closing n => simp [part?, lookup_eq_some_iff_mem h.closing]
  | injection n => simp [part?]

theorem nodup_parts {r : RawRule} (h : r.Keyed) : (r.parts.map (·.1)).Nodup := by
  have hentries : r.entryParts.map (·.1) = ((r.repository.getD []).map (·.1)).map .entry := by
    simp [entryParts, Function.comp_def]
  have hcaptures : ∀ part cs,
      (captureParts part cs).map (·.1) = ((cs.getD []).map (·.1)).map part := by
    simp [captureParts, Function.comp_def]
  rw [parts, bodyParts, List.map_append, List.map_append, List.map_append, hentries, hcaptures,
    hcaptures, map_fst_numberedParts]
  have hpatterns : ((List.range' 0 r.innerPatterns.length).map Part.pattern).Nodup :=
    (List.nodup_range' ..).map fun _ _ heq => by injection heq
  have hopening := h.opening.map (f := Part.opening) fun _ _ heq => by injection heq
  have hclosing := h.closing.map (f := Part.closing) fun _ _ heq => by injection heq
  have hrepository := h.repository.map (f := Part.entry) fun _ _ heq => by injection heq
  -- parts of different kinds differ
  refine hrepository.append ((hpatterns.append hopening ?_).append hclosing ?_) ?_
  all_goals
    intro part hpart hpart'
    simp at hpart hpart'
    grind

end RawRule

namespace RawGrammar

variable {g : RawGrammar} {p q : Site} {r : RawRule}

theorem rule?_cons (part part' : Part) (p : Site) :
    g.rule? (part :: part' :: p) = (g.rule? (part' :: p)).bind fun r => r.part? part := by
  cases part <;> rfl

theorem rule?_part (hr : g.rule? p = some r) {part : Part}
    (hpart : (r.part? part).isSome) : g.rule? (part :: p) = r.part? part := by
  cases p with
  | nil =>
    cases hr
    cases part with
    | injection n => cases hpart
    | _ => rfl
  | cons part' p =>
    rw [rule?_cons, hr]
    rfl

/-- Where there is a rule inside a site, there is one at the site. -/
theorem isSome_rule?_of_suffix (hsuffix : p <:+ q) (h : (g.rule? q).isSome) :
    (g.rule? p).isSome := by
  induction q with
  | nil => rwa [List.suffix_nil.1 hsuffix]
  | cons part q ih =>
    rcases List.suffix_cons_iff.1 hsuffix with rfl | hsuffix
    · exact h
    · refine ih hsuffix ?_
      cases q with
      | nil => rfl
      | cons part' q =>
        rw [rule?_cons] at h
        exact Option.isSome_of_isSome_bind h

/-- The rules that the grammar injects, with their parts. -/
def injectionParts (g : RawGrammar) : List (Part × RawRule) :=
  RawRule.numberedParts .injection 0 (g.injections.map (·.2))

/-- The rules inside the rule at a site with their parts. -/
def partsAt (g : RawGrammar) : Site → List (Part × RawRule)
  | [] => g.rootRule.parts ++ g.injectionParts
  | part :: p => ((g.rule? (part :: p)).map RawRule.parts).getD []

theorem mem_partsAt (hg : g.Keyed) {part : Part} :
    (part, r) ∈ g.partsAt p ↔ g.rule? (part :: p) = some r := by
  cases p with
  | nil =>
    have hroot : (part, r) ∈ g.rootRule.parts ↔ g.rootRule.part? part = some r :=
      RawRule.mem_parts (hg [] _ rfl)
    rw [partsAt, List.mem_append, hroot, injectionParts, RawRule.mem_numberedParts]
    cases part with
    | injection n => simp [rule?, RawRule.part?]
    | _ => simp [rule?]
  | cons part' p =>
    rw [partsAt]
    rw [rule?_cons]
    cases hr : g.rule? (part' :: p) with
    | none => simp
    | some r' => simp [RawRule.mem_parts (hg _ _ hr)]

theorem nodup_partsAt (hg : g.Keyed) (p : Site) : ((g.partsAt p).map (·.1)).Nodup := by
  cases p with
  | nil =>
    have hroot := RawRule.nodup_parts (hg [] _ rfl)
    have hinjections : (g.injectionParts.map (·.1)).Nodup := by
      rw [injectionParts, RawRule.map_fst_numberedParts]
      exact (List.nodup_range' ..).map fun _ _ heq => by injection heq
    rw [partsAt, List.map_append]
    refine hroot.append hinjections ?_
    intro part hpart hpart'
    obtain ⟨⟨_, r⟩, hr, rfl⟩ := List.mem_map.1 hpart
    rw [injectionParts, RawRule.map_fst_numberedParts] at hpart'
    obtain ⟨n, _, rfl⟩ := List.mem_map.1 hpart'
    rw [RawRule.mem_parts (hg [] _ rfl)] at hr
    cases hr
  | cons part p =>
    rw [partsAt]
    cases hr : g.rule? (part :: p) with
    | none => simp
    | some r => exact RawRule.nodup_parts (hg _ _ hr)

/-- A site inside one of the parts of a site. -/
theorem exists_part_of_suffix (hg : g.Keyed) (hq : (g.rule? q).isSome) :
    (∃ part, part :: p <:+ q) ↔ ∃ e ∈ g.partsAt p, e.1 :: p <:+ q := by
  constructor
  · rintro ⟨part, hsuffix⟩
    obtain ⟨r, hr⟩ := Option.isSome_iff_exists.1 (isSome_rule?_of_suffix hsuffix hq)
    exact ⟨(part, r), (mem_partsAt hg).2 hr, hsuffix⟩
  · rintro ⟨e, _, hsuffix⟩
    exact ⟨e.1, hsuffix⟩

theorem mem_spread (hg : g.Keyed) (h : ∀ e ∈ g.partsAt p, q ∈ e.2.layout (e.1 :: p) ↔
      (∃ part, part :: e.1 :: p <:+ q) ∧ (g.rule? q).isSome) :
    q ∈ RawRule.spread p (g.partsAt p) ↔ (∃ part, part :: p <:+ q) ∧ (g.rule? q).isSome := by
  rw [RawRule.spread, List.mem_flatMap]
  constructor
  · rintro ⟨e, he, hq⟩
    rcases List.mem_cons.1 hq with rfl | hq
    · exact ⟨⟨e.1, List.suffix_rfl⟩, by rw [(mem_partsAt hg).1 he]; rfl⟩
    · obtain ⟨⟨part, hsuffix⟩, hq⟩ := (h e he).1 hq
      exact ⟨⟨e.1, (List.suffix_cons part _).trans hsuffix⟩, hq⟩
  · rintro ⟨hpart, hq⟩
    obtain ⟨e, he, hsuffix⟩ := (exists_part_of_suffix hg hq).1 hpart
    refine ⟨e, he, List.mem_cons.2 ?_⟩
    obtain ⟨t, rfl⟩ := hsuffix
    rcases List.eq_nil_or_concat t with rfl | ⟨t, part, rfl⟩
    · exact .inl rfl
    · refine .inr ((h e he).2 ⟨⟨part, t, ?_⟩, hq⟩)
      simp

theorem nodup_spread (hg : g.Keyed) (hmem : ∀ e ∈ g.partsAt p, ∀ q, q ∈ e.2.layout (e.1 :: p) ↔
      (∃ part, part :: e.1 :: p <:+ q) ∧ (g.rule? q).isSome)
    (h : ∀ e ∈ g.partsAt p, (e.2.layout (e.1 :: p)).Nodup) :
    (RawRule.spread p (g.partsAt p)).Nodup := by
  have hinside : ∀ e ∈ g.partsAt p, ∀ q ∈ (e.1 :: p) :: e.2.layout (e.1 :: p), e.1 :: p <:+ q := by
    intro e he q hq
    rcases List.mem_cons.1 hq with rfl | hq
    · exact List.suffix_rfl
    · obtain ⟨⟨part, hsuffix⟩, _⟩ := (hmem e he q).1 hq
      exact (List.suffix_cons part _).trans hsuffix
  rw [RawRule.spread, List.nodup_flatMap]
  constructor
  · intro e he
    refine List.nodup_cons.2 ⟨fun hself => ?_, h e he⟩
    obtain ⟨⟨part, hsuffix⟩, _⟩ := (hmem e he _).1 hself
    have := hsuffix.length_le
    simp only [List.length_cons] at this
    omega
  · have hnodup := nodup_partsAt hg p
    rw [List.Nodup, List.pairwise_map] at hnodup
    refine hnodup.imp_of_mem fun he he' hne q hq hq' => hne ?_
    have := List.suffix_or_suffix_of_suffix (hinside _ he q hq) (hinside _ he' q hq')
    rcases this with hs | hs
    · have := hs.eq_of_length rfl
      exact (List.cons.inj this).1
    · have := hs.eq_of_length rfl
      exact (List.cons.inj this).1.symm

theorem partsAt_of_rule? (hp : p ≠ []) (hr : g.rule? p = some r) : g.partsAt p = r.parts := by
  cases p with
  | nil => exact absurd rfl hp
  | cons part p => rw [partsAt, hr, Option.map_some, Option.getD_some]

/-- The sites inside a rule are those that have a rule. -/
theorem mem_layout (hg : g.Keyed) {p : Site} {r : RawRule} (hp : p ≠ []) (hr : g.rule? p = some r)
    (q : Site) :
    q ∈ r.layout p ↔ (∃ part, part :: p <:+ q) ∧ (g.rule? q).isSome := by
  have hparts := partsAt_of_rule? hp hr
  rw [(RawRule.layout_perm p r).mem_iff, ← hparts]
  refine mem_spread hg fun e he => ?_
  have hlt : sizeOf e.2 < sizeOf r := RawRule.sizeOf_parts (hparts ▸ he)
  exact mem_layout hg (List.cons_ne_nil _ _) ((mem_partsAt hg).1 he) q
termination_by sizeOf r

theorem nodup_layout (hg : g.Keyed) {p : Site} {r : RawRule} (hp : p ≠ [])
    (hr : g.rule? p = some r) : (r.layout p).Nodup := by
  have hparts := partsAt_of_rule? hp hr
  rw [(RawRule.layout_perm p r).nodup_iff, ← hparts]
  have hrule := fun e (he : e ∈ g.partsAt p) => (mem_partsAt hg).1 he
  refine nodup_spread hg (fun e he => mem_layout hg (List.cons_ne_nil _ _) (hrule e he)) ?_
  intro e he
  have hlt : sizeOf e.2 < sizeOf r := RawRule.sizeOf_parts (hparts ▸ he)
  exact nodup_layout hg (List.cons_ne_nil _ _) (hrule e he)
termination_by sizeOf r

/-! ## The table of a grammar -/

/-- The sites of a grammar in the order of their places: the entries of its repository, what is
inside them, the grammar itself, its patterns and the rules that it injects. -/
def layout (g : RawGrammar) : List Site :=
  g.rootRule.entryParts.map (fun e => [e.1]) ++
    g.rootRule.entryParts.flatMap (fun e => e.2.layout [e.1]) ++
      [] :: (RawRule.spread [] g.rootRule.bodyParts ++ RawRule.spread [] g.injectionParts)

theorem layout_perm (g : RawGrammar) : g.layout.Perm ([] :: RawRule.spread [] (g.partsAt [])) := by
  refine List.perm_middle.trans (List.Perm.cons _ ?_)
  rw [partsAt, RawRule.parts, RawRule.spread_append, RawRule.spread_append, ← List.append_assoc]
  exact ((List.map_append_flatMap_perm _ _ _).append_right _).append_right _

/-- The sites of a grammar are those that have a rule. -/
theorem mem_layout_iff (hg : g.Keyed) : q ∈ g.layout ↔ (g.rule? q).isSome := by
  have hrule := fun e (he : e ∈ g.partsAt []) => (mem_partsAt hg).1 he
  rw [(layout_perm g).mem_iff, List.mem_cons,
    mem_spread hg fun e he => mem_layout hg (List.cons_ne_nil _ _) (hrule e he) q]
  constructor
  · rintro (rfl | ⟨_, hq⟩)
    · rfl
    · exact hq
  · intro hq
    rcases List.eq_nil_or_concat q with rfl | ⟨q, part, rfl⟩
    · exact .inl rfl
    · exact .inr ⟨⟨part, q, by simp⟩, hq⟩

theorem nodup_layout_root (hg : g.Keyed) : g.layout.Nodup := by
  have hrule := fun e (he : e ∈ g.partsAt []) => (mem_partsAt hg).1 he
  have hmem := fun e (he : e ∈ g.partsAt []) =>
    mem_layout hg (List.cons_ne_nil _ _) (hrule e he)
  rw [(layout_perm g).nodup_iff, List.nodup_cons]
  constructor
  · rw [mem_spread hg fun e he => hmem e he []]
    rintro ⟨⟨part, hsuffix⟩, _⟩
    exact absurd hsuffix.length_le (by simp)
  · exact nodup_spread hg hmem fun e he => nodup_layout hg (List.cons_ne_nil _ _) (hrule e he)

/-- The place of a site in the table. -/
def place (g : RawGrammar) (q : Site) : Nat := g.layout.idxOf q

theorem place_eq_length (hg : g.Keyed) {before after : List Site}
    (h : g.layout = before ++ q :: after) : g.place q = before.length := by
  have hnodup := nodup_layout_root hg
  rw [h, List.nodup_append] at hnodup
  have hq : q ∉ before := fun hq => hnodup.2.2 q hq q List.mem_cons_self rfl
  rw [place, h, List.idxOf_append_of_notMem hq, List.idxOf_cons_self, Nat.add_zero]

theorem place_lt {sites after : List Site} (h : g.layout = sites ++ after) (hq : q ∈ sites) :
    g.place q < sites.length := by
  rw [place, h, List.idxOf_append_of_mem hq]
  exact List.idxOf_lt_length_iff.2 hq

/-- The places of the sites behind others are behind those. -/
theorem place_ge (hg : g.Keyed) {before after : List Site} (h : g.layout = before ++ after)
    (hq : q ∈ after) : before.length ≤ g.place q := by
  have hnodup := nodup_layout_root hg
  rw [h] at hnodup
  have hnot : q ∉ before := fun hmem => (List.nodup_append.1 hnodup).2.2 q hmem q hq rfl
  rw [place, h, List.idxOf_append_of_notMem hnot]
  exact Nat.le_add_right _ _

theorem place_inj (hg : g.Keyed) (hp : (g.rule? p).isSome) (h : g.place p = g.place q) : p = q :=
  (List.idxOf_inj ((mem_layout_iff hg).2 hp)).1 h

end RawGrammar

end Highlight
