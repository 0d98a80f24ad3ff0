import Mathlib.Data.List.Forall2
import Highlight.Proofs.OpenRegions

/-!
# Tokenizing again from an equal stack

After an edit, lines are tokenized again until a line ends with a stack that compares equal to the
one that was there before: the tokens of all later lines stay as they are. Comparison leaves out the
positions of frames, looks at the ends of regions by their text only, and takes stacks that share
their frames for equal without a look at them. A scan reads all of that. But the stacks at the end
of lines hold no positions, and what they hold of an end is what its text compiles to
(`Frame.AtRest`); so of such stacks only equal ones compare equal (`eq_of_same`).
-/

namespace Highlight

theorem Pattern.source_eq_of_compile {source : String} {p : Pattern} (h : compile source = .ok p) :
    p.source = source := by
  unfold compile at h
  obtain ⟨full, _, h⟩ := Except.bind_eq_ok.1 h
  dsimp only at h
  split at h
  · cases h
    rfl
  · obtain ⟨_, _, h⟩ := Except.bind_eq_ok.1 h
    obtain ⟨_, _, h⟩ := Except.bind_eq_ok.1 h
    obtain ⟨_, _, h⟩ := Except.bind_eq_ok.1 h
    cases h
    rfl

namespace Frame

/-- A frame between two lines: no positions, and an end that is compiled from its text. -/
structure AtRest (f : Frame) : Prop where
  enterPos : f.enterPos = none
  anchorPos : f.anchorPos = none
  endPattern : ∀ p, f.endPattern = some p → Pattern.compile p.source = .ok p

theorem same_refl (f : Frame) : f.same f = true := by simp [same]

theorem eq_of_same {f g : Frame} (hf : f.AtRest) (hg : g.AtRest) (h : f.same g = true) : f = g := by
  simp only [same, Bool.and_eq_true, beq_iff_eq] at h
  obtain ⟨⟨⟨⟨⟨hdepth, hrule⟩, hreached⟩, hsource⟩, hname⟩, hcontent⟩ := h
  have hend : f.endPattern = g.endPattern := by
    cases hp : f.endPattern with
    | none =>
      rw [hp] at hsource
      exact (Option.map_eq_none_iff.1 hsource.symm).symm
    | some p =>
      rw [hp, Option.map_some] at hsource
      obtain ⟨q, hq, heq⟩ := Option.map_eq_some_iff.1 hsource.symm
      -- both are compiled from the same text
      have hcompile := hg.endPattern q hq
      rw [heq, hf.endPattern p hp] at hcompile
      rw [hq, Except.ok.inj hcompile]
  have henter : f.enterPos = g.enterPos := hf.enterPos.trans hg.enterPos.symm
  have hanchor : f.anchorPos = g.anchorPos := hf.anchorPos.trans hg.anchorPos.symm
  cases f
  cases g
  simp_all

end Frame

namespace RuleStack

/-- Comparison of stacks that may share frames: where they do, the frames are not looked at. -/
def sameShared (shared : RuleStack → RuleStack → Bool) : RuleStack → RuleStack → Bool
  | [], [] => true
  | f :: s, g :: t => shared (f :: s) (g :: t) || f.same g && sameShared shared s t
  | _, _ => false

variable {shared : RuleStack → RuleStack → Bool} {s t : RuleStack}

theorem same_refl : ∀ s : RuleStack, s.same s = true
  | [] => rfl
  | f :: s => by rw [same, f.same_refl, same_refl s, Bool.and_self]

/-- Sharing makes no difference to the result. -/
theorem sameShared_eq_same (hshared : ∀ s t, shared s t = true → s = t) : ∀ s t : RuleStack,
    sameShared shared s t = s.same t
  | [], [] => rfl
  | [], _ :: _ => rfl
  | _ :: _, [] => rfl
  | f :: s, g :: t => by
    rw [sameShared, same, sameShared_eq_same hshared s t]
    cases h : shared (f :: s) (g :: t) with
    | false => rfl
    | true =>
      cases hshared _ _ h
      rw [f.same_refl, same_refl s]
      rfl

theorem eq_of_same : ∀ {s t : RuleStack}, (∀ f ∈ s, f.AtRest) → (∀ f ∈ t, f.AtRest) →
    s.same t = true → s = t
  | [], [], _, _, _ => rfl
  | f :: s, g :: t, hs, ht, h => by
    rw [same, Bool.and_eq_true] at h
    have hframe := Frame.eq_of_same (hs f List.mem_cons_self) (ht g List.mem_cons_self) h.1
    have hbelow := eq_of_same (fun f' hf' => hs f' (List.mem_cons_of_mem f hf'))
      (fun g' hg' => ht g' (List.mem_cons_of_mem g hg')) h.2
    rw [hframe, hbelow]

theorem Opened.endPattern {g : Grammar} : ∀ {s : RuleStack}, s.Opened g → ∀ f ∈ s, ∀ p,
    f.endPattern = some p → Pattern.compile p.source = .ok p
  | [], h => h.elim
  | f :: below, h => by
    intro f' hf' p hp
    rcases Over.cases h with ⟨rfl, hroot⟩ | ⟨hfit, hbelow⟩
    · cases List.mem_singleton.1 hf'
      rw [hroot.endPattern] at hp
      cases hp
    · rcases List.mem_cons.1 hf' with rfl | hf'
      · obtain ⟨region, _, hclose⟩ := hfit.region
        rw [hp] at hclose
        unfold EndPattern.Resolved at hclose
        split at hclose
        · -- an end without references is not held by the frame
          cases hclose
        · obtain ⟨text, groups, q, heq, hq⟩ := hclose
          cases heq
          rwa [Pattern.source_eq_of_compile hq]
      · exact Opened.endPattern hbelow f' hf' p hp

end RuleStack

namespace Grammar

variable {g : Grammar} {s t : RuleStack}

theorem Reached.atRest (hg : g.Linked) (h : g.Reached s) : ∀ f ∈ s, f.AtRest := by
  intro f hf
  rcases h.atLineEnd hg with rfl | hend
  · cases hf
  · obtain ⟨henter, hanchor⟩ := hend.clean f hf
    exact ⟨henter, hanchor, RuleStack.Opened.endPattern hend.opened f hf⟩

/-- Where two texts, each tokenized from its start, come to stacks that compare equal, the same
lines have the same tokens after the one as after the other and end with stacks that compare equal,
whichever frames are shared at either time. -/
theorem tokens_eq_of_sameShared {shared shared' : RuleStack → RuleStack → Bool} (hg : g.Linked)
    (hs : g.Reached s) (ht : g.Reached t) (hshared : ∀ s t, shared s t = true → s = t)
    (hshared' : ∀ s t, shared' s t = true → s = t) (h : s.sameShared shared t = true) (levels : Nat)
    (lines : List String) :
    List.Forall₂ (fun a b => a.tokens = b.tokens ∧ a.stack.sameShared shared' b.stack = true)
      (g.tokenizeLinesWithin levels s lines) (g.tokenizeLinesWithin levels t lines) := by
  rw [RuleStack.sameShared_eq_same hshared] at h
  have heq := RuleStack.eq_of_same (hs.atRest hg) (ht.atRest hg) h
  subst heq
  refine List.forall₂_same.2 fun a _ => ⟨rfl, ?_⟩
  rw [RuleStack.sameShared_eq_same hshared', RuleStack.same_refl]

/-- The stack after another line in which a string opens with a mark of the same kind. -/
def otherStringOpen : RuleStack := (quotes.tokenizeLineWithin 1 "\"xyz" []).stack

/-- Lines after a string that opens with a mark of one kind, wherever in its line it opens. -/
theorem tokens_eq_of_sameShared_stringOpen :
    stringOpen.sameShared (fun _ _ => false) otherStringOpen = true ∧
    List.Forall₂ (fun a b => a.tokens = b.tokens ∧
        a.stack.sameShared (fun _ _ => false) b.stack = true)
      (quotes.tokenizeLinesWithin 1 stringOpen ["c'd", "e\"f"])
      (quotes.tokenizeLinesWithin 1 otherStringOpen ["c'd", "e\"f"]) := by
  have hother : quotes.Reached otherStringOpen := Reached.initial.line 1 "\"xyz"
  have hsame : stringOpen.sameShared (fun _ _ => false) otherStringOpen = true := by
    decide +kernel
  exact ⟨hsame, tokens_eq_of_sameShared quotes_linked reached_stringOpen hother (by simp) (by simp)
    hsame 1 _⟩

end Grammar

end Highlight
