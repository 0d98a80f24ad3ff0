import Highlight.Proofs.ColorLimits
import Highlight.Proofs.PackedTokens

/-!
# What remembering styles changes

A `StyleCache` keeps the styles of paths that have been asked for, and is emptied when a new path
does not fit. Whatever has been asked for, the answers are those of the theme: this module follows a
cache through all that is asked of it. `Recent` says which paths have been asked for since the cache
was last emptied, in terms of the history alone, and `StyleCache.Remembers` that a cache holds
exactly their styles. Asking for one more style keeps that (`StyleCache.Remembers.style`), in the
three cases of `StyleCache.style_cases`, so it holds after every history (`StyleCache.styles_eq`).
Packing the tokens of a line is such a history (`Tokenizer.packFrom_cache`).
-/

namespace Highlight

/-! ## What is recent -/

/-- The paths asked for since the cache was last emptied, at the end of all that have been asked for.
It is emptied by a new path that comes after as many different ones as fit. -/
inductive Recent : (history recent : List ScopePath) → Prop
  | all {recent : List ScopePath} (hfit : recent.eraseDups.length ≤ StyleCache.capacity) :
      Recent recent recent
  | emptied {earlier old recent : List ScopePath} {path : ScopePath} (hold : Recent earlier old)
      (hfull : old.eraseDups.length = StyleCache.capacity) (hnew : path ∉ old)
      (hfit : (path :: recent).eraseDups.length ≤ StyleCache.capacity) :
      Recent (earlier ++ path :: recent) (path :: recent)

namespace Recent

variable {history recent : List ScopePath} {path : ScopePath}

theorem fits (h : Recent history recent) : recent.eraseDups.length ≤ StyleCache.capacity := by
  cases h with
  | all hfit => exact hfit
  | emptied _ _ _ hfit => exact hfit

theorem concat (h : Recent history recent)
    (hfit : (recent ++ [path]).eraseDups.length ≤ StyleCache.capacity) :
    Recent (history ++ [path]) (recent ++ [path]) := by
  cases h with
  | all => exact .all hfit
  | emptied hold hfull hnew =>
    rw [List.append_assoc]
    exact .emptied hold hfull hnew hfit

theorem fits_of_concat (h : (recent ++ [path]).eraseDups.length ≤ StyleCache.capacity) :
    recent.eraseDups.length ≤ StyleCache.capacity := by
  rw [List.eraseDups_append, List.length_append] at h
  exact Nat.le_trans (Nat.le_add_right ..) h

theorem of_nil (h : Recent [] recent) : recent = [] := by
  generalize hasked : [] = asked at h
  cases h with
  | all => rfl
  | emptied => exact absurd hasked.symm (List.append_ne_nil_of_right_ne_nil _ (List.cons_ne_nil _ _))

/-- The last path goes on with what was recent before it, or it emptied the cache. -/
theorem of_concat (h : Recent (history ++ [path]) recent) : ∃ before, Recent history before ∧
    (recent = before ++ [path] ∧ recent.eraseDups.length ≤ StyleCache.capacity ∨
      recent = [path] ∧ before.eraseDups.length = StyleCache.capacity ∧ path ∉ before) := by
  generalize hasked : history ++ [path] = asked at h
  cases h with
  | all hfit =>
    subst hasked
    exact ⟨history, .all (fits_of_concat hfit), .inl ⟨rfl, hfit⟩⟩
  | @emptied earlier old rest first hold hfull hnew hfit =>
    -- the last path is the one that emptied the cache, or one asked for since
    rcases List.eq_nil_or_concat rest with rfl | ⟨rest, last, rfl⟩
    · obtain ⟨rfl, hpath⟩ := List.append_inj' hasked rfl
      cases hpath
      exact ⟨old, hold, .inr ⟨rfl, hfull, hnew⟩⟩
    · rw [List.concat_eq_append] at hasked hfit ⊢
      rw [← List.cons_append, ← List.append_assoc] at hasked
      obtain ⟨rfl, hpath⟩ := List.append_inj' hasked rfl
      cases hpath
      exact ⟨first :: rest, .emptied hold hfull hnew (fits_of_concat hfit), .inl ⟨rfl, hfit⟩⟩

/-- A history says what is recent. -/
theorem unique {other : List ScopePath} (h : Recent history recent) (h' : Recent history other) :
    recent = other := by
  -- a path cannot both fit and empty the cache after the same paths
  have hnot : ∀ {before : List ScopePath} {path : ScopePath},
      (before ++ [path]).eraseDups.length ≤ StyleCache.capacity →
      before.eraseDups.length = StyleCache.capacity → path ∈ before := fun hfit hfull => by
    by_contra hnew
    rw [eraseDups_concat_of_not_mem hnew, List.length_append, hfull] at hfit
    exact Nat.not_succ_le_self _ hfit
  induction history using List.reverseRecOn generalizing recent other with
  | nil => rw [h.of_nil, h'.of_nil]
  | append_singleton history path ih =>
    obtain ⟨before, hbefore, hcases⟩ := h.of_concat
    obtain ⟨before', hbefore', hcases'⟩ := h'.of_concat
    cases ih hbefore hbefore'
    rcases hcases with ⟨rfl, hfit⟩ | ⟨rfl, hfull, hnew⟩
    · rcases hcases' with ⟨rfl, -⟩ | ⟨rfl, hfull, hnew⟩
      · rfl
      · exact absurd (hnot hfit hfull) hnew
    · rcases hcases' with ⟨rfl, hfit⟩ | ⟨rfl, -⟩
      · exact absurd (hnot hfit hfull) hnew
      · rfl

end Recent

namespace StyleCache

variable {t : Theme} {c : StyleCache t} {history : List ScopePath}

/-! ## One path -/

/-- The paths whose styles are remembered. -/
def paths (c : StyleCache t) : List ScopePath := c.entries.map (·.1)

/-- What asking for a style can do: the path is remembered already, or it is added, or it is all that
is remembered of a cache that was full. -/
theorem style_cases (c : StyleCache t) (path : ScopePath) :
    (path ∈ c.paths ∧ (c.style path).2 = c) ∨
    (path ∉ c.paths ∧ c.entries.length < capacity ∧
      (c.style path).2.entries = (path, t.style path) :: c.entries) ∨
    (path ∉ c.paths ∧ c.entries.length = capacity ∧
      (c.style path).2.entries = [(path, t.style path)]) := by
  unfold style
  split
  · rename_i s hs
    exact .inl ⟨List.mem_map_of_mem (f := (·.1)) (mem_of_lookup_eq_some hs), rfl⟩
  · rename_i hnone
    have hnew : path ∉ c.paths := fun hmem => by
      obtain ⟨e, he, hpath⟩ := List.mem_map.1 hmem
      simpa [hpath] using List.lookup_eq_none_iff.1 hnone e he
    refine .inr ?_
    dsimp only
    split
    · rename_i hlt
      exact .inl ⟨hnew, hlt, rfl⟩
    · rename_i hnot
      exact .inr ⟨hnew, Nat.le_antisymm c.bounded (Nat.le_of_not_lt hnot), rfl⟩

/-- The cache holds the styles of the recent paths of a history, each once. -/
def Remembers (c : StyleCache t) (history : List ScopePath) : Prop :=
  ∃ recent, Recent history recent ∧
    c.entries = (recent.eraseDups.map fun path => (path, t.style path)).reverse

theorem remembers_empty (t : Theme) : (empty t).Remembers [] :=
  ⟨[], .all (Nat.zero_le _), rfl⟩

theorem Remembers.style (h : c.Remembers history) (path : ScopePath) :
    (c.style path).2.Remembers (history ++ [path]) := by
  obtain ⟨recent, hrecent, hentries⟩ := h
  have hmem : path ∈ c.paths ↔ path ∈ recent := by
    simp [paths, hentries]
  have hlength : c.entries.length = recent.eraseDups.length := by
    rw [hentries, List.length_reverse, List.length_map]
  rcases c.style_cases path with ⟨hknown, hc⟩ | ⟨hnew, hlt, hc⟩ | ⟨hnew, hfull, hc⟩
  · have hsame := eraseDups_concat_of_mem (hmem.1 hknown)
    rw [hc]
    exact ⟨recent ++ [path], hrecent.concat (hsame ▸ hrecent.fits), hsame ▸ hentries⟩
  · have hmore := eraseDups_concat_of_not_mem (mt hmem.2 hnew)
    refine ⟨recent ++ [path], hrecent.concat ?_, ?_⟩
    · rw [hmore, List.length_append, ← hlength]
      exact hlt
    · rw [hc, hmore, hentries, List.map_append, List.reverse_append]
      rfl
  · -- as many recent paths as fit are remembered, so the new one starts over
    have hone : [path].eraseDups.length ≤ capacity :=
      Nat.le_trans (length_eraseDups_le [path]) (by simp [capacity])
    exact ⟨[path], .emptied hrecent (hlength ▸ hfull) (mt hmem.2 hnew) hone, hc⟩

/-! ## Many paths -/

/-- Asks for the styles of paths, one after another. -/
def styles (c : StyleCache t) : List ScopePath → List Style × StyleCache t
  | [] => ([], c)
  | path :: paths =>
    let (style, c) := c.style path
    let (styles, c) := c.styles paths
    (style :: styles, c)

theorem fst_styles : ∀ (c : StyleCache t) (paths : List ScopePath),
    (c.styles paths).1 = paths.map t.style
  | _, [] => rfl
  | c, path :: paths => by
    rw [styles, List.map_cons, ← c.style_eq path, ← fst_styles (c.style path).2 paths]

theorem Remembers.styles : ∀ {c : StyleCache t} {history : List ScopePath}, c.Remembers history →
    ∀ paths, (c.styles paths).2.Remembers (history ++ paths)
  | _, _, h, [] => by rwa [List.append_nil]
  | c, history, h, path :: paths => by
    rw [List.append_cons]
    exact (h.style path).styles paths

/-- Whatever has been asked for before, every answer is what the theme says. After any history the
cache holds no more paths than fit, each of them once and with what the theme says of it: they are
the paths that have been asked for since it was last emptied. -/
theorem styles_eq (t : Theme) (asked : List ScopePath) :
    (∀ c : StyleCache t, (c.styles asked).1 = asked.map t.style) ∧
    let c := ((empty t).styles asked).2
    c.entries.length ≤ 4096 ∧ c.paths.Nodup ∧ (∀ e ∈ c.entries, e.2 = t.style e.1) ∧
    ∃ recent, (∀ other, Recent asked other ↔ other = recent) ∧
      ∀ path, path ∈ c.paths ↔ path ∈ recent := by
  refine ⟨fun c => c.fst_styles asked, ?_⟩
  obtain ⟨recent, hrecent, hentries⟩ := (remembers_empty t).styles asked
  have hpaths : ((empty t).styles asked).2.paths = recent.eraseDups.reverse := by
    rw [paths, hentries, List.map_reverse, List.map_map]
    exact congrArg List.reverse (List.map_id _)
  dsimp only
  rw [hpaths, hentries]
  refine ⟨?_, List.nodup_reverse.2 (nodup_eraseDups recent), ?_, recent, fun other => ?_,
    fun path => ?_⟩
  · rw [List.length_reverse, List.length_map]
    exact hrecent.fits
  · intro e he
    obtain ⟨path, _, rfl⟩ := List.mem_map.1 (List.mem_reverse.1 he)
    rfl
  · exact ⟨fun h => h.unique hrecent, fun h => h ▸ hrecent⟩
  · rw [List.mem_reverse, List.mem_eraseDups]

end StyleCache

/-- To pack tokens is to ask for the styles of their scopes. -/
theorem Tokenizer.packFrom_cache {theme : Theme} (t : Tokenizer) : ∀ (ts : List Token)
    (before : List PackedToken) (c : StyleCache theme),
    (t.packFrom before c ts).2 = (c.styles (ts.map (·.scopes))).2
  | [], _, _ => rfl
  | u :: ts, _, c => t.packFrom_cache ts _ (c.style u.scopes).2

end Highlight
