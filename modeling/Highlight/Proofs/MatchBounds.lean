import Highlight.Proofs.ScanSteps

/-!
# Where matches lie

A search of a text from a position on gives a match that starts there or later and ends before the
text does. This holds of one regex (`Regex.search_within`), of a pattern with its choice of anchors,
of the earliest match among several patterns, and so of the match that a step of a scan applies
(`Place.nextMatch_within`).
-/

namespace Highlight

/-- The match lies between two positions. -/
structure Match.Within (start stop : Nat) (m : Match) : Prop where
  start_le : start ≤ m.start
  ordered : m.start ≤ m.stop
  le_stop : m.stop ≤ stop

namespace Regex

variable {r : Regex} {m : Match}

theorem match?_within {stop p : Nat} {a : Attempt} (h : r.match? stop p a = some m) :
    m.Within p stop := by
  unfold match? at h
  split at h
  · cases h
  · dsimp only at h
    split at h
    · rename_i hin
      simp only [Bool.and_eq_true, decide_eq_true_eq] at hin
      cases h
      exact ⟨hin.1.1, hin.1.2, hin.2⟩
    · cases h

theorem searchFrom_within {w : Window} {slots : Slots} : ∀ {n p : Nat},
    r.searchFrom w slots p n = some m → m.Within p w.stop
  | 0, _, h => match?_within h
  | n + 1, p, h => by
    unfold searchFrom at h
    split at h
    · rename_i found hfound
      cases h
      exact match?_within hfound
    · have hrest := searchFrom_within h
      exact ⟨Nat.le_of_succ_le hrest.start_le, hrest.ordered, hrest.le_stop⟩

theorem search_within {chars : Array Char} {start stop : Nat}
    (h : r.search chars start stop = some m) : m.Within start stop := by
  unfold search at h
  split at h
  · exact searchFrom_within h
  · cases h

end Regex

/-- The earliest match of several patterns is a match of one of them, or the best one before. -/
theorem Pattern.first_within {α : Type} {chars : Array Char} {start stop : Nat} {a : Anchors}
    {tag : α} {m : Match} : ∀ {patterns : List (α × Pattern)} {best : Option (α × Match)},
      (∀ c ∈ best, c.2.Within start stop) →
      Pattern.first chars start stop a best patterns = some (tag, m) → m.Within start stop
  | [], best, hbest, h => hbest (tag, m) h
  | (t, p) :: ps, best, hbest, h => by
    unfold Pattern.first at h
    split at h
    · exact Pattern.first_within hbest h
    · rename_i n hn
      have hfound : n.Within start stop := Regex.search_within hn
      have hnew : ∀ c ∈ some (t, n), c.2.Within start stop := by
        intro c hc
        cases hc
        exact hfound
      split at h
      · split at h
        · split at h
          · cases h
            exact hfound
          · exact Pattern.first_within hnew h
        · exact Pattern.first_within hbest h
      · split at h
        · cases h
          exact hfound
        · exact Pattern.first_within hnew h

namespace Place

variable {p : Place} {m : Match}

theorem first_within {α : Type} {patterns : List (α × Pattern)} {tag : α}
    (h : p.first patterns = some (tag, m)) : m.Within p.position p.stop :=
  Pattern.first_within (by simp) h

theorem firstInjected_within {g : Grammar} {priority : Priority} {r : RuleRef} :
    ∀ {rest : List (Priority × RuleRef)} {best : Option (Priority × RuleRef × Match)},
      (∀ c ∈ best, c.2.2.Within p.position p.stop) →
      p.firstInjected g best rest = some (priority, r, m) → m.Within p.position p.stop
  | [], best, hbest, h => hbest (priority, r, m) h
  | (prio, target) :: rest, best, hbest, h => by
    unfold firstInjected at h
    split at h
    · exact firstInjected_within hbest h
    · rename_i r' n hn
      have hfound : n.Within p.position p.stop := first_within hn
      split at h
      · exact firstInjected_within hbest h
      · split at h
        · cases h
          exact hfound
        · refine firstInjected_within ?_ h
          intro c hc
          cases hc
          exact hfound

theorem prefer_cases {own : Option (Candidate × Match)}
    {injected : Option (Priority × RuleRef × Match)} {c : Candidate}
    (h : prefer own injected = some (c, m)) :
    own = some (c, m) ∨ ∃ priority r, injected = some (priority, r, m) ∧ c = .rule r := by
  unfold prefer at h
  split at h
  · exact .inl h
  · cases h
    exact .inr ⟨_, _, rfl, rfl⟩
  · split at h
    · cases h
      exact .inr ⟨_, _, rfl, rfl⟩
    · cases h
      exact .inl rfl

/-- The match that a step applies lies in the rest of the text. -/
theorem nextMatch_within {g : Grammar} {stack : RuleStack} {c : Candidate}
    (h : p.nextMatch g stack = .ok (some (c, m))) : m.Within p.position p.stop := by
  unfold nextMatch at h
  split at h
  · cases h
  · obtain ⟨patterns, _, h⟩ := Except.bind_eq_ok.1 h
    rcases prefer_cases (Except.ok.inj h) with hown | ⟨priority, r, hinjected, _⟩
    · exact first_within hown
    · exact firstInjected_within (by simp) hinjected

end Place

end Highlight
