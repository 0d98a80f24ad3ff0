import Highlight.Library.Requests
import Highlight.Proofs.LoadErrors

/-!
# Tables of shared work

`JobTable.Step` lists what an event can do to a table of jobs. From these cases follows, for all
tables alike, what events keep: a job keeps its scope and its result (`Step.exists_job`,
`Step.result?`), requests keep their jobs (`Step.requests`), and what they have received is the
result of their job (`Step.sound`). Only forgetting a scope makes room for another job of that scope
(`Step.slots_le`), and as long as it is not forgotten all requests for it join one job
(`Step.joins`). Where all jobs that are kept are done (`AtRest`), a request finds its result or
begins a job that is the only one.
-/

namespace Highlight

namespace JobTable

variable {W R : Type} {t t' : JobTable W R} {n : Nat} {s : ScopeName} {work : W} {job : Job W R}

/-! ## Single operations -/

theorem work?_eq_some_iff : t.work? n = some (s, work) ↔ t.jobs[n]? = some (s, .running work) := by
  unfold work?
  split
  · next s' work' heq => simp [heq]
  · next hnot =>
    refine iff_of_false nofun fun h => ?_
    exact hnot s work h

theorem result?_eq_some_iff {a : R} :
    t.result? n = some a ↔ ∃ s, t.jobs[n]? = some (s, .done a) := by
  unfold result?
  split
  · next s' a' heq => simp [heq]
  · next hnot =>
    refine iff_of_false nofun fun ⟨s, h⟩ => ?_
    exact hnot s a h

/-- A request joins the job that is kept, or the one that begins. -/
theorem join_cases (t : JobTable W R) (s : ScopeName) (work : W) :
    (∃ n, t.kept.lookup s = some n ∧ t.join s work = (n, t)) ∨
    (t.kept.lookup s = none ∧ t.join s work = (t.jobs.length, { t with
      jobs := t.jobs ++ [(s, .running work)]
      kept := (s, t.jobs.length) :: t.kept })) := by
  unfold join
  cases t.kept.lookup s with
  | some n => exact .inl ⟨n, rfl, rfl⟩
  | none => exact .inr ⟨rfl, rfl⟩

theorem request_eq (t : JobTable W R) (s : ScopeName) (work : W) :
    t.request s work = { (t.join s work).2 with
      requests := t.requests ++ [⟨s, (t.join s work).1, none⟩] } := by
  rcases join_cases t s work with ⟨n, _, heq⟩ | ⟨_, heq⟩
  · rw [request, heq]
  · rw [request, heq]

theorem proceed_eq (h : t.work? n = some (s, work)) :
    t.proceed n job = { t with jobs := t.jobs.set n (s, job) } := by
  rw [proceed, h]

/-! ## What an event can do to a table -/

/-- What one event does to a table: nothing, or a job begins or is joined, maybe by a request, or a
job goes on, a request receives its result, or a scope is forgotten. -/
inductive Step (begins : ScopeName → W → Prop) (goesOn : ScopeName → W → Job W R → Prop)
    (forgets : ScopeName → Prop) (t : JobTable W R) : JobTable W R → Prop
  | idle : Step begins goesOn forgets t t
  | join {s : ScopeName} {work : W} (h : begins s work) :
      Step begins goesOn forgets t (t.join s work).2
  | request {s : ScopeName} {work : W} (h : begins s work) :
      Step begins goesOn forgets t (t.request s work)
  | proceed {n : Nat} {s : ScopeName} {work : W} {job : Job W R}
      (hwork : t.work? n = some (s, work)) (h : goesOn s work job) :
      Step begins goesOn forgets t (t.proceed n job)
  | receive {i : Nat} : Step begins goesOn forgets t (t.receive i)
  | forget {s : ScopeName} (h : forgets s) : Step begins goesOn forgets t (t.forget s)

/-- The jobs that are kept and joined are there, and what requests have received are the results of
the jobs that they have joined. -/
structure Sound (t : JobTable W R) : Prop where
  kept : ∀ s n, t.kept.lookup s = some n → ∃ job, t.jobs[n]? = some (s, job)
  joined : ∀ r ∈ t.requests, ∃ job, t.jobs[r.job]? = some (r.scope, job)
  received : ∀ r ∈ t.requests, ∀ a, r.received = some a → t.result? r.job = some a

theorem empty_sound : (empty : JobTable W R).Sound := ⟨nofun, nofun, nofun⟩

section

variable {begins : ScopeName → W → Prop} {goesOn : ScopeName → W → Job W R → Prop}
  {forgets : ScopeName → Prop}

/-- A job keeps its number and scope, and what it keeps when it goes on. -/
theorem Step.exists_job {P : Job W R → Prop} (h : t.Step begins goesOn forgets t')
    (hgo : ∀ work job, goesOn s work job → P (.running work) → P job)
    (hjob : t.jobs[n]? = some (s, job)) (hP : P job) :
    ∃ job', t'.jobs[n]? = some (s, job') ∧ P job' := by
  have hjoin : ∀ (s' : ScopeName) (work : W), (t.join s' work).2.jobs[n]? = some (s, job) := by
    intro s' work
    rcases join_cases t s' work with ⟨_, _, heq⟩ | ⟨_, heq⟩
    · rw [heq]
      exact hjob
    · rw [heq]
      exact (List.getElem?_append_left (List.getElem?_eq_some_iff.1 hjob).1).trans hjob
  cases h with
  | idle => exact ⟨job, hjob, hP⟩
  | join => exact ⟨job, hjoin _ _, hP⟩
  | request =>
    rw [request_eq]
    exact ⟨job, hjoin _ _, hP⟩
  | @proceed m s' work job' hwork h =>
    rw [proceed_eq hwork]
    rw [work?_eq_some_iff] at hwork
    by_cases heq : m = n
    · subst heq
      cases hjob.symm.trans hwork
      exact ⟨job', List.getElem?_set_self (List.getElem?_eq_some_iff.1 hjob).1, hgo _ _ h hP⟩
    · exact ⟨job, (List.getElem?_set_ne heq).trans hjob, hP⟩
  | receive => exact ⟨job, hjob, hP⟩
  | forget => exact ⟨job, hjob, hP⟩

/-- Results stay. -/
theorem Step.result? (h : t.Step begins goesOn forgets t') {a : R}
    (hresult : t.result? n = some a) : t'.result? n = some a := by
  obtain ⟨s, hjob⟩ := result?_eq_some_iff.1 hresult
  obtain ⟨job', hjob', rfl⟩ := h.exists_job (P := (· = .done a)) (fun _ _ _ h => nomatch h) hjob rfl
  exact result?_eq_some_iff.2 ⟨s, hjob'⟩

/-- What holds of jobs when they begin and is kept when they go on holds of all jobs. -/
theorem Step.all_jobs {P : ScopeName → Job W R → Prop} (hstep : t.Step begins goesOn forgets t')
    (hbegin : ∀ s work, begins s work → P s (.running work))
    (hgo : ∀ s work job, goesOn s work job → P s (.running work) → P s job)
    (h : ∀ j ∈ t.jobs, P j.1 j.2) : ∀ j ∈ t'.jobs, P j.1 j.2 := by
  have hjoin : ∀ s work, begins s work → ∀ j ∈ (t.join s work).2.jobs, P j.1 j.2 := by
    intro s work hbegins j hj
    rcases join_cases t s work with ⟨_, _, heq⟩ | ⟨_, heq⟩
    · rw [heq] at hj
      exact h j hj
    · rw [heq] at hj
      rcases List.mem_append.1 hj with hj | hj
      · exact h j hj
      · cases List.mem_singleton.1 hj
        exact hbegin s work hbegins
  cases hstep with
  | idle => exact h
  | join hbegins => exact hjoin _ _ hbegins
  | request hbegins =>
    rw [request_eq]
    exact hjoin _ _ hbegins
  | @proceed m s work job hwork hgoes =>
    rw [proceed_eq hwork]
    intro j hj
    rcases List.mem_or_eq_of_mem_set hj with hj | rfl
    · exact h j hj
    · exact hgo s work job hgoes (h _ (List.mem_of_getElem? (work?_eq_some_iff.1 hwork)))
  | receive => exact h
  | forget => exact h

/-- Requests keep their scopes and jobs. -/
theorem Step.requests (h : t.Step begins goesOn forgets t') {i : Nat} {r : Request R}
    (hr : t.requests[i]? = some r) :
    ∃ r', t'.requests[i]? = some r' ∧ r'.scope = r.scope ∧ r'.job = r.job := by
  cases h with
  | idle => exact ⟨r, hr, rfl, rfl⟩
  | @join s' work =>
    refine ⟨r, ?_, rfl, rfl⟩
    rcases join_cases t s' work with ⟨_, _, heq⟩ | ⟨_, heq⟩
    · rw [heq]
      exact hr
    · rw [heq]
      exact hr
  | request =>
    rw [request_eq]
    exact ⟨r, (List.getElem?_append_left (List.getElem?_eq_some_iff.1 hr).1).trans hr, rfl, rfl⟩
  | @proceed _ _ _ _ hwork =>
    rw [proceed_eq hwork]
    exact ⟨r, hr, rfl, rfl⟩
  | @receive j =>
    unfold JobTable.receive
    rw [List.getElem?_modify, hr]
    split
    · exact ⟨_, rfl, rfl, rfl⟩
    · exact ⟨r, rfl, rfl, rfl⟩
  | forget => exact ⟨r, hr, rfl, rfl⟩

/-- Joining leaves the requests as they are, and the jobs that are kept there. -/
theorem Sound.join (h : t.Sound) (s : ScopeName) (work : W) :
    (t.join s work).2.requests = t.requests ∧
      (∃ job, (t.join s work).2.jobs[(t.join s work).1]? = some (s, job)) ∧
      ∀ s' n, (t.join s work).2.kept.lookup s' = some n →
        ∃ job, (t.join s work).2.jobs[n]? = some (s', job) := by
  rcases join_cases t s work with ⟨n, hn, heq⟩ | ⟨_, heq⟩
  · rw [heq]
    exact ⟨rfl, h.kept s n hn, h.kept⟩
  · have hnew : (t.jobs ++ [(s, .running work)])[t.jobs.length]? = some (s, .running work) :=
      List.getElem?_concat_length
    rw [heq]
    refine ⟨rfl, ⟨_, hnew⟩, fun s' n hn => ?_⟩
    dsimp only at hn ⊢
    rw [List.lookup_cons] at hn
    split at hn
    · next hs =>
      cases hn
      rw [beq_iff_eq.1 hs]
      exact ⟨_, hnew⟩
    · obtain ⟨job, hjob⟩ := h.kept s' n hn
      exact ⟨job, (List.getElem?_append_left (List.getElem?_eq_some_iff.1 hjob).1).trans hjob⟩

/-- A request of the table after one of them received its result was there before. -/
theorem mem_receive {i : Nat} {r : Request R} (h : r ∈ (t.receive i).requests) :
    ∃ r' ∈ t.requests, r.scope = r'.scope ∧ r.job = r'.job ∧
      ∀ a, r.received = some a → r'.received = some a ∨ t.result? r'.job = some a := by
  obtain ⟨j, hj⟩ := List.mem_iff_getElem?.1 h
  rw [receive, List.getElem?_modify] at hj
  obtain ⟨r', hr', rfl⟩ := Option.map_eq_some_iff.1 hj
  refine ⟨r', List.mem_of_getElem? hr', ?_⟩
  split
  · refine ⟨rfl, rfl, fun a ha => ?_⟩
    rcases Option.or_eq_some_iff.1 ha with ha | ⟨_, ha⟩
    · exact .inl ha
    · exact .inr ha
  · exact ⟨rfl, rfl, fun a ha => .inl ha⟩

theorem Step.sound (hstep : t.Step begins goesOn forgets t') (h : t.Sound) : t'.Sound := by
  have hjob : ∀ (n : Nat) (s : ScopeName), (∃ job, t.jobs[n]? = some (s, job)) →
      ∃ job, t'.jobs[n]? = some (s, job) := by
    rintro n s ⟨job, hjob⟩
    obtain ⟨job', hjob', _⟩ := hstep.exists_job (P := fun _ => True) (fun _ _ _ _ => trivial) hjob
      trivial
    exact ⟨job', hjob'⟩
  have hkept : ∀ s n, t.kept.lookup s = some n → ∃ job, t'.jobs[n]? = some (s, job) :=
    fun s n hn => hjob n s (h.kept s n hn)
  have hjoined : ∀ r ∈ t.requests, ∃ job, t'.jobs[r.job]? = some (r.scope, job) :=
    fun r hr => hjob _ _ (h.joined r hr)
  have hreceived : ∀ r ∈ t.requests, ∀ a, r.received = some a → t'.result? r.job = some a :=
    fun r hr a ha => hstep.result? (h.received r hr a ha)
  cases hstep with
  | idle => exact h
  | @join s work _ =>
    obtain ⟨hrequests, _, hkept⟩ := h.join s work
    exact ⟨hkept, hrequests ▸ hjoined, hrequests ▸ hreceived⟩
  | @request s work _ =>
    obtain ⟨_, hnew, hkept⟩ := h.join s work
    rw [request_eq] at hjoined hreceived ⊢
    refine ⟨hkept, fun r hr => ?_, fun r hr a ha => ?_⟩
    · rcases List.mem_append.1 hr with hr | hr
      · exact hjoined r hr
      · cases List.mem_singleton.1 hr
        exact hnew
    · rcases List.mem_append.1 hr with hr | hr
      · exact hreceived r hr a ha
      · cases List.mem_singleton.1 hr
        cases ha
  | proceed hwork _ =>
    rw [proceed_eq hwork] at hkept hjoined hreceived ⊢
    exact ⟨hkept, hjoined, hreceived⟩
  | receive =>
    refine ⟨hkept, fun r hr => ?_, fun r hr a ha => ?_⟩
    · obtain ⟨r', hr', hscope, hjob, _⟩ := mem_receive hr
      rw [hscope, hjob]
      exact hjoined r' hr'
    · obtain ⟨r', hr', _, hjob, hor⟩ := mem_receive hr
      rw [hjob]
      rcases hor a ha with ha | ha
      · exact hreceived r' hr' a ha
      · exact ha
  | forget _ => exact ⟨fun s n hn => hkept s n (lookup_filter_ne hn), hjoined, hreceived⟩

/-! ## How many jobs there are -/

/-- The jobs of a scope that have begun and the one that may begin because none is kept. -/
def slots (t : JobTable W R) (s : ScopeName) : Nat :=
  t.jobs.countP (·.1 == s) + if (t.kept.lookup s).isSome then 0 else 1

theorem join_slots (t : JobTable W R) (s s' : ScopeName) (work : W) :
    (t.join s' work).2.slots s = t.slots s := by
  rcases join_cases t s' work with ⟨_, _, heq⟩ | ⟨hnone, heq⟩
  · rw [heq]
  · rw [heq, slots, slots]
    dsimp only
    rw [List.countP_append, List.countP_singleton, List.lookup_cons]
    by_cases hs : s = s'
    · subst hs
      rw [hnone, beq_self_eq_true]
      rfl
    · rw [beq_false_of_ne hs, beq_false_of_ne (Ne.symm hs)]
      rfl

/-- What is counted of jobs changes with the one that goes on. -/
theorem countP_proceed (p : ScopeName × Job W R → Bool) (h : t.work? n = some (s, work))
    (job : Job W R) : (t.proceed n job).jobs.countP p + (p (s, .running work)).toNat =
      t.jobs.countP p + (p (s, job)).toNat := by
  rw [proceed_eq h]
  obtain ⟨hlt, hget⟩ := List.getElem?_eq_some_iff.1 (work?_eq_some_iff.1 h)
  rw [List.countP_set hlt, hget]
  have hpos : p (s, .running work) = true → 0 < t.jobs.countP p := fun hp =>
    List.countP_pos_iff.2 ⟨_, List.mem_of_getElem? (work?_eq_some_iff.1 h), hp⟩
  cases hw : p (s, .running work) with
  | false => cases p (s, job) <;> simp
  | true =>
    have := hpos hw
    cases p (s, job) <;> simp <;> omega

/-- Only forgetting a scope makes room for another job. -/
theorem Step.slots_le (hstep : t.Step begins goesOn forgets t') (s : ScopeName) :
    t'.slots s ≤ t.slots s ∨ (forgets s ∧ t'.slots s ≤ t.slots s + 1) := by
  cases hstep with
  | idle => exact .inl (Nat.le_refl _)
  | join => exact .inl (Nat.le_of_eq (join_slots ..))
  | request =>
    rw [request_eq]
    exact .inl (Nat.le_of_eq (join_slots ..))
  | @proceed n s' work job hwork h =>
    have hcount := countP_proceed (fun j => j.1 == s) hwork job
    have hkept : (t.proceed n job).kept = t.kept := by rw [proceed_eq hwork]
    refine .inl (Nat.le_of_eq ?_)
    rw [slots, slots, hkept]
    dsimp only at hcount
    omega
  | receive => exact .inl (Nat.le_refl _)
  | @forget s' h =>
    have hlookup := lookup_filter_key (· != s') s t.kept
    unfold slots JobTable.forget
    dsimp only
    rw [hlookup]
    by_cases hs : s = s'
    · subst hs
      refine .inr ⟨h, ?_⟩
      split <;> split <;> omega
    · have hne : (s != s') = true := bne_iff_ne.2 hs
      rw [if_pos hne]
      exact .inl (Nat.le_refl _)

/-! ## Which job requests join -/

/-- What a request has received, those that have joined the same job have received too, or it waits
for them. -/
def Agrees (t : JobTable W R) : Prop :=
  ∀ r ∈ t.requests, ∀ r' ∈ t.requests, r.job = r'.job → ∀ a, r.received = some a →
    (∀ a', r'.received = some a' → a = a') ∧ t.result? r'.job = some a

theorem Sound.agrees (h : t.Sound) : t.Agrees := by
  intro r hr r' hr' hjob a ha
  have hresult : t.result? r'.job = some a := hjob ▸ h.received r hr a ha
  refine ⟨fun a' ha' => ?_, hresult⟩
  exact Option.some.inj (hresult.symm.trans (h.received r' hr' a' ha'))

/-- The requests for a scope from one number on have joined the job that is kept. -/
def Joins (t : JobTable W R) (m : Nat) (s : ScopeName) : Prop :=
  ∀ i r, m ≤ i → t.requests[i]? = some r → r.scope = s → t.kept.lookup s = some r.job

theorem joins_length (t : JobTable W R) (s : ScopeName) : t.Joins t.requests.length s := by
  intro i r hi hr
  rw [List.getElem?_eq_none hi] at hr
  cases hr

theorem join_kept (t : JobTable W R) (s : ScopeName) (work : W) :
    (t.join s work).2.kept.lookup s = some (t.join s work).1 ∧
      ∀ s' n, t.kept.lookup s' = some n → (t.join s work).2.kept.lookup s' = some n := by
  rcases join_cases t s work with ⟨n, hn, heq⟩ | ⟨hnone, heq⟩
  · rw [heq]
    exact ⟨hn, fun _ _ h => h⟩
  · rw [heq]
    refine ⟨List.lookup_cons_self, fun s' n hn => ?_⟩
    have hne : s' ≠ s := by
      rintro rfl
      cases hnone.symm.trans hn
    rw [List.lookup_cons, beq_false_of_ne hne]
    exact hn

/-- As long as a scope is not forgotten, requests for it join the same job. -/
theorem Step.joins (hstep : t.Step begins goesOn forgets t') {m : Nat} (hforgets : ¬forgets s)
    (h : t.Joins m s) : t'.Joins m s := by
  intro i r hi hr hs
  cases hstep with
  | idle => exact h i r hi hr hs
  | @join s' work _ =>
    have hrequests : (t.join s' work).2.requests = t.requests := by
      rcases join_cases t s' work with ⟨_, _, heq⟩ | ⟨_, heq⟩
      · rw [heq]
      · rw [heq]
    rw [hrequests] at hr
    exact (join_kept t s' work).2 s _ (h i r hi hr hs)
  | @request s' work _ =>
    rw [request_eq] at hr ⊢
    dsimp only at hr ⊢
    rw [List.getElem?_append] at hr
    split at hr
    · exact (join_kept t s' work).2 s _ (h i r hi hr hs)
    · cases List.mem_singleton.1 (List.mem_of_getElem? hr)
      cases hs
      exact (join_kept t s' work).1
  | proceed hwork =>
    rw [proceed_eq hwork] at hr ⊢
    exact h i r hi hr hs
  | @receive j =>
    rw [JobTable.receive, List.getElem?_modify] at hr
    obtain ⟨r', hr', rfl⟩ := Option.map_eq_some_iff.1 hr
    by_cases hij : j = i
    · rw [if_pos hij] at hs ⊢
      exact h i r' hi hr' hs
    · rw [if_neg hij] at hs ⊢
      exact h i r' hi hr' hs
  | @forget s' h' =>
    have hne : (s != s') = true := bne_iff_ne.2 fun heq => hforgets (heq ▸ h')
    have hlookup := lookup_filter_key (· != s') s t.kept
    rw [if_pos hne] at hlookup
    exact hlookup.trans (h i r hi hr hs)

/-- As long as no work begins for a scope, none is kept where none was. -/
theorem Step.kept_none (hstep : t.Step begins goesOn forgets t') (hbegins : ∀ work, ¬begins s work)
    (h : t.kept.lookup s = none) : t'.kept.lookup s = none := by
  have hjoin : ∀ s' work, begins s' work → (t.join s' work).2.kept.lookup s = none := by
    intro s' work hbegin
    rcases join_cases t s' work with ⟨_, _, heq⟩ | ⟨_, heq⟩
    · rw [heq]
      exact h
    · have hne : s ≠ s' := fun heq => hbegins work (heq ▸ hbegin)
      rw [heq, List.lookup_cons, beq_false_of_ne hne]
      exact h
  cases hstep with
  | idle => exact h
  | join hbegin => exact hjoin _ _ hbegin
  | request hbegin =>
    rw [request_eq]
    exact hjoin _ _ hbegin
  | proceed hwork =>
    rw [proceed_eq hwork]
    exact h
  | receive => exact h
  | @forget s' _ =>
    have hlookup := lookup_filter_key (· != s') s t.kept
    exact hlookup.trans (by rw [h, ite_self])

end

/-! ## Tables at rest -/

/-- The jobs that are kept are done. -/
def AtRest (t : JobTable W R) : Prop := ∀ e ∈ t.kept, (t.result? e.2).isSome

theorem AtRest.lookup_finished (h : t.AtRest) (s : ScopeName) :
    t.finished.lookup s = (t.kept.lookup s).bind t.result? :=
  lookup_filterMap_value t.result? s t.kept h

/-- The table with one more job, which is kept for its scope. -/
def withJob (t : JobTable W R) (s : ScopeName) (job : Job W R) : JobTable W R where
  jobs := t.jobs ++ [(s, job)]
  kept := (s, t.jobs.length) :: t.kept
  requests := t.requests

theorem withJob_work? (t : JobTable W R) (s : ScopeName) (work : W) :
    (t.withJob s (.running work)).work? t.jobs.length = some (s, work) :=
  work?_eq_some_iff.2 List.getElem?_concat_length

theorem withJob_result? (t : JobTable W R) (s : ScopeName) (r : R) :
    (t.withJob s (.done r)).result? t.jobs.length = some r :=
  result?_eq_some_iff.2 ⟨s, List.getElem?_concat_length⟩

theorem withJob_proceed (t : JobTable W R) (s : ScopeName) (work : W) (job : Job W R) :
    (t.withJob s (.running work)).proceed t.jobs.length job = t.withJob s job := by
  rw [proceed_eq (withJob_work? t s work)]
  simp [withJob]

/-- The results of other jobs stay. -/
theorem result?_withJob {a : R} (h : t.result? n = some a) (s : ScopeName) (job : Job W R) :
    (t.withJob s job).result? n = some a := by
  obtain ⟨s', hjob⟩ := result?_eq_some_iff.1 h
  refine result?_eq_some_iff.2 ⟨s', ?_⟩
  exact (List.getElem?_append_left (List.getElem?_eq_some_iff.1 hjob).1).trans hjob

theorem AtRest.withJob (h : t.AtRest) (s : ScopeName) (r : R) :
    (t.withJob s (.done r)).AtRest ∧ (t.withJob s (.done r)).finished = (s, r) :: t.finished := by
  have hlast := withJob_result? t s r
  have hold : ∀ e ∈ t.kept, ∃ a, t.result? e.2 = some a ∧
      (t.withJob s (.done r)).result? e.2 = some a := by
    intro e he
    obtain ⟨a, ha⟩ := Option.isSome_iff_exists.1 (h e he)
    exact ⟨a, ha, result?_withJob ha s _⟩
  constructor
  · intro e he
    rcases List.mem_cons.1 he with rfl | he
    · exact Option.isSome_of_eq_some hlast
    · obtain ⟨a, _, ha⟩ := hold e he
      exact Option.isSome_of_eq_some ha
  · have hkept : (t.withJob s (.done r)).kept = (s, t.jobs.length) :: t.kept := rfl
    unfold finished
    rw [hkept, List.filterMap_cons, hlast, Option.map_some]
    refine congrArg _ (List.filterMap_congr fun e he => ?_)
    obtain ⟨a, ha, ha'⟩ := hold e he
    rw [ha, ha']

/-- A request for a scope of a table at rest is answered already, or a job begins. -/
theorem AtRest.join_cases (h : t.AtRest) (s : ScopeName) (work : W) :
    (∃ n r, t.finished.lookup s = some r ∧ t.result? n = some r ∧ t.join s work = (n, t)) ∨
    (t.finished.lookup s = none ∧
      t.join s work = (t.jobs.length, t.withJob s (.running work))) := by
  rw [h.lookup_finished s]
  rcases JobTable.join_cases t s work with ⟨n, hkept, heq⟩ | ⟨hnone, heq⟩
  · obtain ⟨r, hr⟩ := Option.isSome_iff_exists.1
      (h (s, n) (mem_of_lookup_eq_some hkept))
    exact .inl ⟨n, r, by rw [hkept]; exact hr, hr, heq⟩
  · exact .inr ⟨by rw [hnone]; rfl, heq⟩

theorem results?_append : ∀ {es es' : List (ScopeName × Nat)} {rs rs' : List (ScopeName × R)},
    t.results? es = some rs → t.results? es' = some rs' →
      t.results? (es ++ es') = some (rs ++ rs')
  | [], _, _, _, h, h' => by
    cases h
    exact h'
  | (s, n) :: es, es', rs, rs', h, h' => by
    rw [results?] at h
    split at h
    · next r rs₀ hr hrs =>
      cases h
      rw [List.cons_append, results?, hr, results?_append hrs h']
      rfl
    · cases h

/-- Where results stay, those of several jobs do. -/
theorem results?_mono (hmono : ∀ n a, t.result? n = some a → t'.result? n = some a) :
    ∀ {es : List (ScopeName × Nat)} {rs : List (ScopeName × R)},
      t.results? es = some rs → t'.results? es = some rs
  | [], _, h => h
  | (s, n) :: es, rs, h => by
    rw [results?] at h
    split at h
    · next r rs₀ hr hrs =>
      rw [results?, hmono n r hr, results?_mono hmono hrs]
      exact h
    · cases h

/-- Which job a request joins has nothing to do with other requests. -/
theorem join_requests (t : JobTable W R) (requests : List (Request R)) (s : ScopeName) (work : W) :
    { t with requests := requests }.join s work =
      ((t.join s work).1, { (t.join s work).2 with requests := requests }) := by
  unfold join
  cases t.kept.lookup s with
  | some n => rfl
  | none => rfl

/-- The last request receives the result of its job. -/
theorem receive_last {requests : List (Request R)} {r : R}
    (hrequests : t.requests = requests ++ [⟨s, n, none⟩]) (hresult : t.result? n = some r) :
    t.receive requests.length = { t with requests := requests ++ [⟨s, n, some r⟩] } := by
  rw [receive, hrequests, List.modify_eq_set_getElem?, List.getElem?_concat_length]
  simp [hresult]

theorem AtRest.forget (h : t.AtRest) (s : ScopeName) : (t.forget s).AtRest :=
  fun e he => h e (List.mem_filter.1 he).1

theorem finished_forget (t : JobTable W R) (s : ScopeName) :
    (t.forget s).finished = t.finished.filter (·.1 != s) := by
  have hkept : (t.forget s).kept = t.kept.filter (·.1 != s) := rfl
  have hresult : ∀ n, (t.forget s).result? n = t.result? n := fun _ => rfl
  unfold finished
  rw [hkept, List.filterMap_filter, List.filter_filterMap]
  refine List.filterMap_congr fun e _ => ?_
  rw [hresult]
  cases t.result? e.2 with
  | none => simp
  | some r => simp [Option.filter]

end JobTable

end Highlight
