import Highlight.Proofs.JobTables

/-!
# Requests that share their work

Each event does to each table of a desk one of the things that events can do to tables
(`next_documents`, `next_grammars`, `next_tokenizers`). So all that is proved of tables holds after
any events in any order: the loader is not asked more often than a scope is forgotten, but for once
(`count_asked_le`), requests that have joined a job receive the same, and so do all requests that
are made while a scope is not forgotten (`joinOne`). For tokenizers the languages count that the
first of these requests named (`languages_of_first`, `receiveOne_of_first`). That requests receive
anything at all depends on the work that is done for them (`ServesEach`).
-/

namespace Highlight

namespace Desk

variable {d : Desk}

/-- Whether the event makes the library forget the scope. -/
def Event.forgets (s : ScopeName) : Event → Bool
  | forget s' => s' == s
  | forgetTokenizer s' => s' == s
  | _ => false

/-- The result of the work for a document comes of an answer. -/
def Answers (s : ScopeName) : Job LoadWork (LoadResult CompiledGrammar) → Prop
  | .running _ => True
  | .done r => ∃ answer, r.map Loaded.value = Library.compileAnswer s answer

/-- The work for a tokenizer keeps its languages, and the tokenizer gets them. -/
def Carries (language : LanguageId) (embedded : List (ScopeName × LanguageId)) :
    Job TokenizerWork (LoadResult Tokenizer) → Prop
  | .running work => work.language = language ∧ work.embedded = embedded
  | .done (.ok t) => t.value.language = language ∧ t.value.embedded = embedded
  | .done (.error _) => True

/-! ### How work goes on -/

theorem ask_cases (d : Desk) (n : Nat) : d.ask n = d ∨ ∃ s,
    d.documents.work? n = some (s, .start) ∧ d.ask n = { d with
      documents := d.documents.proceed n (.running .asked)
      asked := s :: d.asked } := by
  unfold ask
  split
  · next s hwork => exact .inr ⟨s, hwork, rfl⟩
  · exact .inl rfl

theorem answer_cases (d : Desk) (n : Nat) (loader : Loader) : d.answer n loader = d ∨
    ∃ s r registered serial, d.documents.work? n = some (s, .asked) ∧ Answers s (.done r) ∧
      d.answer n loader = { d with
        documents := d.documents.proceed n (.done r)
        registered := registered
        serial := serial } := by
  unfold answer
  split
  · next s hwork =>
    split
    · next e heq =>
      exact .inr ⟨s, .error e, d.registered, d.serial, hwork, ⟨_, heq.symm⟩, rfl⟩
    · next g heq =>
      exact .inr ⟨s, .ok ⟨d.serial, g⟩, _, _, hwork, ⟨_, heq.symm⟩, rfl⟩
  · exact .inl rfl

/-- A walk that goes on changes nothing but its job. -/
theorem walkOn_eq (d : Desk) (n : Nat) (root : CompiledGrammar) (injectors : List ScopeName)
    (walk : Library.Walk) (results : List (ScopeName × LoadResult CompiledGrammar)) :
    ∃ job serial, d.walkOn n root injectors walk results = { d with
      grammars := d.grammars.proceed n job
      serial := serial } := by
  unfold walkOn
  split
  · split
    · exact ⟨_, d.serial, rfl⟩
    · exact ⟨_, _, rfl⟩
  · split
    · exact ⟨_, d.serial, rfl⟩
    · exact ⟨_, d.serial, rfl⟩

theorem link_cases (d : Desk) (n : Nat) (loader : Loader) : d.link n loader = d ∨
    ∃ s work job, d.grammars.work? n = some (s, work) ∧
      ((∃ s', d.link n loader = { d with
        documents := (d.documents.join s' .start).2
        grammars := d.grammars.proceed n job }) ∨
      ∃ serial, d.link n loader = { d with
        grammars := d.grammars.proceed n job
        serial := serial }) := by
  unfold link
  split
  · next s hwork => exact .inr ⟨s, _, _, hwork, .inl ⟨s, rfl⟩⟩
  · next s k hwork =>
    split
    · exact .inl rfl
    · exact .inr ⟨s, _, _, hwork, .inr ⟨d.serial, rfl⟩⟩
    · exact .inr ⟨s, _, _, hwork, .inr ⟨d.serial, rfl⟩⟩
  · next s root injectors walk waiting s' rest hwork =>
    exact .inr ⟨s, _, _, hwork, .inl ⟨s', rfl⟩⟩
  · next s root injectors walk waiting hwork =>
    split
    · exact .inl rfl
    · next results _ =>
      obtain ⟨job, serial, heq⟩ := walkOn_eq d n root injectors walk results
      exact .inr ⟨s, _, job, hwork, .inr ⟨serial, heq⟩⟩
  · exact .inl rfl

theorem make_cases (d : Desk) (n : Nat) : d.make n = d ∨
    ∃ s work job, d.tokenizers.work? n = some (s, work) ∧
      Carries work.language work.embedded job ∧
      ((∃ s', d.make n = { d with
        grammars := (d.grammars.join s' .start).2
        tokenizers := d.tokenizers.proceed n job }) ∨
      ∃ serial, d.make n = { d with
        tokenizers := d.tokenizers.proceed n job
        serial := serial }) := by
  unfold make
  split
  · next s language embedded hwork =>
    refine .inr ⟨s, _, _, hwork, ?_, .inl ⟨s, rfl⟩⟩
    exact ⟨rfl, rfl⟩
  · next s language embedded k hwork =>
    split
    · exact .inl rfl
    · refine .inr ⟨s, _, _, hwork, ?_, .inr ⟨d.serial, rfl⟩⟩
      trivial
    · refine .inr ⟨s, _, _, hwork, ?_, .inr ⟨_, rfl⟩⟩
      exact ⟨rfl, rfl⟩
  · exact .inl rfl

/-! ### What work leaves alone -/

theorem ask_frame (d : Desk) (n : Nat) :
    (d.ask n).grammars = d.grammars ∧ (d.ask n).tokenizers = d.tokenizers := by
  rcases ask_cases d n with heq | ⟨s, hwork, heq⟩
  · rw [heq]
    exact ⟨rfl, rfl⟩
  · rw [heq]
    exact ⟨rfl, rfl⟩

theorem answer_frame (d : Desk) (n : Nat) (loader : Loader) :
    (d.answer n loader).grammars = d.grammars ∧ (d.answer n loader).tokenizers = d.tokenizers ∧
      (d.answer n loader).asked = d.asked := by
  rcases answer_cases d n loader with heq | ⟨s, r, registered, serial, hwork, hanswers, heq⟩
  · rw [heq]
    exact ⟨rfl, rfl, rfl⟩
  · rw [heq]
    exact ⟨rfl, rfl, rfl⟩

theorem link_frame (d : Desk) (n : Nat) (loader : Loader) :
    (d.link n loader).tokenizers = d.tokenizers ∧ (d.link n loader).asked = d.asked := by
  rcases link_cases d n loader with heq | ⟨_, _, _, _, ⟨s, heq⟩ | ⟨serial, heq⟩⟩
  · rw [heq]
    exact ⟨rfl, rfl⟩
  · rw [heq]
    exact ⟨rfl, rfl⟩
  · rw [heq]
    exact ⟨rfl, rfl⟩

theorem make_frame (d : Desk) (n : Nat) :
    (d.make n).documents = d.documents ∧ (d.make n).asked = d.asked := by
  rcases make_cases d n with heq | ⟨_, _, _, _, _, ⟨s, heq⟩ | ⟨serial, heq⟩⟩
  · rw [heq]
    exact ⟨rfl, rfl⟩
  · rw [heq]
    exact ⟨rfl, rfl⟩
  · rw [heq]
    exact ⟨rfl, rfl⟩

/-! ### What an event does to the tables -/

theorem next_documents (d : Desk) (e : Event) :
    d.documents.Step (fun _ _ => True) (fun s _ job => Answers s job) (fun s => e.forgets s = true)
      (d.next e).documents := by
  cases e with
  | load s => exact .request trivial
  | forget s => exact .forget (beq_self_eq_true s)
  | forgetTokenizer s => exact .forget (beq_self_eq_true s)
  | receiveDocument i => exact .receive
  | ask n =>
    rw [next]
    rcases ask_cases d n with heq | ⟨s, hwork, heq⟩
    · rw [heq]
      exact .idle
    · rw [heq]
      exact .proceed hwork trivial
  | answer n loader =>
    rw [next]
    rcases answer_cases d n loader with heq | ⟨s, r, registered, serial, hwork, hanswers, heq⟩
    · rw [heq]
      exact .idle
    · rw [heq]
      exact .proceed hwork hanswers
  | link n loader =>
    rw [next]
    rcases link_cases d n loader with heq | ⟨_, _, _, _, ⟨s, heq⟩ | ⟨serial, heq⟩⟩
    · rw [heq]
      exact .idle
    · rw [heq]
      exact .join trivial
    · rw [heq]
      exact .idle
  | make n =>
    rw [next, (make_frame d n).1]
    exact .idle
  | _ => exact .idle

theorem next_grammars (d : Desk) (e : Event) :
    d.grammars.Step (fun _ _ => True) (fun _ _ _ => True) (fun s => e.forgets s = true)
      (d.next e).grammars := by
  cases e with
  | loadGrammar s => exact .request trivial
  | forget s => exact .forget (beq_self_eq_true s)
  | forgetTokenizer s => exact .forget (beq_self_eq_true s)
  | receiveGrammar i => exact .receive
  | ask n =>
    rw [next, (ask_frame d n).1]
    exact .idle
  | answer n loader =>
    rw [next, (answer_frame d n loader).1]
    exact .idle
  | link n loader =>
    rw [next]
    rcases link_cases d n loader with heq | ⟨_, _, _, hwork, ⟨s, heq⟩ | ⟨serial, heq⟩⟩
    · rw [heq]
      exact .idle
    · rw [heq]
      exact .proceed hwork trivial
    · rw [heq]
      exact .proceed hwork trivial
  | make n =>
    rw [next]
    rcases make_cases d n with heq | ⟨_, _, _, _, _, ⟨s, heq⟩ | ⟨serial, heq⟩⟩
    · rw [heq]
      exact .idle
    · rw [heq]
      exact .join trivial
    · rw [heq]
      exact .idle
  | _ => exact .idle

/-- Work for a tokenizer begins with a request that names its languages, which it keeps. -/
theorem next_tokenizers (d : Desk) (e : Event) :
    d.tokenizers.Step (fun s work => e = .tokenizer s work.language work.embedded)
      (fun _ work job => Carries work.language work.embedded job) (fun s => e = .forgetTokenizer s)
      (d.next e).tokenizers := by
  cases e with
  | tokenizer s language embedded => exact .request rfl
  | forgetTokenizer s => exact .forget rfl
  | receiveTokenizer i => exact .receive
  | ask n =>
    rw [next, (ask_frame d n).2]
    exact .idle
  | answer n loader =>
    rw [next, (answer_frame d n loader).2.1]
    exact .idle
  | link n loader =>
    rw [next, (link_frame d n loader).1]
    exact .idle
  | make n =>
    rw [next]
    rcases make_cases d n with heq | ⟨_, _, _, hwork, hcarries, ⟨s, heq⟩ | ⟨serial, heq⟩⟩
    · rw [heq]
      exact .idle
    · rw [heq]
      exact .proceed hwork hcarries
    · rw [heq]
      exact .proceed hwork hcarries
  | _ => exact .idle

/-! ## All events in any order -/

/-- The tables are sound. -/
structure Sound (d : Desk) : Prop where
  documents : d.documents.Sound
  grammars : d.grammars.Sound
  tokenizers : d.tokenizers.Sound

theorem empty_sound (theme : Theme) : (empty theme).Sound :=
  ⟨JobTable.empty_sound, JobTable.empty_sound, JobTable.empty_sound⟩

theorem Sound.next (h : d.Sound) (e : Event) : (d.next e).Sound :=
  ⟨(next_documents d e).sound h.documents, (next_grammars d e).sound h.grammars,
    (next_tokenizers d e).sound h.tokenizers⟩

/-- What every event keeps, all events keep. -/
theorem run_induct {P : Desk → Prop} (hnext : ∀ d e, P d → P (d.next e)) :
    ∀ {d : Desk} (events : List Event), P d → P (d.run events)
  | _, [], h => h
  | d, e :: events, h => run_induct hnext events (hnext d e h)

theorem Sound.run (h : d.Sound) (events : List Event) : (d.run events).Sound :=
  run_induct (fun _ e h => h.next e) events h

/-! ### How often the loader is asked -/

/-- The loader has been asked for the document. -/
def hasAsked : Job LoadWork (LoadResult CompiledGrammar) → Bool
  | .running .start => false
  | _ => true

@[simp] theorem hasAsked_start : hasAsked (.running .start) = false := rfl

@[simp] theorem hasAsked_asked : hasAsked (.running .asked) = true := rfl

@[simp] theorem hasAsked_done (r : LoadResult CompiledGrammar) : hasAsked (.done r) = true := rfl

/-- The loader has been asked as often as there are jobs that say so. -/
def Counted (d : Desk) : Prop :=
  ∀ s, d.asked.count s = d.documents.jobs.countP fun j => j.1 == s && hasAsked j.2

theorem join_hasAsked (t : JobTable LoadWork (LoadResult CompiledGrammar)) (s s' : ScopeName) :
    ((t.join s' .start).2.jobs.countP fun j => j.1 == s && hasAsked j.2) =
      t.jobs.countP fun j => j.1 == s && hasAsked j.2 := by
  rcases t.join_cases s' .start with ⟨_, _, heq⟩ | ⟨_, heq⟩
  · rw [heq]
  · rw [heq, List.countP_append, List.countP_singleton, hasAsked_start, Bool.and_false]
    rfl

theorem Counted.next (h : d.Counted) (e : Event) : (d.next e).Counted := by
  intro s
  cases e with
  | load s' =>
    rw [Desk.next, JobTable.request_eq]
    exact (h s).trans (join_hasAsked d.documents s s').symm
  | ask n =>
    rw [Desk.next]
    rcases ask_cases d n with heq | ⟨s', hwork, heq⟩
    · rw [heq]
      exact h s
    · have hcount := JobTable.countP_proceed (fun j => j.1 == s && hasAsked j.2) hwork
        (.running .asked)
      simp only [hasAsked_start, hasAsked_asked, Bool.and_false, Bool.and_true, Bool.toNat_false,
        Nat.add_zero] at hcount
      rw [heq, List.count_cons, h s]
      dsimp only
      rw [hcount]
      cases s' == s with
      | false => rfl
      | true => rfl
  | answer n loader =>
    rw [Desk.next]
    rcases answer_cases d n loader with heq | ⟨s', r, registered, serial, hwork, _, heq⟩
    · rw [heq]
      exact h s
    · have hcount := JobTable.countP_proceed (fun j => j.1 == s && hasAsked j.2) hwork (.done r)
      simp only [hasAsked_asked, hasAsked_done, Nat.add_right_cancel_iff] at hcount
      rw [heq]
      exact (h s).trans hcount.symm
  | link n loader =>
    rw [Desk.next]
    rcases link_cases d n loader with heq | ⟨_, _, _, _, ⟨s', heq⟩ | ⟨serial, heq⟩⟩
    · rw [heq]
      exact h s
    · rw [heq]
      exact (h s).trans (join_hasAsked d.documents s s').symm
    · rw [heq]
      exact h s
  | make n =>
    rw [Desk.next, (make_frame d n).1, (make_frame d n).2]
    exact h s
  | _ => exact h s

theorem empty_counted (theme : Theme) : (empty theme).Counted := fun _ => rfl

/-- There are no more jobs for documents of a scope than it has been forgotten, but for one. -/
theorem slots_run_le (s : ScopeName) : ∀ (events : List Event) (d : Desk),
    (d.run events).documents.slots s ≤ d.documents.slots s + events.countP (·.forgets s)
  | [], _ => Nat.le_refl _
  | e :: events, d => by
    have hrest := slots_run_le s events (d.next e)
    rw [List.countP_cons]
    show (((d.next e).run events).documents.slots s ≤ _)
    rcases (next_documents d e).slots_le s with hle | ⟨hforgets, hle⟩
    · omega
    · rw [if_pos hforgets]
      omega

/-- The loader is asked for a document at most once more than it has been forgotten. -/
theorem count_asked_le (theme : Theme) (events : List Event) (s : ScopeName) :
    ((empty theme).run events).asked.count s ≤ events.countP (·.forgets s) + 1 := by
  have hcounted : ((empty theme).run events).Counted :=
    run_induct (fun _ e h => h.next e) events (empty_counted theme)
  calc ((empty theme).run events).asked.count s
      ≤ ((empty theme).run events).documents.jobs.countP (·.1 == s) := by
        rw [hcounted s]
        refine List.countP_mono_left fun j _ hj => ?_
        exact (Bool.and_eq_true_iff.1 hj).1
    _ ≤ ((empty theme).run events).documents.slots s := Nat.le_add_right _ _
    _ ≤ (empty theme).documents.slots s + events.countP (·.forgets s) :=
        slots_run_le s events _
    _ = events.countP (·.forgets s) + 1 := Nat.add_comm _ _

/-! ### What requests receive -/

theorem run_append (d : Desk) (events events' : List Event) :
    d.run (events ++ events') = (d.run events).run events' := List.foldl_append ..

section

variable {W R : Type} {table : Desk → JobTable W R} {begins : Event → ScopeName → W → Prop}
  {goesOn : ScopeName → W → Job W R → Prop} {forgets : Event → ScopeName → Prop}
  (hstep : ∀ d e, (table d).Step (begins e) goesOn (forgets e) (table (d.next e)))
  {s : ScopeName}

include hstep

/-- Requests keep their scopes and jobs. -/
theorem run_requests : ∀ (events : List Event) {d : Desk} {i : Nat} {r : Request R},
    (table d).requests[i]? = some r → ∃ r' : Request R,
      (table (d.run events)).requests[i]? = some r' ∧ r'.scope = r.scope ∧ r'.job = r.job
  | [], _, _, r, hr => ⟨r, hr, rfl, rfl⟩
  | e :: events, d, _, _, hr => by
    obtain ⟨r₁, hr₁, hscope₁, hjob₁⟩ := (hstep d e).requests hr
    obtain ⟨r₂, hr₂, hscope₂, hjob₂⟩ := run_requests events hr₁
    exact ⟨r₂, hr₂, hscope₂.trans hscope₁, hjob₂.trans hjob₁⟩

/-- A job keeps its scope and what it keeps when it goes on. -/
theorem run_job {P : Job W R → Prop}
    (hgo : ∀ work job, goesOn s work job → P (.running work) → P job) {n : Nat} :
    ∀ (events : List Event) {d : Desk}, (∃ job, (table d).jobs[n]? = some (s, job) ∧ P job) →
      ∃ job, (table (d.run events)).jobs[n]? = some (s, job) ∧ P job
  | [], _, h => h
  | e :: events, d, ⟨_, hjob, hP⟩ => run_job hgo events ((hstep d e).exists_job hgo hjob hP)

theorem run_joins {m : Nat} : ∀ (events : List Event) {d : Desk}, (∀ e ∈ events, ¬forgets e s) →
    (table d).Joins m s → (table (d.run events)).Joins m s
  | [], _, _, h => h
  | e :: events, d, hevents, h =>
    run_joins events (fun e he => hevents e (List.mem_cons_of_mem _ he))
      ((hstep d e).joins (hevents e List.mem_cons_self) h)

theorem run_kept_none : ∀ (events : List Event) {d : Desk},
    (∀ e ∈ events, ∀ work, ¬begins e s work) → (table d).kept.lookup s = none →
      (table (d.run events)).kept.lookup s = none
  | [], _, _, h => h
  | e :: events, d, hevents, h =>
    run_kept_none events (fun e he => hevents e (List.mem_cons_of_mem _ he))
      ((hstep d e).kept_none (hevents e List.mem_cons_self) h)

/-- A request that was made before some events is still there after them, and if it joined the job
that was kept then, that is its job. -/
theorem job_of_joins {m i : Nat} {d : Desk} {events : List Event} {r : Request R}
    (hjoins : (table d).Joins m s) (hm : m ≤ i) (hi : i < (table d).requests.length)
    (hr : (table (d.run events)).requests[i]? = some r) (hs : r.scope = s) :
    (table d).kept.lookup s = some r.job := by
  obtain ⟨r', hr', hscope, hjob⟩ := run_requests hstep events (List.getElem?_eq_getElem hi)
  cases hr.symm.trans hr'
  rw [hjob]
  exact hjoins i _ hm (List.getElem?_eq_getElem hi) (hscope.symm.trans hs)

end

/-- The requests for a scope with numbers from `m` to below `n` have joined one job. -/
def JoinOne {W R : Type} (t : JobTable W R) (s : ScopeName) (m n : Nat) : Prop :=
  ∀ i j r r', m ≤ i → i < n → m ≤ j → j < n → t.requests[i]? = some r → t.requests[j]? = some r' →
    r.scope = s → r'.scope = s → r.job = r'.job

/-- The requests for a scope that are made between two times it is forgotten join one job. -/
theorem joinOne {W R : Type} {table : Desk → JobTable W R}
    {begins : Event → ScopeName → W → Prop} {goesOn : ScopeName → W → Job W R → Prop}
    {forgets : Event → ScopeName → Prop}
    (hstep : ∀ d e, (table d).Step (begins e) goesOn (forgets e) (table (d.next e)))
    {s : ScopeName} (d : Desk) (before : List Event) {window : List Event} (after : List Event)
    (hwindow : ∀ e ∈ window, ¬forgets e s) :
    JoinOne (table (d.run (before ++ window ++ after))) s (table (d.run before)).requests.length
      (table (d.run (before ++ window))).requests.length := by
  have hjoins := run_joins hstep window hwindow ((table (d.run before)).joins_length s)
  intro i j r r' hi hi' hj hj' hr hr' hs hs'
  rw [run_append, run_append] at hr hr'
  rw [run_append] at hi' hj'
  have hjob := job_of_joins hstep hjoins hi hi' hr hs
  rw [job_of_joins hstep hjoins hj hj' hr' hs'] at hjob
  exact (Option.some.inj hjob).symm

/-- A tokenizer is requested and no work for it is kept. The requests for it from then on until it
is forgotten receive tokenizers with the languages that the first of them named. -/
theorem languages_of_first {d : Desk} (hsound : d.Sound) {s : ScopeName} {language : LanguageId}
    {embedded : List (ScopeName × LanguageId)} (hnone : d.tokenizers.kept.lookup s = none)
    (later after : List Event) (hlater : ∀ e ∈ later, e ≠ .forgetTokenizer s)
    {i : Nat} {r : Request (LoadResult Tokenizer)} (hi : d.tokenizers.requests.length ≤ i)
    (hi' : i < (d.run (.tokenizer s language embedded :: later)).tokenizers.requests.length)
    (hr : (d.run (.tokenizer s language embedded :: later ++ after)).tokenizers.requests[i]? =
      some r)
    (hs : r.scope = s) {t : Loaded Tokenizer} (ht : r.received = some (.ok t)) :
    t.value.language = language ∧ t.value.embedded = embedded := by
  let m := d.tokenizers.requests.length
  let n := d.tokenizers.jobs.length
  let first := d.next (.tokenizer s language embedded)
  have hfirst : first.tokenizers = {
      jobs := d.tokenizers.jobs ++ [(s, .running ⟨language, embedded, none⟩)]
      kept := (s, n) :: d.tokenizers.kept
      requests := d.tokenizers.requests ++ [⟨s, n, none⟩] } := by
    show d.tokenizers.request s ⟨language, embedded, none⟩ = _
    rcases d.tokenizers.join_cases s ⟨language, embedded, none⟩ with ⟨_, hkept, _⟩ | ⟨_, heq⟩
    · cases hnone.symm.trans hkept
    · rw [JobTable.request_eq, heq]
  -- the first request joins a job with its languages, and all later ones join that job
  have hjoins : (first.run later).tokenizers.Joins m s :=
    run_joins next_tokenizers later hlater
      ((next_tokenizers d _).joins (fun h => nomatch h) (d.tokenizers.joins_length s))
  have hkept : (first.run later).tokenizers.kept.lookup s = some n := by
    have hrequest : first.tokenizers.requests[m]? = some ⟨s, n, none⟩ := by
      rw [hfirst]
      exact List.getElem?_concat_length
    obtain ⟨r', hr', hscope, hjob⟩ := run_requests next_tokenizers later hrequest
    rw [hjoins m r' (Nat.le_refl m) hr' hscope, hjob]
  rw [List.cons_append] at hr
  have hrun : d.run (.tokenizer s language embedded :: (later ++ after)) =
      (first.run later).run after := run_append first later after
  rw [hrun] at hr
  have hjob : n = r.job := Option.some.inj
    (hkept.symm.trans (job_of_joins next_tokenizers hjoins hi hi' hr hs))
  obtain ⟨job, hn, hcarries⟩ : ∃ job,
      ((first.run later).run after).tokenizers.jobs[n]? = some (s, job) ∧
        Carries language embedded job := by
    rw [← run_append]
    refine run_job next_tokenizers ?_ (later ++ after) ⟨.running ⟨language, embedded, none⟩, ?_, ?_⟩
    · rintro work job hgo ⟨rfl, rfl⟩
      exact hgo
    · rw [hfirst]
      exact List.getElem?_concat_length
    · exact ⟨rfl, rfl⟩
  have hsound' : ((first.run later).run after).Sound := ((hsound.next _).run later).run after
  have hresult := hsound'.tokenizers.received r (List.mem_of_getElem? hr) _ ht
  rw [← hjob] at hresult
  obtain ⟨s', hn'⟩ := JobTable.result?_eq_some_iff.1 hresult
  cases hn.symm.trans hn'
  exact hcarries

/-- The requests for a scope with numbers from `m` to below `n` have received one result, if any,
and it is one of these. -/
def ReceiveOne {W R : Type} (t : JobTable W R) (s : ScopeName) (m n : Nat) (P : R → Prop) : Prop :=
  ∀ i j r r' a a', m ≤ i → i < n → m ≤ j → j < n → t.requests[i]? = some r →
    t.requests[j]? = some r' → r.scope = s → r'.scope = s → r.received = some a →
      r'.received = some a' → a = a' ∧ P a

/-- Nothing is kept before anything has happened, or just after it is forgotten. -/
theorem kept_of_fresh {theme : Theme} {s : ScopeName} {before : List Event}
    (h : before = [] ∨ ∃ earlier, before = earlier ++ [.forgetTokenizer s]) :
    ((empty theme).run before).tokenizers.kept.lookup s = none := by
  rcases h with rfl | ⟨earlier, rfl⟩
  · rfl
  · rw [run_append]
    have hlookup := lookup_filter_key (· != s) s ((empty theme).run earlier).tokenizers.kept
    exact hlookup.trans (if_neg (by simp))

/-- From when a tokenizer is first requested, nothing being kept, until it is forgotten, all requests
for it receive the same, and if that is a tokenizer, it has the languages of the first request. -/
theorem receiveOne_of_first (theme : Theme) {s : ScopeName} (language : LanguageId)
    (embedded : List (ScopeName × LanguageId)) {before early later : List Event}
    (rest : List Event)
    (hfresh : before = [] ∨ ∃ earlier, before = earlier ++ [.forgetTokenizer s])
    (hearly : ∀ language' embedded', .tokenizer s language' embedded' ∉ early)
    (hlater : .forgetTokenizer s ∉ later) :
    let first := (empty theme).run (before ++ early)
    let events := .tokenizer s language embedded :: later
    ReceiveOne (first.run (events ++ rest)).tokenizers s first.tokenizers.requests.length
      (first.run events).tokenizers.requests.length fun result => ∀ t, result = .ok t →
        t.value.language = language ∧ t.value.embedded = embedded := by
  intro first events
  have hsound : (first.run (events ++ rest)).Sound := ((empty_sound theme).run _).run _
  have hnone : first.tokenizers.kept.lookup s = none := by
    show ((empty theme).run (before ++ early)).tokenizers.kept.lookup s = none
    rw [run_append]
    refine run_kept_none next_tokenizers early ?_ (kept_of_fresh hfresh)
    exact fun e he work hbegins => hearly _ _ (hbegins ▸ he)
  have hevents : ∀ e ∈ events, e ≠ .forgetTokenizer s := by
    rintro e he rfl
    rcases List.mem_cons.1 he with heq | he
    · cases heq
    · exact hlater he
  have hone := joinOne next_tokenizers first [] rest hevents
  intro i j r r' a a' hi hi' hj hj' hr hr' hs hs' ha ha'
  have hjob := hone i j r r' hi hi' hj hj' hr hr' hs hs'
  refine ⟨(hsound.tokenizers.agrees r (List.mem_of_getElem? hr) r' (List.mem_of_getElem? hr') hjob
    a ha).1 a' ha', ?_⟩
  rintro t rfl
  exact languages_of_first ((empty_sound theme).run _) hnone later rest
    (fun e he heq => hlater (heq ▸ he)) hi hi' hr hs ha

end Desk

end Highlight
