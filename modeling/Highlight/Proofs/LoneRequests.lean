import Mathlib.Logic.Relation
import Highlight.Proofs.RetriedLoads
import Highlight.Proofs.SharedRequests

/-!
# Requests that are alone

A library does at once what a desk does in many events, between which others may happen. Where none
does, it comes to the same: from a desk at rest a request leads to a desk at rest that keeps what
the library or the workshop keeps then, and it receives the answer that they give (`load_alone`,
`loadGrammar_alone`, `tokenizer_alone`). The proofs follow the work: a document is loaded
(`load_leads`), then a wave of documents (`loadAll_leads`), a walk by induction on its waves
(`walkFrom_leads`), then what the walk has found is linked (`link_leads`). So whatever is done with
a workshop, one thing after another, is among what can happen at a desk (`exists_run_of_reached`).

`shared_requests` puts this together with what holds of requests that share their work, whatever
happens between the events of one and those of another.
-/

namespace Highlight

open Relation (ReflTransGen)

namespace Desk

/-- Work goes on or requests receive results, while this loader answers. -/
def Event.Serves (loader : Loader) : Event → Prop
  | ask _ | make _ | receiveDocument _ | receiveGrammar _ | receiveTokenizer _ => True
  | answer _ loader' | link _ loader' => loader' = loader
  | _ => False

/-- With no other requests, work leads from one desk to another while the loader answers. -/
def Leads (loader : Loader) : Desk → Desk → Prop :=
  ReflTransGen fun d d' => ∃ e : Event, e.Serves loader ∧ d' = d.next e

variable {loader : Loader} {d d₁ d₂ : Desk} {l l₁ l₂ : Library}

theorem Leads.event (e : Event) (h : e.Serves loader) (hnext : d.next e = d₁) :
    Leads loader d d₁ := .single ⟨e, h, hnext.symm⟩

theorem Leads.trans (h : Leads loader d d₁) (h' : Leads loader d₁ d₂) : Leads loader d d₂ :=
  ReflTransGen.trans h h'

theorem Leads.exists_events (h : Leads loader d d₁) :
    ∃ events : List Event, (∀ e ∈ events, e.Serves loader) ∧ d.run events = d₁ := by
  induction h with
  | refl => exact ⟨[], nofun, rfl⟩
  | tail _ hlast ih =>
    obtain ⟨events, hof, heq⟩ := ih
    obtain ⟨e, he, rfl⟩ := hlast
    refine ⟨events ++ [e], fun e' he' => ?_, ?_⟩
    · rcases List.mem_append.1 he' with he' | he'
      · exact hof e' he'
      · rw [List.mem_singleton.1 he']
        exact he
    · rw [run_append, heq]
      rfl

/-- From one desk to the other documents have been loaded, so that the library is this one. -/
structure Loads (d d₁ : Desk) (l : Library) : Prop where
  rest : d₁.documents.AtRest
  library : d₁.library = l
  results : ∀ n a, d.documents.result? n = some a → d₁.documents.result? n = some a
  requests : d₁.documents.requests = d.documents.requests
  grammars : d₁.grammars = d.grammars
  tokenizers : d₁.tokenizers = d.tokenizers

theorem Loads.refl (h : d.documents.AtRest) : d.Loads d d.library :=
  ⟨h, rfl, fun _ _ h => h, rfl, rfl, rfl⟩

theorem Loads.trans (h : d.Loads d₁ l₁) (h' : d₁.Loads d₂ l₂) : d.Loads d₂ l₂ where
  rest := h'.rest
  library := h'.library
  results n a ha := h'.results n a (h.results n a ha)
  requests := h'.requests.trans h.requests
  grammars := h'.grammars.trans h.grammars
  tokenizers := h'.tokenizers.trans h.tokenizers

/-! ### Loading a document -/

theorem Loads.done (h : d.documents.AtRest) (s : ScopeName) (r : LoadResult CompiledGrammar)
    (registered : List (ScopeName × List ScopeName)) (serial : Nat) :
    d.Loads { d with
        documents := d.documents.withJob s (.done r)
        registered := registered
        asked := s :: d.asked
        serial := serial } { d.library with
        compiled := (s, r) :: d.documents.finished
        registered := registered
        requests := s :: d.asked
        serial := serial } := by
  obtain ⟨hrest, hfinished⟩ := h.withJob s r
  refine ⟨hrest, ?_, fun n a ha => JobTable.result?_withJob ha s _, rfl, rfl, rfl⟩
  unfold Desk.library
  rw [hfinished]

/-- The loader is asked for a document that is not kept, and answers at once. -/
theorem fetch_leads (h : d.documents.AtRest) (loader : Loader) (s : ScopeName)
    (grammars : JobTable LinkWork (LoadResult Grammar)) :
    ∃ d₁, d.Loads d₁ { (d.library.fetch loader s).2 with
        compiled := (s, (d.library.fetch loader s).1) :: (d.library.fetch loader s).2.compiled } ∧
      d₁.documents.result? d.documents.jobs.length = some (d.library.fetch loader s).1 ∧
      Leads loader { d with
        documents := d.documents.withJob s (.running .start)
        grammars := grammars } { d₁ with grammars := grammars } := by
  let n := d.documents.jobs.length
  let start : Desk := { d with
    documents := d.documents.withJob s (.running .start)
    grammars := grammars }
  let asked : Desk := { start with
    documents := d.documents.withJob s (.running .asked)
    asked := s :: d.asked }
  have hask : start.next (.ask n) = asked := by
    rw [next, ask, JobTable.withJob_work?, JobTable.withJob_proceed]
  have hanswer : asked.next (.answer n loader) = asked.answer n loader := rfl
  unfold answer at hanswer
  rw [JobTable.withJob_work?] at hanswer
  dsimp only at hanswer
  unfold Library.fetch
  revert hanswer
  cases Library.compileAnswer s (loader.sources.lookup s) with
  | error e =>
    intro hanswer
    refine ⟨_, .done h s (.error e) d.registered d.serial, JobTable.withJob_result? .., ?_⟩
    refine (Leads.event (.ask n) trivial hask).trans (.event (.answer n loader) rfl ?_)
    rw [hanswer]
    dsimp only
    rw [JobTable.withJob_proceed]
  | ok g =>
    intro hanswer
    refine ⟨_, .done h s (.ok ⟨d.serial, g⟩) (d.library.register s g.injectTo).registered
      (d.serial + 1), JobTable.withJob_result? .., ?_⟩
    refine (Leads.event (.ask n) trivial hask).trans (.event (.answer n loader) rfl ?_)
    rw [hanswer]
    dsimp only
    rw [JobTable.withJob_proceed]
    rfl

/-- A document is requested and loaded, unless it is kept. -/
theorem load_leads (h : d.documents.AtRest) (loader : Loader) (s : ScopeName)
    (grammars : JobTable LinkWork (LoadResult Grammar)) :
    ∃ d₁, d.Loads d₁ (d.library.load loader s).2 ∧
      d₁.documents.result? (d.documents.join s .start).1 = some (d.library.load loader s).1 ∧
      Leads loader { d with
        documents := (d.documents.join s .start).2
        grammars := grammars } { d₁ with grammars := grammars } := by
  have hcompiled : d.library.compiled = d.documents.finished := rfl
  unfold Library.load
  rw [hcompiled]
  rcases h.join_cases s .start with ⟨n, r, hlookup, hr, heq⟩ | ⟨hlookup, heq⟩
  · rw [hlookup, heq]
    exact ⟨d, .refl h, hr, .refl⟩
  · rw [hlookup, heq]
    exact fetch_leads h loader s grammars

/-! ### Linking a grammar -/

/-- The desk with another table of grammars, where the last job is for this scope. -/
def linking (d : Desk) (t : JobTable LinkWork (LoadResult Grammar)) (scope : ScopeName)
    (job : Job LinkWork (LoadResult Grammar)) : Desk :=
  { d with grammars := t.withJob scope job }

section

variable {t : JobTable LinkWork (LoadResult Grammar)} {scope : ScopeName} {root : CompiledGrammar}
  {injectors : List ScopeName}

@[simp] theorem linking_documents (d : Desk) (job : Job LinkWork (LoadResult Grammar)) :
    (d.linking t scope job).documents = d.documents := rfl

@[simp] theorem linking_work? (d : Desk) (work : LinkWork) :
    (d.linking t scope (.running work)).grammars.work? t.jobs.length = some (scope, work) :=
  JobTable.withJob_work? t scope work

@[simp] theorem linking_proceed (d : Desk) (work : LinkWork)
    (job : Job LinkWork (LoadResult Grammar)) :
    (d.linking t scope (.running work)).grammars.proceed t.jobs.length job =
      t.withJob scope job :=
  JobTable.withJob_proceed t scope work job

/-- The document of the scope itself is requested. -/
theorem link_start (d : Desk) (loader : Loader) :
    (d.linking t scope (.running .start)).link t.jobs.length loader =
      { d with documents := (d.documents.join scope .start).2 }.linking t scope
        (.running (.root (d.documents.join scope .start).1)) := by
  rw [link, linking_work?]
  dsimp only
  rw [linking_proceed]
  rfl

theorem link_root_error (loader : Loader) {k : Nat} {e : GrammarError}
    (h : d.documents.result? k = some (.error e)) :
    (d.linking t scope (.running (.root k))).link t.jobs.length loader =
      d.linking t scope (.done (.error e)) := by
  rw [link, linking_work?]
  dsimp only
  rw [linking_documents, h]
  dsimp only
  rw [linking_proceed]
  rfl

/-- The walk begins with the document of the scope itself. -/
theorem link_root_ok (loader : Loader) {k : Nat} {root : Loaded CompiledGrammar}
    (h : d.documents.result? k = some (.ok root)) :
    let injectors := d.library.injectorsOf loader scope
    let start := Library.Walk.meet ⟨[scope], root.value.embedded.map fun s => (s, scope), []⟩
      (root.value.embedded ++ injectors)
    (d.linking t scope (.running (.root k))).link t.jobs.length loader =
      d.linking t scope (.running (.wave root.value injectors start.2 [] start.1)) := by
  intro injectors start
  rw [link, linking_work?]
  dsimp only
  rw [linking_documents, h]
  dsimp only
  rw [linking_proceed]
  rfl

/-- The next scope of a wave is requested. -/
theorem link_request (d : Desk) (loader : Loader) (walk : Library.Walk)
    (waiting : List (ScopeName × Nat)) (s : ScopeName) (wave : List ScopeName) :
    (d.linking t scope (.running (.wave root injectors walk waiting (s :: wave)))).link
        t.jobs.length loader =
      { d with documents := (d.documents.join s .start).2 }.linking t scope (.running
        (.wave root injectors walk (waiting ++ [(s, (d.documents.join s .start).1)]) wave)) := by
  rw [link, linking_work?]
  dsimp only
  rw [linking_proceed]
  rfl

variable (t scope root injectors) in
/-- A wave is requested scope by scope, and each document is loaded at once. -/
theorem loadAll_leads (loader : Loader) (walk : Library.Walk) : ∀ (wave : List ScopeName) {d : Desk}
    {waiting : List (ScopeName × Nat)} {results : List (ScopeName × LoadResult CompiledGrammar)},
    d.documents.AtRest → d.documents.results? waiting = some results →
      ∃ d₁ waiting', d.Loads d₁ (d.library.loadAll loader wave).2 ∧
        d₁.documents.results? waiting' = some (results ++ (d.library.loadAll loader wave).1) ∧
        Leads loader
          (d.linking t scope (.running (.wave root injectors walk waiting wave)))
          (d₁.linking t scope (.running (.wave root injectors walk waiting' [])))
  | [], d, waiting, results, h, hresults => by
    rw [Library.loadAll, List.append_nil]
    exact ⟨d, waiting, .refl h, hresults, .refl⟩
  | s :: wave, d, waiting, results, h, hresults => by
    obtain ⟨d₁, hloads, hresult, hleads⟩ := load_leads h loader s (t.withJob scope (.running
      (.wave root injectors walk (waiting ++ [(s, (d.documents.join s .start).1)]) wave)))
    have hresults₁ : d₁.documents.results? (waiting ++ [(s, (d.documents.join s .start).1)]) =
        some (results ++ [(s, (d.library.load loader s).1)]) := by
      refine JobTable.results?_append (JobTable.results?_mono hloads.results hresults) ?_
      rw [JobTable.results?, hresult]
      rfl
    obtain ⟨d₂, waiting', hloads', hresults', hleads'⟩ :=
      loadAll_leads loader walk wave hloads.rest hresults₁
    rw [hloads.library] at hloads' hresults'
    rw [List.append_assoc] at hresults'
    refine ⟨d₂, waiting', hloads.trans hloads', hresults', ?_⟩
    exact (Leads.event (.link t.jobs.length loader) rfl (link_request ..)).trans
      (hleads.trans hleads')

/-- A wave that is loaded leads to the next one, unless the walk cannot go on. -/
theorem link_wave (loader : Loader) (walk : Library.Walk) {waiting : List (ScopeName × Nat)}
    {results : List (ScopeName × LoadResult CompiledGrammar)}
    (h : d.documents.results? waiting = some results) (hne : results ≠ []) :
    (d.linking t scope (.running (.wave root injectors walk waiting []))).link t.jobs.length
      loader = d.linking t scope (match walk.addAll results with
        | .error e => .done (.error e)
        | .ok (next, walk) => .running (.wave root injectors walk [] next)) := by
  obtain ⟨r, results, rfl⟩ := List.exists_cons_of_ne_nil hne
  rw [link, linking_work?]
  dsimp only
  rw [linking_documents, h]
  dsimp only [walkOn]
  cases walk.addAll (r :: results) with
  | error e =>
    dsimp only
    rw [linking_proceed]
    rfl
  | ok next =>
    dsimp only
    rw [linking_proceed]
    rfl

/-- The job of a grammar after the walk of its root. -/
def walked (root : CompiledGrammar) (injectors : List ScopeName) :
    Except GrammarError Library.Walk → Job LinkWork (LoadResult Grammar)
  | .error e => .done (.error e)
  | .ok walk => .running (.wave root injectors walk [] [])

/-- The waves of a walk are loaded one after another. -/
theorem walkFrom_leads {loader loader' : Loader} : ∀ (waves : Nat) {d : Desk} {walk : Library.Walk}
    {loaded wave : List ScopeName},
    d.documents.AtRest → d.library.Keeps loader' → d.library.Alike loader loader' →
      walk.Covers loader' scope injectors root loaded wave →
      loader'.sources.length < waves + loaded.length →
      ∃ d₁, d.Loads d₁ (Library.walkFrom loader waves d.library walk wave).2 ∧ Leads loader
        (d.linking t scope (.running (.wave root injectors walk [] wave)))
        (d₁.linking t scope
          (walked root injectors (Library.walkFrom loader waves d.library walk wave).1))
  | 0, _, _, _, _, _, _, _, hcovers, hwaves => by
    have hlength := hcovers.length_le
    omega
  | waves + 1, d, walk, loaded, [], h, _, _, _, _ => ⟨d, .refl h, .refl⟩
  | waves + 1, d, walk, loaded, s :: wave, h, hkeeps, halike, hcovers, hwaves => by
    obtain ⟨heq, halike'⟩ := Library.loadAll_alike (s :: wave) halike
    obtain ⟨hresults, hkeeps', _⟩ := Library.loadAll_spec (s :: wave) hkeeps
    rw [← heq] at hresults hkeeps'
    have hcovers' : walk.Covers loader' scope injectors root loaded (s :: wave ++ []) := by
      rwa [List.append_nil]
    obtain ⟨hok, _⟩ := Library.Walk.addAll_spec _ [] hresults hcovers'
    have hne : (d.library.loadAll loader (s :: wave)).1 ≠ [] := List.cons_ne_nil _ _
    obtain ⟨d₁, waiting, hloads, hwaiting, hleads⟩ :=
      loadAll_leads t scope root injectors loader walk (s :: wave) h
        (show d.documents.results? [] = some [] from rfl)
    rw [← hloads.library] at hkeeps' halike'
    rw [List.nil_append] at hwaiting
    have hwave := hleads.trans
      (.event (.link t.jobs.length loader) rfl (link_wave loader walk hwaiting hne))
    rw [Library.walkFrom]
    · dsimp only
      split
      · next e hadd =>
        rw [hadd] at hwave
        exact ⟨d₁, hloads, hwave⟩
      · next next walk' hadd =>
        rw [hadd] at hwave
        have hlength : loader'.sources.length < waves + ((s :: wave).reverse ++ loaded).length := by
          rw [List.length_append, List.length_reverse, List.length_cons]
          omega
        obtain ⟨d₂, hloads', hleads'⟩ := walkFrom_leads waves hloads.rest hkeeps' halike'
          (hok next walk' hadd) hlength
        rw [hloads.library] at hloads' hleads'
        exact ⟨d₂, hloads.trans hloads', hwave.trans hleads'⟩
    · simp

theorem link_found_error (d : Desk) (loader : Loader) {walk : Library.Walk} {e : GrammarError}
    (h : Grammar.link root walk.found.reverse injectors = .error e) :
    (d.linking t scope (.running (.wave root injectors walk [] []))).link t.jobs.length loader =
      d.linking t scope (.done (.error e)) := by
  rw [link, linking_work?]
  dsimp only
  rw [linking_documents, show d.documents.results? [] = some [] from rfl]
  dsimp only [walkOn]
  rw [h]
  dsimp only
  rw [linking_proceed]
  rfl

/-- What a walk has found is linked. -/
theorem link_found_ok (d : Desk) (loader : Loader) {walk : Library.Walk} {g : Grammar}
    (h : Grammar.link root walk.found.reverse injectors = .ok g) :
    (d.linking t scope (.running (.wave root injectors walk [] []))).link t.jobs.length loader =
      { d with serial := d.serial + 1 }.linking t scope (.done (.ok ⟨d.serial, g⟩)) := by
  rw [link, linking_work?]
  dsimp only
  rw [linking_documents, show d.documents.results? [] = some [] from rfl]
  dsimp only [walkOn]
  rw [h]
  dsimp only
  rw [linking_proceed]
  rfl

/-- A library links at once what a desk links in many events. -/
theorem link_leads (h : d.documents.AtRest) (hanswered : d.library.Answered) (loader : Loader)
    (t : JobTable LinkWork (LoadResult Grammar)) (s : ScopeName) :
    ∃ d₁, d.Loads d₁ (d.library.link loader s).2 ∧ Leads loader (d.linking t s (.running .start))
      (d₁.linking t s (.done (d.library.link loader s).1)) := by
  obtain ⟨loader', hkeeps, halike, hlength⟩ := hanswered.exists_loader loader
  obtain ⟨heq, halike'⟩ := Library.load_alike halike s
  obtain ⟨hvalue, hkeeps', _⟩ := Library.load_spec hkeeps s
  have hgrow := Library.length_le_load d.library loader s
  rw [← heq] at hvalue hkeeps'
  let k := (d.documents.join s .start).1
  obtain ⟨d₁, hloads, hresult, hleads⟩ := load_leads h loader s (t.withJob s (.running (.root k)))
  have hstart := (Leads.event (.link t.jobs.length loader) rfl (link_start d loader)).trans hleads
  unfold Library.link
  generalize d.library.load loader s = loaded at hvalue hkeeps' halike' hgrow hloads hresult
  obtain ⟨r, l₁⟩ := loaded
  cases r with
  | error e =>
    refine ⟨d₁, hloads, hstart.trans ?_⟩
    exact .event (.link t.jobs.length loader) rfl (link_root_error loader hresult)
  | ok root =>
    have hl₁ : d₁.library = l₁ := hloads.library
    subst hl₁
    have hcovers := Library.Walk.covers_meet (d₁.library.injectorsOf loader s) hvalue.symm
    have hwaves : loader'.sources.length < d₁.library.waves loader + [s].length := by
      dsimp only at hgrow
      rw [Library.waves, List.length_singleton]
      omega
    obtain ⟨d₂, hloads', hleads'⟩ :=
      walkFrom_leads (t := t) _ hloads.rest hkeeps' halike' hcovers hwaves
    have hwalk := (hstart.trans
      (.event (.link t.jobs.length loader) rfl (link_root_ok loader hresult))).trans hleads'
    dsimp only
    generalize Library.walkFrom loader _ d₁.library _ _ = result at hloads' hwalk
    obtain ⟨walk, l₂⟩ := result
    cases walk with
    | error e => exact ⟨d₂, hloads.trans hloads', hwalk⟩
    | ok walk =>
      have hl₂ : d₂.library = l₂ := hloads'.library
      subst hl₂
      dsimp only
      split
      · next e hlink =>
        refine ⟨d₂, hloads.trans hloads', hwalk.trans ?_⟩
        exact .event (.link t.jobs.length loader) rfl (link_found_error d₂ loader hlink)
      · next g hlink =>
        have hboth := hloads.trans hloads'
        refine ⟨{ d₂ with serial := d₂.serial + 1 },
          ⟨hboth.rest, rfl, hboth.results, hboth.requests, hboth.grammars, hboth.tokenizers⟩,
          hwalk.trans ?_⟩
        exact .event (.link t.jobs.length loader) rfl (link_found_ok d₂ loader hlink)

end

/-- From one desk to the other a grammar has been linked, so that the library is this one. -/
structure Links (d d₁ : Desk) (l : Library) : Prop where
  documents : d₁.documents.AtRest
  grammars : d₁.grammars.AtRest
  library : d₁.library = l
  requests : d₁.documents.requests = d.documents.requests ∧
    d₁.grammars.requests = d.grammars.requests

/-- A linked grammar is requested and linked, unless it is kept. -/
theorem loadGrammar_leads (hdocuments : d.documents.AtRest) (hgrammars : d.grammars.AtRest)
    (hanswered : d.library.Answered) (loader : Loader) (s : ScopeName) :
    ∃ d₁, d.Links d₁ (d.library.loadGrammar loader s).2 ∧
      d₁.grammars.result? (d.grammars.join s .start).1 = some (d.library.loadGrammar loader s).1 ∧
      d₁.tokenizers = d.tokenizers ∧
      Leads loader { d with grammars := (d.grammars.join s .start).2 } d₁ := by
  have hlinked : d.library.linked = d.grammars.finished := rfl
  unfold Library.loadGrammar
  rw [hlinked]
  rcases hgrammars.join_cases s .start with ⟨n, r, hlookup, hr, heq⟩ | ⟨hlookup, heq⟩
  · rw [hlookup, heq]
    exact ⟨d, ⟨hdocuments, hgrammars, rfl, ⟨rfl, rfl⟩⟩, hr, rfl, .refl⟩
  · rw [hlookup, heq]
    obtain ⟨d₁, hloads, hleads⟩ := link_leads hdocuments hanswered loader d.grammars s
    generalize d.library.link loader s = result at hloads hleads
    obtain ⟨r, l₁⟩ := result
    have hl₁ : d₁.library = l₁ := hloads.library
    subst hl₁
    obtain ⟨hrest, hfinished⟩ := hgrammars.withJob s r
    refine ⟨d₁.linking d.grammars s (.done r),
      ⟨hloads.rest, hrest, ?_, ⟨hloads.requests, rfl⟩⟩, JobTable.withJob_result? ..,
      hloads.tokenizers, hleads⟩
    unfold library linking
    dsimp only
    rw [hfinished, hloads.grammars]

/-! ### Making a tokenizer -/

/-- The desk with another table of tokenizers, where the last job is for this scope. -/
def making (d : Desk) (t : JobTable TokenizerWork (LoadResult Tokenizer)) (s : ScopeName)
    (job : Job TokenizerWork (LoadResult Tokenizer)) : Desk :=
  { d with tokenizers := t.withJob s job }

section

variable {t : JobTable TokenizerWork (LoadResult Tokenizer)} {s : ScopeName} {language : LanguageId}
  {embedded : List (ScopeName × LanguageId)}

@[simp] theorem making_grammars (d : Desk) (job : Job TokenizerWork (LoadResult Tokenizer)) :
    (d.making t s job).grammars = d.grammars := rfl

@[simp] theorem making_work? (d : Desk) (work : TokenizerWork) :
    (d.making t s (.running work)).tokenizers.work? t.jobs.length = some (s, work) :=
  JobTable.withJob_work? t s work

@[simp] theorem making_proceed (d : Desk) (work : TokenizerWork)
    (job : Job TokenizerWork (LoadResult Tokenizer)) :
    (d.making t s (.running work)).tokenizers.proceed t.jobs.length job = t.withJob s job :=
  JobTable.withJob_proceed t s work job

/-- The linked grammar is requested. -/
theorem make_start (d : Desk) :
    (d.making t s (.running ⟨language, embedded, none⟩)).make t.jobs.length =
      { d with grammars := (d.grammars.join s .start).2 }.making t s
        (.running ⟨language, embedded, some (d.grammars.join s .start).1⟩) := by
  rw [make, making_work?]
  dsimp only
  rw [making_proceed]
  rfl

theorem make_error {k : Nat} {e : GrammarError} (h : d.grammars.result? k = some (.error e)) :
    (d.making t s (.running ⟨language, embedded, some k⟩)).make t.jobs.length =
      d.making t s (.done (.error e)) := by
  rw [make, making_work?]
  dsimp only
  rw [making_grammars, h]
  dsimp only
  rw [making_proceed]
  rfl

theorem make_ok {k : Nat} {g : Loaded Grammar} (h : d.grammars.result? k = some (.ok g)) :
    (d.making t s (.running ⟨language, embedded, some k⟩)).make t.jobs.length =
      { d with serial := d.serial + 1 }.making t s
        (.done (.ok ⟨d.serial, ⟨g, language, embedded⟩⟩)) := by
  rw [make, making_work?]
  dsimp only
  rw [making_grammars, h]
  dsimp only
  rw [making_proceed]
  rfl

/-- A workshop makes at once what a desk makes in many events. -/
theorem make_leads (hdocuments : d.documents.AtRest) (hgrammars : d.grammars.AtRest)
    (hanswered : d.library.Answered) (loader : Loader)
    (t : JobTable TokenizerWork (LoadResult Tokenizer)) (s : ScopeName) (language : LanguageId)
    (embedded : List (ScopeName × LanguageId)) :
    ∃ d₁, d.Links d₁ (d.workshop.make loader s language embedded).2.library ∧
      Leads loader (d.making t s (.running ⟨language, embedded, none⟩))
        (d₁.making t s (.done (d.workshop.make loader s language embedded).1)) := by
  let k := (d.grammars.join s .start).1
  let waiting := d.making t s (.running ⟨language, embedded, some k⟩)
  obtain ⟨d₁, hlinks, hresult, htokenizers, hleads⟩ :=
    loadGrammar_leads (d := waiting) hdocuments hgrammars hanswered loader s
  have hd₁ : d₁.making t s (.running ⟨language, embedded, some k⟩) = d₁ := by
    rw [making, ← show d₁.tokenizers = t.withJob s _ from htokenizers]
  rw [← hd₁] at hleads
  have hstart := (Leads.event (.make t.jobs.length) trivial (make_start d)).trans hleads
  have hlibrary : d.workshop.library = waiting.library := rfl
  unfold Workshop.make
  rw [hlibrary]
  generalize waiting.library.loadGrammar loader s = result at hlinks hresult
  obtain ⟨r, l₁⟩ := result
  have hl₁ : d₁.library = l₁ := hlinks.library
  subst hl₁
  cases r with
  | error e =>
    refine ⟨d₁, ⟨hlinks.documents, hlinks.grammars, rfl, hlinks.requests⟩, hstart.trans ?_⟩
    exact .event (.make t.jobs.length) trivial (make_error hresult)
  | ok g =>
    refine ⟨{ d₁ with serial := d₁.serial + 1 },
      ⟨hlinks.documents, hlinks.grammars, rfl, hlinks.requests⟩, hstart.trans ?_⟩
    exact .event (.make t.jobs.length) trivial (make_ok hresult)

end

/-! ## Requests that are alone -/

/-- All work that is kept is done. -/
structure AtRest (d : Desk) : Prop where
  documents : d.documents.AtRest
  grammars : d.grammars.AtRest
  tokenizers : d.tokenizers.AtRest

/-- A tokenizer is requested and made, unless it is kept. -/
theorem tokenizer_leads (h : d.AtRest) (hanswered : d.library.Answered) (loader : Loader)
    (s : ScopeName) (language : LanguageId) (embedded : List (ScopeName × LanguageId)) :
    ∃ d₁, d.Links d₁ d₁.library ∧ d₁.tokenizers.AtRest ∧
      d₁.workshop = (d.workshop.tokenizer loader s language embedded).2 ∧
      d₁.tokenizers.result? (d.tokenizers.join s ⟨language, embedded, none⟩).1 =
        some (d.workshop.tokenizer loader s language embedded).1 ∧
      d₁.tokenizers.requests = d.tokenizers.requests ∧
      Leads loader
        { d with tokenizers := (d.tokenizers.join s ⟨language, embedded, none⟩).2 } d₁ := by
  have htokenizers : d.workshop.tokenizers = d.tokenizers.finished := rfl
  unfold Workshop.tokenizer
  rw [htokenizers]
  rcases h.tokenizers.join_cases s ⟨language, embedded, none⟩ with
    ⟨n, r, hlookup, hr, heq⟩ | ⟨hlookup, heq⟩
  · rw [hlookup, heq]
    exact ⟨d, ⟨h.documents, h.grammars, rfl, ⟨rfl, rfl⟩⟩, h.tokenizers, rfl, hr, rfl, .refl⟩
  · rw [hlookup, heq]
    obtain ⟨d₁, hlinks, hleads⟩ :=
      make_leads h.documents h.grammars hanswered loader d.tokenizers s language embedded
    have hkept := d.workshop.make_tokenizers loader s language embedded
    rw [htokenizers] at hkept
    generalize d.workshop.make loader s language embedded = result at hlinks hleads hkept
    obtain ⟨r, w⟩ := result
    obtain ⟨hrest, hfinished⟩ := h.tokenizers.withJob s r
    refine ⟨d₁.making d.tokenizers s (.done r),
      ⟨hlinks.documents, hlinks.grammars, rfl, hlinks.requests⟩, hrest, ?_,
      JobTable.withJob_result? .., rfl, hleads⟩
    dsimp only at hkept ⊢
    rw [workshop, making, hfinished, hkept, ← hlinks.library]
    rfl

/-- A request for a document that is alone is answered as a library answers it. -/
theorem load_alone (h : d.AtRest) (loader : Loader) (s : ScopeName) :
    let result := d.library.load loader s
    ∃ work k, (∀ e ∈ work, e.Serves loader) ∧
      let d' := d.run (.load s :: work)
      d'.AtRest ∧ d'.workshop = { d.workshop with library := result.2 } ∧
        d'.documents.requests = d.documents.requests ++ [⟨s, k, some result.1⟩] ∧
        d'.grammars = d.grammars ∧ d'.tokenizers = d.tokenizers := by
  intro result
  let k := (d.documents.join s .start).1
  let d₀ : Desk := { d with documents :=
    { d.documents with requests := d.documents.requests ++ [⟨s, k, none⟩] } }
  obtain ⟨d₁, hloads, hresult, hleads⟩ :=
    load_leads (d := d₀) h.documents loader s d.grammars
  have hjoin : d₀.documents.join s .start = (k, d.documents.request s .start) := by
    rw [JobTable.join_requests, JobTable.request_eq]
  have hd₁ : { d₁ with grammars := d.grammars } = d₁ := by
    rw [← show d₁.grammars = d.grammars from hloads.grammars]
  rw [hjoin] at hresult hleads
  rw [hd₁] at hleads
  have hreceive := JobTable.receive_last hloads.requests hresult
  obtain ⟨work, hserves, hrun⟩ := (hleads.trans
    (.event (.receiveDocument d.documents.requests.length) trivial rfl)).exists_events
  refine ⟨work, k, hserves, ?_⟩
  intro d'
  have hd' : d' = { d₁ with documents := { d₁.documents with
      requests := d.documents.requests ++ [⟨s, k, some result.1⟩] } } :=
    hrun.trans (congrArg (fun t => { d₁ with documents := t }) hreceive)
  rw [hd']
  refine ⟨⟨hloads.rest, ?_, ?_⟩, ?_, rfl, hloads.grammars, hloads.tokenizers⟩
  · rw [hloads.grammars]
    exact h.grammars
  · rw [hloads.tokenizers]
    exact h.tokenizers
  · show Workshop.mk d₁.library d₁.tokenizers.finished = ⟨result.2, d.tokenizers.finished⟩
    rw [hloads.library, hloads.tokenizers]
    rfl

/-- A request for a linked grammar that is alone is answered as a library answers it. -/
theorem loadGrammar_alone (h : d.AtRest) (hanswered : d.library.Answered) (loader : Loader)
    (s : ScopeName) :
    let result := d.library.loadGrammar loader s
    ∃ work k, (∀ e ∈ work, e.Serves loader) ∧
      let d' := d.run (.loadGrammar s :: work)
      d'.AtRest ∧ d'.workshop = { d.workshop with library := result.2 } ∧
        d'.documents.requests = d.documents.requests ∧
        d'.grammars.requests = d.grammars.requests ++ [⟨s, k, some result.1⟩] ∧
        d'.tokenizers = d.tokenizers := by
  intro result
  let k := (d.grammars.join s .start).1
  let d₀ : Desk := { d with grammars :=
    { d.grammars with requests := d.grammars.requests ++ [⟨s, k, none⟩] } }
  obtain ⟨d₁, hlinks, hresult, htokenizers, hleads⟩ :=
    loadGrammar_leads (d := d₀) h.documents h.grammars hanswered loader s
  have hjoin : d₀.grammars.join s .start = (k, d.grammars.request s .start) := by
    rw [JobTable.join_requests, JobTable.request_eq]
  rw [hjoin] at hresult hleads
  have hreceive := JobTable.receive_last hlinks.requests.2 hresult
  obtain ⟨work, hserves, hrun⟩ := (hleads.trans
    (.event (.receiveGrammar d.grammars.requests.length) trivial rfl)).exists_events
  refine ⟨work, k, hserves, ?_⟩
  intro d'
  have hd' : d' = { d₁ with grammars := { d₁.grammars with
      requests := d.grammars.requests ++ [⟨s, k, some result.1⟩] } } :=
    hrun.trans (congrArg (fun t => { d₁ with grammars := t }) hreceive)
  rw [hd']
  refine ⟨⟨hlinks.documents, hlinks.grammars, ?_⟩, ?_, hlinks.requests.1, rfl, htokenizers⟩
  · rw [htokenizers]
    exact h.tokenizers
  · show Workshop.mk d₁.library d₁.tokenizers.finished = ⟨result.2, d.tokenizers.finished⟩
    rw [hlinks.library, htokenizers]
    rfl

/-- A request for a tokenizer that is alone is answered as a workshop answers it. -/
theorem tokenizer_alone (h : d.AtRest) (hanswered : d.library.Answered) (loader : Loader)
    (s : ScopeName) (language : LanguageId) (embedded : List (ScopeName × LanguageId)) :
    let result := d.workshop.tokenizer loader s language embedded
    ∃ work k, (∀ e ∈ work, e.Serves loader) ∧
      let d' := d.run (.tokenizer s language embedded :: work)
      d'.AtRest ∧ d'.workshop = result.2 ∧
        d'.documents.requests = d.documents.requests ∧
        d'.grammars.requests = d.grammars.requests ∧
        d'.tokenizers.requests = d.tokenizers.requests ++ [⟨s, k, some result.1⟩] := by
  intro result
  let k := (d.tokenizers.join s ⟨language, embedded, none⟩).1
  let d₀ : Desk := { d with tokenizers :=
    { d.tokenizers with requests := d.tokenizers.requests ++ [⟨s, k, none⟩] } }
  obtain ⟨d₁, hlinks, hrest, hworkshop, hresult, hrequests, hleads⟩ := tokenizer_leads (d := d₀)
    ⟨h.documents, h.grammars, h.tokenizers⟩ hanswered loader s language embedded
  have hjoin : d₀.tokenizers.join s ⟨language, embedded, none⟩ =
    (k, d.tokenizers.request s ⟨language, embedded, none⟩) := by
    rw [JobTable.join_requests, JobTable.request_eq]
  rw [hjoin] at hresult hleads
  have hreceive := JobTable.receive_last hrequests hresult
  obtain ⟨work, hserves, hrun⟩ := (hleads.trans
    (.event (.receiveTokenizer d.tokenizers.requests.length) trivial rfl)).exists_events
  refine ⟨work, k, hserves, ?_⟩
  intro d'
  have hd' : d' = { d₁ with tokenizers := { d₁.tokenizers with
      requests := d.tokenizers.requests ++ [⟨s, k, some result.1⟩] } } :=
    hrun.trans (congrArg (fun t => { d₁ with tokenizers := t }) hreceive)
  rw [hd']
  exact ⟨⟨hlinks.documents, hlinks.grammars, hrest⟩, hworkshop, hlinks.requests.1,
    hlinks.requests.2, rfl⟩

/-- Any request can be worked off at the desk, while a loader answers: it receives what the library
gives, or the workshop, the desk keeps then what these keep, and all work that is kept is done. -/
structure ServesEach (d : Desk) : Prop where
  document (loader : Loader) (s : ScopeName) :
    let result := d.library.load loader s
    ∃ work k, (∀ e ∈ work, e.Serves loader) ∧
      let d' := d.run (.load s :: work)
      d'.AtRest ∧ d'.workshop = { d.workshop with library := result.2 } ∧
        d'.documents.requests = d.documents.requests ++ [⟨s, k, some result.1⟩]
  grammar (loader : Loader) (s : ScopeName) :
    let result := d.library.loadGrammar loader s
    ∃ work k, (∀ e ∈ work, e.Serves loader) ∧
      let d' := d.run (.loadGrammar s :: work)
      d'.AtRest ∧ d'.workshop = { d.workshop with library := result.2 } ∧
        d'.grammars.requests = d.grammars.requests ++ [⟨s, k, some result.1⟩]
  tokenizer (loader : Loader) (s : ScopeName) (language : LanguageId)
      (embedded : List (ScopeName × LanguageId)) :
    let result := d.workshop.tokenizer loader s language embedded
    ∃ work k, (∀ e ∈ work, e.Serves loader) ∧
      let d' := d.run (.tokenizer s language embedded :: work)
      d'.AtRest ∧ d'.workshop = result.2 ∧
        d'.tokenizers.requests = d.tokenizers.requests ++ [⟨s, k, some result.1⟩]

theorem AtRest.servesEach (h : d.AtRest) (hanswered : d.library.Answered) : d.ServesEach where
  document loader s := by
    obtain ⟨work, k, hwork, hrest, hworkshop, hrequests, -⟩ := load_alone h loader s
    exact ⟨work, k, hwork, hrest, hworkshop, hrequests⟩
  grammar loader s := by
    obtain ⟨work, k, hwork, hrest, hworkshop, -, hrequests, -⟩ :=
      loadGrammar_alone h hanswered loader s
    exact ⟨work, k, hwork, hrest, hworkshop, hrequests⟩
  tokenizer loader s language embedded := by
    obtain ⟨work, k, hwork, hrest, hworkshop, -, -, hrequests⟩ :=
      tokenizer_alone h hanswered loader s language embedded
    exact ⟨work, k, hwork, hrest, hworkshop, hrequests⟩

/-! ## Doing one thing after another -/

/-- The results of the work for documents come of answers. -/
theorem run_answers (theme : Theme) (events : List Event) :
    ∀ j ∈ ((empty theme).run events).documents.jobs, Answers j.1 j.2 := by
  refine run_induct (P := fun d => ∀ j ∈ d.documents.jobs, Answers j.1 j.2) ?_ events
    (d := empty theme) ?_
  · intro d e h
    exact (next_documents d e).all_jobs (fun _ _ _ => trivial) (fun _ _ _ hgo _ => hgo) h
  · exact fun j hj => absurd hj List.not_mem_nil

theorem run_answered {theme : Theme} {events : List Event}
    (h : ((empty theme).run events).AtRest) : ((empty theme).run events).library.Answered := by
  intro s r hr
  have hsound := ((empty_sound theme).run events).documents
  have hr := (h.documents.lookup_finished s).symm.trans hr
  obtain ⟨n, hkept, hresult⟩ := Option.bind_eq_some_iff.1 hr
  obtain ⟨job, hjob⟩ := hsound.kept s n hkept
  obtain ⟨s', hdone⟩ := JobTable.result?_eq_some_iff.1 hresult
  cases hjob.symm.trans hdone
  exact run_answers theme events _ (List.mem_of_getElem? hjob)

theorem next_forget (d : Desk) (s : ScopeName) :
    (d.next (.forget s)).workshop = { d.workshop with library := d.library.forget s } := by
  simp only [next, workshop, library, Library.forget, JobTable.finished_forget]

theorem next_forgetTokenizer (d : Desk) (s : ScopeName) :
    (d.next (.forgetTokenizer s)).workshop = d.workshop.forget s := by
  simp only [next, workshop, library, Workshop.forget, Library.forget, JobTable.finished_forget]

/-- Whatever is done with a workshop, one thing after another, can happen at a desk. -/
theorem exists_run_of_reached {w : Workshop} (h : w.Reached) : ∃ theme events,
    ((empty theme).run events).AtRest ∧ ((empty theme).run events).workshop = w := by
  have hmore : ∀ {theme : Theme} {events : List Event} {w : Workshop} (e : Event)
      (work : List Event), (((empty theme).run events).run (e :: work)).AtRest →
      (((empty theme).run events).run (e :: work)).workshop = w →
      ∃ theme events, ((empty theme).run events).AtRest ∧
        ((empty theme).run events).workshop = w := by
    intro theme events w e work hrest hworkshop
    rw [← run_append] at hrest hworkshop
    exact ⟨theme, _, hrest, hworkshop⟩
  induction h with
  | empty theme => exact ⟨theme, [], ⟨nofun, nofun, nofun⟩, rfl⟩
  | setTheme _ theme ih =>
    obtain ⟨_, _, hrest, rfl⟩ := ih
    exact hmore (.setTheme theme) [] ⟨hrest.documents, hrest.grammars, hrest.tokenizers⟩ rfl
  | register _ injector targets ih =>
    obtain ⟨_, _, hrest, rfl⟩ := ih
    exact hmore (.register injector targets) []
      ⟨hrest.documents, hrest.grammars, hrest.tokenizers⟩ rfl
  | packLine _ t line stack ih =>
    obtain ⟨_, _, hrest, rfl⟩ := ih
    exact hmore (.packLine t line stack) []
      ⟨hrest.documents, hrest.grammars, hrest.tokenizers⟩ rfl
  | load _ loader s ih =>
    obtain ⟨_, _, hrest, rfl⟩ := ih
    obtain ⟨work, _, _, hrest', hworkshop, _⟩ := load_alone hrest loader s
    exact hmore (.load s) work hrest' hworkshop
  | loadGrammar _ loader s ih =>
    obtain ⟨_, _, hrest, rfl⟩ := ih
    obtain ⟨work, _, _, hrest', hworkshop, _⟩ :=
      loadGrammar_alone hrest (run_answered hrest) loader s
    exact hmore (.loadGrammar s) work hrest' hworkshop
  | tokenizer _ loader s language embedded ih =>
    obtain ⟨_, _, hrest, rfl⟩ := ih
    obtain ⟨work, _, _, hrest', hworkshop, _⟩ :=
      tokenizer_alone hrest (run_answered hrest) loader s language embedded
    exact hmore (.tokenizer s language embedded) work hrest' hworkshop
  | forgetGrammar _ s ih =>
    obtain ⟨theme, events, hrest, rfl⟩ := ih
    exact hmore (.forget s) []
      ⟨hrest.documents.forget s, hrest.grammars.forget s, hrest.tokenizers⟩ (next_forget _ s)
  | forget _ s ih =>
    obtain ⟨theme, events, hrest, rfl⟩ := ih
    exact hmore (.forgetTokenizer s) []
      ⟨hrest.documents.forget s, hrest.grammars.forget s, hrest.tokenizers.forget s⟩
      (next_forgetTokenizer _ s)

/-! ## Any requests -/

/-- Whatever happens at a desk, in whichever order: the loader is asked for a document at most once
more than its scope is forgotten. Requests that have joined the same job receive the same, and
between two times that a scope is forgotten, all requests for it join the same job. From when a
tokenizer is first requested after its scope was forgotten, or at all, until it is forgotten again,
all requests for it receive the same, which if it is a tokenizer has the languages that the first of
them named. And requests do receive answers: where the work that is kept is done, any request can be
worked off and receives what a library or a workshop gives, so that all that can be done with a
workshop can happen at a desk. -/
theorem shared_requests (theme : Theme) (events : List Event) :
    let after := fun es => (empty theme).run es
    let d := after events
    (∀ s, d.asked.count s ≤ events.countP (·.forgets s) + 1) ∧
    (d.documents.Agrees ∧ d.grammars.Agrees ∧ d.tokenizers.Agrees) ∧
    (∀ s before window rest, events = before ++ window ++ rest →
      ((∀ e ∈ window, ¬e.forgets s = true) →
        JoinOne d.documents s (after before).documents.requests.length
          (after (before ++ window)).documents.requests.length ∧
        JoinOne d.grammars s (after before).grammars.requests.length
          (after (before ++ window)).grammars.requests.length) ∧
      ((∀ e ∈ window, e ≠ .forgetTokenizer s) →
        JoinOne d.tokenizers s (after before).tokenizers.requests.length
          (after (before ++ window)).tokenizers.requests.length)) ∧
    (∀ s language embedded before early later rest,
      events = before ++ early ++ .tokenizer s language embedded :: later ++ rest →
      (before = [] ∨ ∃ earlier, before = earlier ++ [.forgetTokenizer s]) →
      (∀ language' embedded', .tokenizer s language' embedded' ∉ early) →
      .forgetTokenizer s ∉ later →
      let first := after (before ++ early)
      let last := after (before ++ early ++ .tokenizer s language embedded :: later)
      ReceiveOne d.tokenizers s first.tokenizers.requests.length last.tokenizers.requests.length
        fun result => ∀ t, result = .ok t →
          t.value.language = language ∧ t.value.embedded = embedded) ∧
    (d.AtRest → d.ServesEach) ∧
    ∀ w : Workshop, w.Reached → ∃ theme events,
      ((empty theme).run events).AtRest ∧ ((empty theme).run events).workshop = w := by
  intro after d
  have hsound : d.Sound := (empty_sound theme).run events
  refine ⟨count_asked_le theme events, ⟨hsound.documents.agrees, hsound.grammars.agrees,
    hsound.tokenizers.agrees⟩, fun s before window rest heq => ?_,
    fun s language embedded before early later rest heq hfresh hearly hlater => ?_,
    fun hrest => hrest.servesEach (run_answered hrest), fun w hw => exists_run_of_reached hw⟩
  · subst heq
    refine ⟨fun hwindow => ⟨?_, ?_⟩, fun hwindow => ?_⟩
    · exact joinOne next_documents _ before rest hwindow
    · exact joinOne next_grammars _ before rest hwindow
    · exact joinOne next_tokenizers _ before rest hwindow
  · subst heq
    have hone := receiveOne_of_first theme language embedded rest hfresh hearly hlater
    dsimp only at hone
    rw [← run_append, ← run_append, ← List.append_assoc] at hone
    exact hone

/-- A document is forgotten while it is loaded, and requested again: the loader is asked twice, and
who requested it before receives what came of the first answer. -/
example :
    let loader := fun answer => Loader.mk [("letters", answer)] []
    let down := loader (.failure "down")
    let up := loader (.source ⟨"scopeName: letters\n", .yaml⟩)
    let d := (empty default).run [.load "letters", .ask 0, .forget "letters", .load "letters",
      .load "letters", .ask 1, .answer 1 up, .answer 0 down, .receiveDocument 2,
      .receiveDocument 1, .receiveDocument 0]
    d.asked = ["letters", "letters"] ∧
      d.documents.requests.map (fun r => r.received.map Except.isOk) =
        [some false, some true, some true] := by
  decide +kernel

end Desk

end Highlight
