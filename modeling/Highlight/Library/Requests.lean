import Highlight.Library.Tokenizer

/-!
# Requests in flight

A loader takes its time to answer, and other requests are made meanwhile. At a `Desk` a request
joins the work that is kept for its scope, or begins it; once the work is done, all that have joined
it receive what came of it. The work for a tokenizer waits for a linked grammar, and that for a
linked grammar waits for the documents that it needs, as requests of their own do. Forgetting a
scope makes later requests begin anew, while those that have joined the work before go on to wait
for it.

What happens at a desk is a list of events (`Desk.Event`): a request is made, a piece of work goes
on to where other things may happen, the loader answers, a request receives a result. In which order
they happen is open, and nothing says that a request is ever attended to again.
-/

namespace Highlight

/-- A piece of work that is going on or has a result. -/
inductive Job (W R : Type) where
  | running (work : W)
  | done (result : R)

/-- A request that has joined a job. -/
structure Request (R : Type) where
  scope : ScopeName
  /-- The number of the job. -/
  job : Nat
  /-- What the request has received. -/
  received : Option R

/-- The work for scopes and the requests that have joined it. -/
structure JobTable (W R : Type) where
  /-- All jobs by their numbers. -/
  jobs : List (ScopeName × Job W R)
  /-- The jobs that requests join. -/
  kept : List (ScopeName × Nat)
  /-- All requests, the first one first. -/
  requests : List (Request R)

namespace JobTable

variable {W R : Type}

/-- No work and no requests. -/
def empty : JobTable W R := ⟨[], [], []⟩

/-- The scope of a job that is going on, and where it is. -/
def work? (t : JobTable W R) (n : Nat) : Option (ScopeName × W) :=
  match t.jobs[n]? with
  | some (s, .running work) => some (s, work)
  | _ => none

/-- The result of a job that is done. -/
def result? (t : JobTable W R) (n : Nat) : Option R :=
  match t.jobs[n]? with
  | some (_, .done r) => some r
  | _ => none

/-- The job that is kept for a scope, which begins if there is none. -/
def join (t : JobTable W R) (s : ScopeName) (work : W) : Nat × JobTable W R :=
  match t.kept.lookup s with
  | some n => (n, t)
  | none => (t.jobs.length, { t with
      jobs := t.jobs ++ [(s, .running work)]
      kept := (s, t.jobs.length) :: t.kept })

/-- A request for a scope joins its job. -/
def request (t : JobTable W R) (s : ScopeName) (work : W) : JobTable W R :=
  let (n, t) := t.join s work
  { t with requests := t.requests ++ [⟨s, n, none⟩] }

/-- A job that is going on goes on to another place or comes to its result. -/
def proceed (t : JobTable W R) (n : Nat) (job : Job W R) : JobTable W R :=
  match t.work? n with
  | some (s, _) => { t with jobs := t.jobs.set n (s, job) }
  | none => t

/-- A request that has received nothing receives the result of its job, if that is done. -/
def receive (t : JobTable W R) (i : Nat) : JobTable W R :=
  { t with requests := t.requests.modify i fun r =>
      { r with received := r.received.or (t.result? r.job) } }

/-- Later requests for the scope begin another job. -/
def forget (t : JobTable W R) (s : ScopeName) : JobTable W R :=
  { t with kept := t.kept.filter (·.1 != s) }

/-- The results of the jobs that are kept. -/
def finished (t : JobTable W R) : List (ScopeName × R) :=
  t.kept.filterMap fun e => (t.result? e.2).map (e.1, ·)

/-- The results of jobs for scopes, if all are done. -/
def results? (t : JobTable W R) : List (ScopeName × Nat) → Option (List (ScopeName × R))
  | [] => some []
  | (s, n) :: es =>
    match t.result? n, t.results? es with
    | some r, some rs => some ((s, r) :: rs)
    | _, _ => none

end JobTable

/-- Where loading a document is. -/
inductive LoadWork where
  | start
  /-- The loader has been asked. -/
  | asked

/-- Where linking a grammar is. -/
inductive LinkWork where
  | start
  /-- Waiting for the document of the scope itself. -/
  | root (n : Nat)
  /-- On a walk, waiting for documents of a wave; the rest of the wave is yet to be requested. -/
  | wave (root : CompiledGrammar) (injectors : List ScopeName) (walk : Library.Walk)
      (waiting : List (ScopeName × Nat)) (rest : List ScopeName)

/-- Where making a tokenizer is. -/
structure TokenizerWork where
  language : LanguageId
  embedded : List (ScopeName × LanguageId)
  /-- The linked grammar that is waited for. -/
  grammar : Option Nat

/-- A library with requests in flight. -/
structure Desk where
  documents : JobTable LoadWork (LoadResult CompiledGrammar)
  grammars : JobTable LinkWork (LoadResult Grammar)
  tokenizers : JobTable TokenizerWork (LoadResult Tokenizer)
  registered : List (ScopeName × List ScopeName)
  /-- The scopes that the loader has been asked for, the last one first. -/
  asked : List ScopeName
  serial : Nat
  theme : Theme
  styles : StyleCache theme

namespace Desk

/-- A desk where nothing has happened. -/
def empty (theme : Theme) : Desk := ⟨.empty, .empty, .empty, [], [], 0, theme, .empty theme⟩

/-- What is done and kept, as a library. -/
def library (d : Desk) : Library where
  compiled := d.documents.finished
  linked := d.grammars.finished
  registered := d.registered
  requests := d.asked
  serial := d.serial
  theme := d.theme
  styles := d.styles

/-- What is done and kept, as a workshop. -/
def workshop (d : Desk) : Workshop := ⟨d.library, d.tokenizers.finished⟩

/-! ## Work -/

/-- The loader is asked for a document. -/
def ask (d : Desk) (n : Nat) : Desk :=
  match d.documents.work? n with
  | some (s, .start) => { d with
      documents := d.documents.proceed n (.running .asked)
      asked := s :: d.asked }
  | _ => d

/-- The loader answers, and the answer is compiled. -/
def answer (d : Desk) (n : Nat) (loader : Loader) : Desk :=
  match d.documents.work? n with
  | some (s, .asked) =>
    match Library.compileAnswer s (loader.sources.lookup s) with
    | .error e => { d with documents := d.documents.proceed n (.done (.error e)) }
    | .ok g => { d with
        documents := d.documents.proceed n (.done (.ok ⟨d.serial, g⟩))
        registered := (d.library.register s g.injectTo).registered
        serial := d.serial + 1 }
  | _ => d

/-- A walk goes on with the documents of a wave; where there are none, what was found is linked. -/
def walkOn (d : Desk) (n : Nat) (root : CompiledGrammar) (injectors : List ScopeName)
    (walk : Library.Walk) : List (ScopeName × LoadResult CompiledGrammar) → Desk
  | [] =>
    match Grammar.link root walk.found.reverse injectors with
    | .error e => { d with grammars := d.grammars.proceed n (.done (.error e)) }
    | .ok g => { d with
        grammars := d.grammars.proceed n (.done (.ok ⟨d.serial, g⟩))
        serial := d.serial + 1 }
  | results =>
    match walk.addAll results with
    | .error e => { d with grammars := d.grammars.proceed n (.done (.error e)) }
    | .ok (next, walk) => { d with
        grammars := d.grammars.proceed n (.running (.wave root injectors walk [] next)) }

/-- Linking a grammar goes on to where it waits again. -/
def link (d : Desk) (n : Nat) (loader : Loader) : Desk :=
  match d.grammars.work? n with
  | some (s, .start) =>
    let (k, documents) := d.documents.join s .start
    { d with documents := documents, grammars := d.grammars.proceed n (.running (.root k)) }
  | some (s, .root k) =>
    match d.documents.result? k with
    | none => d
    | some (.error e) => { d with grammars := d.grammars.proceed n (.done (.error e)) }
    | some (.ok root) =>
      let root := root.value
      let injectors := d.library.injectorsOf loader s
      let (wave, walk) := Library.Walk.meet ⟨[s], root.embedded.map fun s' => (s', s), []⟩
        (root.embedded ++ injectors)
      { d with grammars := d.grammars.proceed n (.running (.wave root injectors walk [] wave)) }
  | some (_, .wave root injectors walk waiting (s :: rest)) =>
    let (k, documents) := d.documents.join s .start
    let waiting := waiting ++ [(s, k)]
    { d with
      documents := documents
      grammars := d.grammars.proceed n (.running (.wave root injectors walk waiting rest)) }
  | some (_, .wave root injectors walk waiting []) =>
    match d.documents.results? waiting with
    | none => d
    | some results => d.walkOn n root injectors walk results
  | none => d

/-- Making a tokenizer goes on to where it waits, or comes to its result. -/
def make (d : Desk) (n : Nat) : Desk :=
  match d.tokenizers.work? n with
  | some (s, ⟨language, embedded, none⟩) =>
    let (k, grammars) := d.grammars.join s .start
    { d with
      grammars := grammars
      tokenizers := d.tokenizers.proceed n (.running ⟨language, embedded, some k⟩) }
  | some (_, ⟨language, embedded, some k⟩) =>
    match d.grammars.result? k with
    | none => d
    | some (.error e) => { d with tokenizers := d.tokenizers.proceed n (.done (.error e)) }
    | some (.ok g) =>
      let tokenizer := Tokenizer.mk g language embedded
      { d with
        tokenizers := d.tokenizers.proceed n (.done (.ok ⟨d.serial, tokenizer⟩))
        serial := d.serial + 1 }
  | none => d

/-! ## Events -/

/-- What may happen at a desk. Where it cannot happen, nothing does. -/
inductive Event where
  /-- A document is requested. -/
  | load (s : ScopeName)
  /-- A linked grammar is requested. -/
  | loadGrammar (s : ScopeName)
  /-- A tokenizer is requested. -/
  | tokenizer (s : ScopeName) (language : LanguageId) (embedded : List (ScopeName × LanguageId))
  /-- What the library keeps of a scope is forgotten. -/
  | forget (s : ScopeName)
  /-- The tokenizer of a scope is forgotten and what the library keeps of the scope. -/
  | forgetTokenizer (s : ScopeName)
  | register (injector : ScopeName) (targets : List ScopeName)
  | setTheme (theme : Theme)
  | packLine (t : Tokenizer) (line : String) (stack : RuleStack)
  /-- The work for a document goes on: the loader is asked. -/
  | ask (n : Nat)
  /-- The work for a document comes to its result, with what the loader says now. -/
  | answer (n : Nat) (loader : Loader)
  /-- The work for a linked grammar goes on. -/
  | link (n : Nat) (loader : Loader)
  /-- The work for a tokenizer goes on. -/
  | make (n : Nat)
  /-- A request for a document receives its result. -/
  | receiveDocument (i : Nat)
  /-- A request for a linked grammar receives its result. -/
  | receiveGrammar (i : Nat)
  /-- A request for a tokenizer receives its result. -/
  | receiveTokenizer (i : Nat)

/-- The desk after an event. -/
def next (d : Desk) : Event → Desk
  | .load s => { d with documents := d.documents.request s .start }
  | .loadGrammar s => { d with grammars := d.grammars.request s .start }
  | .tokenizer s language embedded =>
    { d with tokenizers := d.tokenizers.request s ⟨language, embedded, none⟩ }
  | .forget s => { d with documents := d.documents.forget s, grammars := d.grammars.forget s }
  | .forgetTokenizer s => { d with
      documents := d.documents.forget s
      grammars := d.grammars.forget s
      tokenizers := d.tokenizers.forget s }
  | .register injector targets =>
    { d with registered := (d.library.register injector targets).registered }
  | .setTheme theme => { d with theme := theme, styles := .empty theme }
  | .packLine t line stack =>
    let l := (d.library.packLine t line stack).2
    { d with theme := l.theme, styles := l.styles }
  | .ask n => d.ask n
  | .answer n loader => d.answer n loader
  | .link n loader => d.link n loader
  | .make n => d.make n
  | .receiveDocument i => { d with documents := d.documents.receive i }
  | .receiveGrammar i => { d with grammars := d.grammars.receive i }
  | .receiveTokenizer i => { d with tokenizers := d.tokenizers.receive i }

/-- The desk after events, one after another. -/
def run (d : Desk) (events : List Event) : Desk := events.foldl next d

end Desk

end Highlight
