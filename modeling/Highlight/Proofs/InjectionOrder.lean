import Highlight.Proofs.DistinctLists
import Highlight.Proofs.RetriedLoads

/-!
# Injections in the order of registration

Grammars are registered to be injected into others, by hosts and by their own texts when they are
loaded. `Library.Logged` says which registrations a library has seen. Of these the ones for a scope
count, each injected grammar at its first one (`Registration.injectorsFor`), whatever else was
registered between them (`Library.Logged.injectorsOf`). A grammar that is linked has its own
injections first, in the order of its text, then those of the grammars that the loader gives, then
those of the others that had been registered when its own text had been loaded
(`Library.loadGrammar_injections`).
-/

namespace Highlight

/-- A grammar is registered to be injected into others. -/
structure Registration where
  injector : ScopeName
  targets : List ScopeName
  deriving Repr, DecidableEq

namespace Registration

/-- The injected grammars of the registrations for a target, one for each. -/
def namedFor (calls : List Registration) (target : ScopeName) : List ScopeName :=
  (calls.filter fun c => c.targets.contains target).map (·.injector)

/-- The grammars registered for a target, in the order in which they first were. -/
def injectorsFor (calls : List Registration) (target : ScopeName) : List ScopeName :=
  (namedFor calls target).eraseDups

theorem nodup_injectorsFor (calls : List Registration) (target : ScopeName) :
    (injectorsFor calls target).Nodup :=
  nodup_eraseDups _

theorem eraseDups_append_singleton (l : List ScopeName) (a : ScopeName) :
    (l ++ [a]).eraseDups = Library.addOnce a l.eraseDups := by
  rw [Library.addOnce]
  by_cases ha : a ∈ l
  · rw [eraseDups_concat_of_mem ha, if_pos (List.contains_iff_mem.2 (List.mem_eraseDups.2 ha))]
  · have hnew : a ∉ l.eraseDups := mt List.mem_eraseDups.1 ha
    rw [eraseDups_concat_of_not_mem ha, if_neg (mt List.contains_iff_mem.1 hnew)]

theorem injectorsFor_append (calls : List Registration) (c : Registration) (target : ScopeName) :
    injectorsFor (calls ++ [c]) target =
      if target ∈ c.targets then Library.addOnce c.injector (injectorsFor calls target)
      else injectorsFor calls target := by
  by_cases htarget : target ∈ c.targets
  · have hnamed : namedFor (calls ++ [c]) target = namedFor calls target ++ [c.injector] := by
      simp [namedFor, htarget]
    rw [if_pos htarget, injectorsFor, hnamed, eraseDups_append_singleton]
    rfl
  · have hnamed : namedFor (calls ++ [c]) target = namedFor calls target := by
      simp [namedFor, htarget]
    rw [if_neg htarget, injectorsFor, hnamed]
    rfl

end Registration

/-- The registration that loading a scope makes, if there is a grammar. -/
def Loader.registration? (loader : Loader) (scope : ScopeName) : Option Registration :=
  (loader.document scope).toOption.map fun d => ⟨scope, d.injectTo⟩

/-- What a linked document injects. -/
def Grammar.injectedBy? (g : Grammar) (scope : ScopeName) : Option Injection :=
  (g.document? scope).bind fun d => d.injectionSelector.map fun s => ⟨s, ⟨scope, d.root⟩⟩

namespace Library

open Registration

/-! ## The table of registrations -/

/-- The table after registrations, one after another. -/
def registerAll (table : List (ScopeName × List ScopeName)) (calls : List Registration) :
    List (ScopeName × List ScopeName) :=
  calls.foldl (fun t c => c.targets.foldl (fun t target => registerOne c.injector target t) t) table

theorem lookup_registerOne (injector other target : ScopeName)
    (table : List (ScopeName × List ScopeName)) :
    ((registerOne injector other table).lookup target).getD [] =
      if target = other then addOnce injector ((table.lookup target).getD [])
      else (table.lookup target).getD [] := by
  unfold registerOne
  split
  · rename_i heq
    rw [heq, Value.lookup_put_self, Option.getD_some]
  · rename_i hne
    rw [Value.lookup_put_of_ne hne]

theorem addOnce_addOnce (injector : ScopeName) (l : List ScopeName) :
    addOnce injector (addOnce injector l) = addOnce injector l := by
  by_cases hmem : injector ∈ l
  · simp [addOnce, hmem]
  · simp [addOnce, hmem]

/-- A grammar that is registered for a target several times at once is registered once. -/
theorem lookup_registerTargets (injector target : ScopeName) : ∀ (targets : List ScopeName)
    (table : List (ScopeName × List ScopeName)),
    ((targets.foldl (fun t other => registerOne injector other t) table).lookup target).getD [] =
      if target ∈ targets then addOnce injector ((table.lookup target).getD [])
      else (table.lookup target).getD []
  | [], _ => rfl
  | other :: targets, table => by
    rw [List.foldl_cons, lookup_registerTargets injector target targets, lookup_registerOne]
    by_cases hhead : target = other
    · subst hhead
      by_cases hrest : target ∈ targets <;> simp [hrest, addOnce_addOnce]
    · simp [hhead]

/-- The table lists the grammars registered for a target in the order in which they first were. -/
theorem lookup_registerAll (calls : List Registration) (target : ScopeName) :
    ((registerAll [] calls).lookup target).getD [] = injectorsFor calls target := by
  -- a registration comes after all that were made, so the induction takes the last one off
  induction calls using List.reverseRecOn with
  | nil => rfl
  | append_singleton calls c ih =>
    have happend : registerAll [] (calls ++ [c]) = c.targets.foldl
        (fun t target => registerOne c.injector target t) (registerAll [] calls) := by
      rw [registerAll, List.foldl_append]
      rfl
    rw [happend, lookup_registerTargets, ih, injectorsFor_append]

/-- What is added to a list is what is not in it, in order. -/
theorem foldl_addOnce : ∀ (new given : List ScopeName), new.Nodup →
    new.foldl (fun out i => addOnce i out) given =
      given ++ new.filter fun i => !given.contains i
  | [], given, _ => (List.append_nil given).symm
  | i :: new, given, h => by
    obtain ⟨hi, hnew⟩ := List.nodup_cons.1 h
    rw [List.foldl_cons, foldl_addOnce new _ hnew]
    by_cases hmem : i ∈ given
    · have honce : addOnce i given = given := by simp [addOnce, hmem]
      rw [honce, List.filter_cons_of_neg (by simpa using hmem)]
    · have honce : addOnce i given = given ++ [i] := by simp [addOnce, hmem]
      have hfilter : (new.filter fun j => !(given ++ [i]).contains j) =
          new.filter fun j => !given.contains j := by
        apply List.filter_congr
        intro j hj
        have hne : j ≠ i := fun heq => hi (heq ▸ hj)
        simp [hne]
      rw [honce, hfilter, List.filter_cons_of_pos (by simpa using hmem), List.append_assoc]
      rfl

/-! ## Registrations by loading -/

/-- The scopes that the loader has been asked for since, the first one first. -/
def askedSince (l l' : Library) : List ScopeName :=
  (l'.requests.take (l'.requests.length - l.requests.length)).reverse

/-- The registrations that loading has made since. -/
def registeredSince (l : Library) (loader : Loader) (l' : Library) : List Registration :=
  (l.askedSince l').filterMap loader.registration?

/-- From one library to the other the loader was asked for the scopes, the first one first, and each
grammar that came was registered for its targets. -/
structure Brings (loader : Loader) (l l' : Library) (asked : List ScopeName) : Prop where
  requests : l'.requests = asked.reverse ++ l.requests
  registered : l'.registered = registerAll l.registered (asked.filterMap loader.registration?)

namespace Brings

variable {loader : Loader} {l l' l'' : Library} {asked asked' : List ScopeName}

theorem refl (loader : Loader) (l : Library) : Brings loader l l [] := ⟨rfl, rfl⟩

theorem trans (h : Brings loader l l' asked) (h' : Brings loader l' l'' asked') :
    Brings loader l l'' (asked ++ asked') where
  requests := by rw [h'.requests, h.requests, List.reverse_append, List.append_assoc]
  registered := by
    rw [h'.registered, h.registered, List.filterMap_append, registerAll, registerAll, registerAll,
      List.foldl_append]

theorem askedSince_eq (h : Brings loader l l' asked) : l.askedSince l' = asked := by
  rw [askedSince, h.requests, List.length_append, Nat.add_sub_cancel, List.take_left,
    List.reverse_reverse]

theorem registered_eq (h : Brings loader l l' asked) :
    l'.registered = registerAll l.registered (l.registeredSince loader l') := by
  rw [h.registered, registeredSince, h.askedSince_eq]

end Brings

variable {loader : Loader}

theorem fetch_brings (l : Library) (loader : Loader) (scope : ScopeName) :
    Brings loader l (l.fetch loader scope).2 [scope] := by
  have hdocument : compileAnswer scope (loader.sources.lookup scope) = loader.document scope := rfl
  unfold fetch
  dsimp only
  rw [hdocument]
  cases hd : loader.document scope with
  | error e => exact ⟨rfl, by simp [registerAll, Loader.registration?, hd, Except.toOption]⟩
  | ok d =>
    refine ⟨rfl, ?_⟩
    simp only [Loader.registration?, hd, Except.toOption, List.filterMap_cons, Option.map_some,
      List.filterMap_nil]
    rfl

theorem load_brings (l : Library) (loader : Loader) (scope : ScopeName) :
    ∃ asked, Brings loader l (l.load loader scope).2 asked := by
  unfold load
  split
  · exact ⟨[], .refl loader l⟩
  · obtain ⟨hrequests, hregistered⟩ := fetch_brings l loader scope
    exact ⟨[scope], hrequests, hregistered⟩

theorem loadAll_brings : ∀ (scopes : List ScopeName) (l : Library),
    ∃ asked, Brings loader l (l.loadAll loader scopes).2 asked
  | [], l => ⟨[], .refl loader l⟩
  | scope :: scopes, l => by
    obtain ⟨asked, h⟩ := load_brings l loader scope
    obtain ⟨asked', h'⟩ := loadAll_brings scopes (l.load loader scope).2
    exact ⟨asked ++ asked', h.trans h'⟩

theorem walkFrom_brings : ∀ (waves : Nat) (l : Library) (w : Walk) (wave : List ScopeName),
    ∃ asked, Brings loader l (walkFrom loader waves l w wave).2 asked
  | 0, l, _, _ => ⟨[], .refl loader l⟩
  | _ + 1, l, _, [] => ⟨[], .refl loader l⟩
  | waves + 1, l, w, s :: wave => by
    obtain ⟨asked, h⟩ := @loadAll_brings loader (s :: wave) l
    rw [walkFrom]
    · dsimp only
      split
      · exact ⟨asked, h⟩
      · rename_i next w' _
        obtain ⟨asked', h'⟩ := walkFrom_brings waves (l.loadAll loader (s :: wave)).2 w' next
        exact ⟨asked ++ asked', h.trans h'⟩
    · simp

theorem link_brings (l : Library) (loader : Loader) (scope : ScopeName) :
    ∃ asked, Brings loader l (l.link loader scope).2 asked := by
  obtain ⟨asked, h⟩ := load_brings l loader scope
  unfold link
  generalize l.load loader scope = loaded at h
  obtain ⟨r, l₁⟩ := loaded
  cases r with
  | error e => exact ⟨asked, h⟩
  | ok root =>
    dsimp only
    generalize Walk.meet _ _ = start
    obtain ⟨asked', h'⟩ := @walkFrom_brings loader (l₁.waves loader) l₁ start.2 start.1
    have hall := h.trans h'
    split
    · rename_i heq
      rw [heq] at hall
      exact ⟨_, hall⟩
    · rename_i heq
      rw [heq] at hall
      split
      · exact ⟨_, hall⟩
      · -- what is linked is kept besides, which leaves requests and registrations as they are
        exact ⟨_, hall.requests, hall.registered⟩

theorem loadGrammar_brings (l : Library) (loader : Loader) (scope : ScopeName) :
    ∃ asked, Brings loader l (l.loadGrammar loader scope).2 asked := by
  unfold loadGrammar
  split
  · exact ⟨[], .refl loader l⟩
  · obtain ⟨asked, hrequests, hregistered⟩ := link_brings l loader scope
    exact ⟨asked, hrequests, hregistered⟩

/-! ## Histories of a library -/

/-- What comes of doing things with a library that has loaded nothing, whatever loaders say
meanwhile, with all registrations so far: those of hosts, and those of the grammars that were
loaded. -/
inductive Logged : Library → List Registration → Prop
  | empty (theme : Theme) : Logged (.empty theme) []
  | setTheme {l : Library} {calls : List Registration} (h : Logged l calls) (theme : Theme) :
      Logged (l.setTheme theme) calls
  | register {l : Library} {calls : List Registration} (h : Logged l calls) (injector : ScopeName)
      (targets : List ScopeName) :
      Logged (l.register injector targets) (calls ++ [⟨injector, targets⟩])
  | load {l : Library} {calls : List Registration} (h : Logged l calls) (loader : Loader)
      (scope : ScopeName) : Logged (l.load loader scope).2
        (calls ++ l.registeredSince loader (l.load loader scope).2)
  | loadGrammar {l : Library} {calls : List Registration} (h : Logged l calls) (loader : Loader)
      (scope : ScopeName) : Logged (l.loadGrammar loader scope).2
        (calls ++ l.registeredSince loader (l.loadGrammar loader scope).2)
  | forget {l : Library} {calls : List Registration} (h : Logged l calls) (scope : ScopeName) :
      Logged (l.forget scope) calls

namespace Logged

variable {l : Library} {calls : List Registration}

/-- The table is what the registrations make it. -/
theorem registered (h : Logged l calls) : l.registered = registerAll [] calls := by
  have happend : ∀ calls more, registerAll [] (calls ++ more) =
      registerAll (registerAll [] calls) more := by
    intro calls more
    rw [registerAll, List.foldl_append]
    rfl
  induction h with
  | empty theme => rfl
  | setTheme _ _ ih => exact ih
  | register _ injector targets ih =>
    rw [happend, ← ih]
    rfl
  | @load l calls _ loader scope ih =>
    obtain ⟨asked, hbrings⟩ := load_brings l loader scope
    rw [hbrings.registered_eq, happend, ih]
  | @loadGrammar l calls _ loader scope ih =>
    obtain ⟨asked, hbrings⟩ := loadGrammar_brings l loader scope
    rw [hbrings.registered_eq, happend, ih]
  | forget _ _ ih => exact ih

theorem answered (h : Logged l calls) : l.Answered := by
  induction h with
  | empty theme => exact nofun
  | setTheme _ _ ih => exact ih
  | register _ _ _ ih => exact ih
  | load _ loader scope ih => exact ih.load loader scope
  | loadGrammar _ loader scope ih => exact ih.loadGrammar loader scope
  | forget _ scope ih => exact ih.forget scope

/-- The injected grammars are those that the loader gives, then the others that were registered. -/
theorem injectorsOf (h : Logged l calls) (loader : Loader) (scope : ScopeName) :
    let given := (loader.injectors.lookup scope).getD []
    l.injectorsOf loader scope =
      given ++ (injectorsFor calls scope).filter fun i => !given.contains i := by
  intro given
  rw [Library.injectorsOf, h.registered, lookup_registerAll,
    foldl_addOnce _ _ (nodup_injectorsFor calls scope)]

end Logged

/-! ## Linked grammars -/

variable {l : Library} {scope : ScopeName}

/-- What linking gives is linked from the document of the scope and what is injected then. -/
theorem exists_link_of_ok {g : Loaded Grammar} (h : (l.link loader scope).1 = .ok g) :
    ∃ root documents, (l.load loader scope).1.map Loaded.value = .ok root ∧
      Grammar.link root documents ((l.load loader scope).2.injectorsOf loader scope) =
        .ok g.value := by
  unfold link at h
  generalize l.load loader scope = loaded at h
  obtain ⟨r, l₁⟩ := loaded
  cases r with
  | error e => cases h
  | ok root =>
    dsimp only at h
    split at h
    · cases h
    · rename_i w l₂ _
      split at h
      · cases h
      · rename_i g' hlink
        cases h
        exact ⟨root.value, w.found.reverse, rfl, hlink⟩

/-- What loading a scope gives is what the text of an answer says. -/
theorem Answered.exists_renders (h : l.Answered) {root : CompiledGrammar}
    (hroot : (l.load loader scope).1.map Loaded.value = .ok root) :
    l.document loader scope = .ok root ∧
      ∃ raw : RawGrammar, raw.Keyed ∧ root.Renders raw raw.place := by
  obtain ⟨loader', hkeeps, halike, _⟩ := h.exists_loader loader
  have hload := (load_spec hkeeps scope).1
  rw [← (load_alike halike scope).1, hroot] at hload
  exact ⟨(document_eq hkeeps halike scope).trans hload.symm, Loader.exists_renders hload.symm⟩

/-- A grammar that is linked now has the injections of its own text first, in the order of the text,
then those of the grammars that the loader gives, in this order, and then those of the other
grammars that have been registered for it when its own text has been loaded, in the order in which
they first were; those without a selector are left out. Each of these grammars is linked with it. A
grammar that was registered several times counts once, and once at all if the loader gives it.
Nothing else that has been registered matters. -/
theorem loadGrammar_injections {calls : List Registration} (h : l.Logged calls)
    (hnew : l.linked.lookup scope = none) {g : Loaded Grammar}
    (hg : (l.loadGrammar loader scope).1 = .ok g) :
    let calls := calls ++ l.registeredSince loader (l.load loader scope).2
    let given := (loader.injectors.lookup scope).getD []
    let others := (injectorsFor calls scope).filter fun i => !given.contains i
    (∃ root raw place, l.document loader scope = .ok root ∧ root.Renders raw place ∧
      g.value.injections =
        (raw.injections.mapIdx fun n e =>
          ⟨Selector.parse e.1, ⟨raw.scopeName, place [.injection n]⟩⟩) ++
        (given ++ others).filterMap g.value.injectedBy?) ∧
    (∀ s ∈ given ++ others, (g.value.document? s).isSome) ∧
    others.Nodup ∧
    ∀ other more, Logged other more → namedFor more scope = namedFor calls scope →
      other.injectorsOf loader scope = given ++ others := by
  intro calls given others
  have hlink : (l.link loader scope).1 = .ok g := by
    rw [loadGrammar, hnew] at hg
    exact hg
  obtain ⟨root, documents, hroot, hlinked⟩ := exists_link_of_ok hlink
  obtain ⟨hdocument, raw, _, hrenders⟩ := h.answered.exists_renders hroot
  have hinjectors := (h.load loader scope).injectorsOf loader scope
  rw [hinjectors] at hlinked
  obtain ⟨-, hpresent, hvalue⟩ := Grammar.link_eq_ok_iff.1 hlinked
  have hlookup : ∀ s, g.value.document? s = lastOf (documents ++ [root]) s := by
    intro s
    rw [hvalue]
    exact Grammar.lookup_byScope _ s
  refine ⟨⟨root, raw, raw.place, hdocument, hrenders, ?_⟩, fun s hs => ?_,
    (nodup_injectorsFor _ scope).filter _, fun other more hother hsame => ?_⟩
  · have hown : (root.injections.map fun i =>
        (⟨i.1, ⟨root.scopeName, i.2⟩⟩ : Injection)) = raw.injections.mapIdx fun n e =>
          ⟨Selector.parse e.1, ⟨raw.scopeName, raw.place [.injection n]⟩⟩ := by
      rw [hrenders.injections, hrenders.header.1]
      apply List.ext_getElem <;> simp
    rw [← hown, hvalue]
    rfl
  · rw [hlookup]
    exact hpresent s hs
  · rw [hother.injectorsOf loader scope, injectorsFor, hsame]
    rfl

/-! ## Competing injections -/

/-- Words have an injection of their own, and the loader gives dots. Digits have no selector. -/
def injectingLoader : Loader where
  sources := [
    ("words", .source ⟨"scopeName: words\ninjections:\n  'L:words':\n    match: w\n", .yaml⟩),
    ("dots", .source ⟨"scopeName: dots\ninjectionSelector: words\n", .yaml⟩),
    ("marks", .source ⟨"scopeName: marks\ninjectionSelector: words\ninjectTo: [words]\n", .yaml⟩),
    ("signs", .source ⟨"scopeName: signs\ninjectionSelector: words\n", .yaml⟩),
    ("digits", .source ⟨"scopeName: digits\n", .yaml⟩)]
  injectors := [("words", ["dots"])]

/-- Signs are registered by the host, then marks by being loaded, then signs, dots and digits. -/
def injectingLibrary : Library :=
  let l := ((empty default).register "signs" ["letters", "words"]).load injectingLoader "marks"
  ((l.2.register "signs" ["words"]).register "dots" ["words"]).register "digits" ["words", "dots"]

/-- The registrations for words. -/
def injectingCalls : List Registration :=
  [⟨"signs", ["letters", "words"]⟩, ⟨"marks", ["words"]⟩, ⟨"signs", ["words"]⟩, ⟨"dots", ["words"]⟩,
    ⟨"digits", ["words", "dots"]⟩]

theorem injectingLibrary_logged : injectingLibrary.Logged injectingCalls := by
  have hload := ((Logged.empty default).register "signs" ["letters", "words"]).load injectingLoader
    "marks"
  have hmarks : registeredSince ((empty default).register "signs" ["letters", "words"])
      injectingLoader (((empty default).register "signs" ["letters", "words"]).load
        injectingLoader "marks").2 = [⟨"marks", ["words"]⟩] := by
    decide +kernel
  rw [hmarks] at hload
  exact ((hload.register "signs" ["words"]).register "dots" ["words"]).register "digits"
    ["words", "dots"]

theorem injectingLibrary_outcome :
    injectingLibrary.linked.lookup "words" = none ∧
      (injectingLibrary.registeredSince injectingLoader
        (injectingLibrary.load injectingLoader "words").2 = [⟨"words", []⟩]) ∧
      (injectingLibrary.loadGrammar injectingLoader "words").1.toOption.map
        (fun g => g.value.injections.map (·.target.grammar)) =
          some ["words", "dots", "signs", "marks"] := by
  decide +kernel

/-- Signs were registered first, and count at their first registration. Dots stand where the loader
gives them. Digits are linked and inject nothing. -/
theorem loadGrammar_injections_words :
    ∃ g, (injectingLibrary.loadGrammar injectingLoader "words").1 = .ok g ∧
      g.value.injections.map (·.target.grammar) = ["words", "dots", "signs", "marks"] ∧
      (∀ s ∈ ["dots", "signs", "marks", "digits"], (g.value.document? s).isSome) ∧
      ∀ other more, Logged other more →
        namedFor more "words" = ["signs", "marks", "signs", "dots", "digits"] →
        other.injectorsOf injectingLoader "words" = ["dots", "signs", "marks", "digits"] := by
  obtain ⟨hnew, hsince, hout⟩ := injectingLibrary_outcome
  obtain ⟨g, hg, horder⟩ := Option.map_eq_some_iff.1 hout
  have hok := Except.eq_ok_of_toOption hg
  have hgiven : (injectingLoader.injectors.lookup "words").getD [] = ["dots"] := rfl
  have hothers : (injectorsFor (injectingCalls ++ [⟨"words", []⟩]) "words").filter
      (fun i => !(["dots"].contains i)) = ["signs", "marks", "digits"] := by
    decide
  obtain ⟨-, hlinked, -, hsame⟩ := loadGrammar_injections injectingLibrary_logged hnew hok
  rw [hsince, hgiven, hothers] at hlinked hsame
  exact ⟨g, hok, horder, hlinked, fun other more h hnamed => hsame other more h (by
    rw [hnamed]
    decide)⟩

end Library

end Highlight
