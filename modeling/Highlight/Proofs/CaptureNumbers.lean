import Highlight.Proofs.FaithfulTable
import Highlight.Proofs.LinkedDocuments
import Highlight.Proofs.WrittenGrammars

/-!
# The numbers of captures

A rule has a place for each number up to the greatest that a capture of it has. The places are
counted in 64 bits before the greatest number is compared to the limit. What is proved:

1. `length_captureTable_eq`: there are as many places as the greatest number takes, and
   `captureTable_eq_some` says which rule stands at each.
2. `capture_numbers`: whatever numbers captures have, they compile to such a table if none of the
   numbers is beyond the limit, and otherwise the greatest number is named in an error, as long as
   the places can be counted.
3. `greatestNumber_overflows`: with the greatest number of 64 bits it cannot.
-/

namespace Highlight

open RawGrammar (foldl_max_mem captureTable_eq_some)

/-- How many places captures take: one for each number up to the greatest, and zero. -/
def placesFor (numbers : List Nat) : Nat := numbers.max?.elim 0 (· + 1)

variable {numbers : List Nat} {m n : Nat}

theorem foldl_max_eq (numbers : List Nat) : numbers.foldl max 0 = numbers.max?.getD 0 := by
  cases numbers with
  | nil => rfl
  | cons n ns => rw [List.foldl_cons, List.max?_cons', Nat.zero_max, Option.getD_some]

theorem foldl_max_succ : ∀ (ns : List Nat) (m : Nat),
    (ns.map (· + 1)).foldl max (m + 1) = ns.foldl max m + 1
  | [], _ => rfl
  | n :: ns, m => by
    rw [List.map_cons, List.foldl_cons, List.foldl_cons, Nat.add_max_add_right, foldl_max_succ ns]

theorem foldl_max_eq_placesFor (numbers : List Nat) :
    (numbers.map (· + 1)).foldl max 0 = placesFor numbers := by
  cases numbers with
  | nil => rfl
  | cons n ns =>
    rw [placesFor, List.max?_cons', List.map_cons, List.foldl_cons, Nat.zero_max, foldl_max_succ]
    rfl

/-! ## Tables of captures -/

theorem length_captureTable_eq (ids : List (Nat × RuleId)) :
    (captureTable ids).length = placesFor (ids.map (·.1)) := by
  rw [RawGrammar.length_captureTable, ← foldl_max_eq_placesFor, List.map_map]
  rfl

/-- The rules of captures keep their numbers. -/
theorem compileNumbered_numbers {own : ScopeName} {chain : Chain} :
    ∀ {cs : List (Nat × RawRule)} {ids : List (Nat × RuleId)} {d d' : Draft},
      compileNumbered own chain cs d = .ok (ids, d') → ids.map (·.1) = cs.map (·.1)
  | [], ids, d, d', h => by
    unfold compileNumbered at h
    cases h
    rfl
  | (n, raw) :: cs, ids, d, d', h => by
    unfold compileNumbered at h
    obtain ⟨id, d₁, _, h⟩ := Compiling.bind_eq_ok.1 h
    obtain ⟨ids', d₂, hids, h⟩ := Compiling.bind_eq_ok.1 h
    cases h
    rw [List.map_cons, List.map_cons, compileNumbered_numbers hids]

section

variable {own : ScopeName} {compile : Compiling (List (Nat × RuleId))} {d d' : Draft}

theorem compileCaptures_within (h : ∀ n ∈ numbers, n ≤ maxCaptureIndex) :
    compileCaptures own numbers compile = do
      let ids ← compile
      return captureTable ids := by
  have hle : ¬maxCaptureIndex < numbers.foldl max 0 := by
    rcases foldl_max_mem numbers 0 with heq | hmem
    · rw [heq]
      exact Nat.not_lt_zero _
    · exact Nat.not_lt.2 (h _ hmem)
  unfold compileCaptures
  exact if_neg hle

theorem compileCaptures_beyond (hmax : numbers.max? = some m) (h : maxCaptureIndex < m) :
    compileCaptures own numbers compile = .fail (.ofCaptureIndex own m) := by
  unfold compileCaptures
  simp only [foldl_max_eq, hmax, Option.getD_some]
  exact if_pos h

end

/-- Every number of 64 bits may be written as the number of a capture. -/
theorem index?_toString (h : n < UInt64.size) : RawRule.index? (.text (toString n)) = some n := by
  have hread : GrammarFormat.IndexSpelling .json n
      (.text (GrammarFormat.indexText [] [] false 0 n)) := .text rfl rfl false 0
  have htext : toString n = GrammarFormat.indexText [] [] false 0 n := by
    simp [GrammarFormat.indexText, toString, Nat.repr]
  rw [htext]
  exact hread.read h

/-- The error names the number and the limit. -/
theorem message?_captureIndex (own : ScopeName) (m : Nat) :
    GrammarError.message? (.badRule own (.captureIndex m)) =
      some ("invalid rule in grammar '" ++ own ++ "': capture index " ++ toString m ++
        " exceeds 999") := by
  have hstart : "': capture index " = "': " ++ "capture index " := by decide
  have hlimit : " exceeds 999" = " exceeds " ++ toString maxCaptureIndex := by decide
  rw [GrammarError.message?, RuleFault.message, hstart, hlimit]
  simp only [String.append_assoc]

/-- Captures with any numbers of 64 bits, all of which can be read. If none of the numbers is beyond
the limit, the captures compile if their rules do, to a table that has a place for each number up to
the greatest, and a rule at just those that are written. Otherwise the greatest number is refused
with an error that names it, unless it is the greatest of all: then the places cannot be counted. -/
theorem capture_numbers (own : ScopeName) (chain : Chain) (cs : List (Nat × RawRule))
    (hnumbers : ∀ n ∈ cs.map (·.1), n < UInt64.size) :
    (∀ n ∈ cs.map (·.1), RawRule.index? (.text (toString n)) = some n) ∧
    ∃ compile, compileCaptures? own chain (some cs) = some compile ∧
      ((∀ n ∈ cs.map (·.1), n ≤ maxCaptureIndex) → ∀ d,
        (∀ e, compileNumbered own chain cs d = .error e → compile d = .error e) ∧
        ∀ ids d', compileNumbered own chain cs d = .ok (ids, d') →
          ∃ table, compile d = .ok (table, d') ∧ table.length = placesFor (cs.map (·.1)) ∧
            ∀ n, (∃ id, table[n]? = some (some id)) ↔ n ∈ cs.map (·.1)) ∧
      ∀ m, (cs.map (·.1)).max? = some m → maxCaptureIndex < m →
        (m + 1 < UInt64.size → compile = .fail (.badRule own (.captureIndex m)) ∧
          GrammarError.message? (.badRule own (.captureIndex m)) =
            some ("invalid rule in grammar '" ++ own ++ "': capture index " ++ toString m ++
              " exceeds 999")) ∧
        (m + 1 = UInt64.size → compile = .fail .overflow) := by
  refine ⟨fun n hn => index?_toString (hnumbers n hn), _, compileCaptures?.eq_def .., ?_, ?_⟩
  · intro hle d
    rw [compileCaptures_within hle]
    refine ⟨fun e he => ?_, fun ids d' hids => ⟨captureTable ids, ?_, ?_, fun n => ?_⟩⟩
    · simp only [bind, Compiling.bind, he]
    · exact Compiling.bind_eq_ok.2 ⟨ids, d', hids, rfl⟩
    · rw [length_captureTable_eq, compileNumbered_numbers hids]
    · simp only [captureTable_eq_some]
      rw [← compileNumbered_numbers hids, ← Option.isSome_iff_exists]
      exact isSome_lookup_iff_mem
  · intro m hmax hlt
    rw [compileCaptures_beyond hmax hlt, GrammarError.ofCaptureIndex]
    refine ⟨fun hfits => ⟨?_, message?_captureIndex own m⟩, fun hgreatest => ?_⟩
    · rw [if_pos hfits]
    · rw [if_neg (Nat.not_lt.2 (Nat.le_of_eq hgreatest.symm))]

/-! ### Numbers of captures -/

/-- A rule that gives a name. -/
def named (name : String) : RawRule := { (default : RawRule) with name := some name }

/-- Captures with a number left out. -/
def gapCaptures : List (Nat × RawRule) := [(1, named "one"), (3, named "three")]

/-- Captures with a number that is too great. -/
def farCaptures : List (Nat × RawRule) := [(1, named "one"), (18446744073709551614, named "far")]

theorem gapCaptures_compiles :
    (compileNumbered "source.t" [] gapCaptures ⟨#[], []⟩).toOption.isSome := by decide

/-- Four places for two captures, and an error for a number that is one less than the greatest. -/
theorem capture_numbers_gap :
    (∀ n ∈ gapCaptures.map (·.1), n < UInt64.size) ∧
    (∀ n ∈ gapCaptures.map (·.1), n ≤ maxCaptureIndex) ∧
    (∃ compile table d', compileCaptures? "source.t" [] (some gapCaptures) = some compile ∧
      compile ⟨#[], []⟩ = .ok (table, d') ∧ table.length = 4 ∧
      ∀ n, (∃ id, table[n]? = some (some id)) ↔ n ∈ [1, 3]) ∧
    (∀ n ∈ farCaptures.map (·.1), n < UInt64.size) ∧
    compileCaptures? "source.t" [] (some farCaptures) =
      some (.fail (.badRule "source.t" (.captureIndex 18446744073709551614))) := by
  have hgap : ∀ n ∈ gapCaptures.map (·.1), n < UInt64.size := by decide
  have hwithin : ∀ n ∈ gapCaptures.map (·.1), n ≤ maxCaptureIndex := by decide
  have hfar : ∀ n ∈ farCaptures.map (·.1), n < UInt64.size := by decide
  refine ⟨hgap, hwithin, ?_, hfar, ?_⟩
  · obtain ⟨_, compile, hcompile, htable, _⟩ := capture_numbers "source.t" [] gapCaptures hgap
    have hids := Except.eq_ok_of_toOption (Option.some_get gapCaptures_compiles).symm
    obtain ⟨table, h, hlength, hplaces⟩ := (htable hwithin ⟨#[], []⟩).2 _ _ hids
    exact ⟨compile, table, _, hcompile, h, hlength, hplaces⟩
  · obtain ⟨_, compile, hcompile, _, herror⟩ := capture_numbers "source.t" [] farCaptures hfar
    have hmax : (farCaptures.map (·.1)).max? = some 18446744073709551614 := by decide
    rw [hcompile, ((herror _ hmax (by decide)).1 (by decide)).1]

/-- A capture with the greatest number of 64 bits. -/
def greatestNumberValue : Value := .dict [
  (.text "scopeName", .text "source.t"),
  (.text "patterns", .list [
    .dict [(.text "match", .text "a"), (.text "captures", .dict [
      (.text "18446744073709551615", .dict [(.text "name", .text "x")])])]])]

/-- The grammar with such a capture as written. -/
def greatestNumberSource : RawGrammar :=
  (RawGrammar.read? ⟨8, false⟩ greatestNumberValue).get (by decide +kernel)

/-- The number is read, and is too great for an error. -/
theorem greatestNumber_overflows :
    RawRule.index? (.text "18446744073709551615") = some 18446744073709551615 ∧
    18446744073709551615 < UInt64.size ∧ maxCaptureIndex < 18446744073709551615 ∧
    (greatestNumberSource.rule? [.pattern 0]).map
        (fun r => (r.captures.getD []).map (·.1)) = some [18446744073709551615] ∧
    CompiledGrammar.compile greatestNumberSource = .error .overflow ∧
    CompiledGrammar.compile greatestNumberSource ≠
      .error (.badRule "source.t" (.captureIndex 18446744073709551615)) := by
  have hcompile : CompiledGrammar.compile greatestNumberSource = .error .overflow :=
    Except.eq_error_of_map (f := fun _ => ()) (by decide +kernel)
  refine ⟨by decide, by decide, by decide, by decide +kernel, hcompile, ?_⟩
  rw [hcompile]
  simp

end Highlight
