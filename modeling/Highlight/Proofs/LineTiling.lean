import Highlight.Proofs.TokenRuns

/-!
# The tokens of a line tile it

`Cover start ts stop` says that tokens follow each other from one offset to another without gap or
overlap, none of them empty. A run of tokens covers the text up to where it stops, because extending
it keeps that (`Grows.covers`); a scan goes on until the run reaches the end of the text, which lies
behind the end of the line (`scanLine_reaches`); cutting off what lies behind the line leaves a
cover of the line (`finish_covers`). Positions become byte offsets last, and each of them falls
between two characters of the line. The main statement is `tokenizeLineWithin_tiles`: it holds of
every stack, also of one that the grammar knows nothing about, and of lines that cannot be scanned.
-/

namespace Highlight

/-- The tokens follow each other from `start` to `stop` without gap or overlap, none of them empty.
-/
def Cover : Nat → List Token → Nat → Prop
  | start, [], stop => start = stop
  | start, t :: ts, stop => t.start = start ∧ t.start < t.stop ∧ Cover t.stop ts stop

/-- What the tokens of a line are to be, in byte offsets: they cover the line, a line of no
characters has one empty token, and every offset falls between two characters. -/
structure Tiles (line : String) (ts : List Token) : Prop where
  cover : line ≠ "" → Cover 0 ts line.utf8ByteSize
  empty : line = "" → ∃ scopes, ts = [⟨0, 0, scopes⟩]
  boundaries : ∀ t ∈ ts, String.Pos.Raw.IsValid line ⟨t.start⟩ ∧
    String.Pos.Raw.IsValid line ⟨t.stop⟩

/-! ## Covers -/

theorem cover_append {us : List Token} : ∀ {a b : Nat} {ts : List Token},
    Cover a (ts ++ us) b ↔ ∃ c, Cover a ts c ∧ Cover c us b
  | a, b, [] => by simp [Cover]
  | a, b, t :: ts => by
    rw [List.cons_append, Cover, cover_append]
    constructor
    · rintro ⟨hstart, hlt, c, hts, hus⟩
      exact ⟨c, ⟨hstart, hlt, hts⟩, hus⟩
    · rintro ⟨c, ⟨hstart, hlt, hts⟩, hus⟩
      exact ⟨hstart, hlt, c, hts, hus⟩

theorem Cover.le : ∀ {a b : Nat} {ts : List Token}, Cover a ts b → a ≤ b
  | _, _, [], h => Nat.le_of_eq h
  | _, _, _ :: _, ⟨hstart, hlt, h⟩ => by
    have := Cover.le h
    omega

/-- Every token of a cover lies in it. -/
theorem Cover.mem_le {u : Token} : ∀ {a b : Nat} {ts : List Token}, Cover a ts b → u ∈ ts →
    a ≤ u.start ∧ u.start < u.stop ∧ u.stop ≤ b
  | _, _, t :: ts, ⟨hstart, hlt, h⟩, hu => by
    rcases List.mem_cons.1 hu with rfl | hu
    · have := Cover.le h
      omega
    · have := Cover.mem_le h hu
      omega

/-- Every offset of a cover lies in one of its tokens. -/
theorem Cover.exists_mem {offset : Nat} : ∀ {a b : Nat} {ts : List Token}, Cover a ts b →
    a ≤ offset → offset < b → ∃ u ∈ ts, u.start ≤ offset ∧ offset < u.stop
  | a, b, [], h, ha, hb => by
    have : a = b := h
    omega
  | _, _, t :: ts, ⟨hstart, _, h⟩, ha, hb => by
    by_cases hin : offset < t.stop
    · exact ⟨t, List.mem_cons_self, by omega, hin⟩
    · obtain ⟨u, hu, hcovers⟩ := h.exists_mem (by omega) hb
      exact ⟨u, List.mem_cons_of_mem t hu, hcovers⟩

/-- A cover seen through an increasing change of offsets. -/
theorem Cover.map {f : Nat → Nat} {n : Nat} (hf : ∀ p q, p < q → q ≤ n → f p < f q) :
    ∀ {a b : Nat} {ts : List Token}, Cover a ts b → b ≤ n →
      Cover (f a) (ts.map fun t => { t with start := f t.start, stop := f t.stop }) (f b)
  | _, _, [], h, _ => congrArg f h
  | _, _, t :: ts, ⟨hstart, hlt, h⟩, hb => by
    have := Cover.le h
    exact ⟨congrArg f hstart, hf _ _ hlt (by omega), Cover.map hf h hb⟩

/-! ## Runs -/

namespace TokenRun

/-- The tokens of the run cover the text up to where it stops. -/
def Covers (run : TokenRun) : Prop := Cover 0 run.tokens.reverse run.stop

theorem covers_produce {run : TokenRun} (stop : Nat) (scopes : ScopePath) (h : run.Covers) :
    (run.produce stop scopes).Covers := by
  unfold produce
  split
  · exact h
  · rename_i hlt
    simp only [Covers, List.reverse_cons, cover_append]
    exact ⟨run.stop, h, rfl, Nat.lt_of_not_le hlt, rfl⟩

theorem le_stop_produce (run : TokenRun) (stop : Nat) (scopes : ScopePath) :
    stop ≤ (run.produce stop scopes).stop := by
  unfold produce
  split
  · assumption
  · exact Nat.le_refl stop

theorem Grows.covers {good : ScopePath → Prop} {run run' : TokenRun} (h : Grows good run run')
    (hrun : run.Covers) : run'.Covers :=
  h.keeps (fun _ stop scopes _ => covers_produce stop scopes) hrun

/-- Where tokens, the last first, cover more than the first `size` positions, those that start
before position `size` are followed by one that holds it or ends there. -/
theorem kept_cover {size : Nat} (hpos : 0 < size) : ∀ {ts : List Token} {stop : Nat},
    Cover 0 ts.reverse stop → size ≤ stop → ∃ t rest, ts.filter (·.start < size) = t :: rest ∧
      Cover 0 rest.reverse t.start ∧ t.start < size ∧ size ≤ t.stop
  | [], stop, h, hstop => by
    have : (0 : Nat) = stop := h
    omega
  | t :: ts, stop, h, hstop => by
    rw [List.reverse_cons, cover_append] at h
    obtain ⟨c, hts, hc, hlt, heq⟩ := h
    have hlast : t.stop = stop := heq
    subst hc
    by_cases hin : t.start < size
    · -- all others end where this one starts or before
      have hall : ts.filter (·.start < size) = ts := by
        rw [List.filter_eq_self]
        intro u hu
        have := hts.mem_le (List.mem_reverse.2 hu)
        simp only [decide_eq_true_eq]
        omega
      refine ⟨t, ts, ?_, hts, hin, by omega⟩
      rw [List.filter_cons_of_pos (by simpa using hin), hall]
    · rw [List.filter_cons_of_neg (by simpa using hin)]
      exact kept_cover hpos hts (by omega)

/-- Cutting a run that goes beyond the line at its end leaves a cover of the line. -/
theorem finish_covers {run : TokenRun} {size : Nat} (hpos : 0 < size) (hcover : run.Covers)
    (hstop : size ≤ run.stop) : Cover 0 (run.finish size) size := by
  obtain ⟨t, rest, hkept, hrest, hlt, hle⟩ := kept_cover hpos hcover hstop
  simp only [finish, hkept, List.reverse_cons, cover_append]
  refine ⟨t.start, hrest, rfl, ?_, ?_⟩
  · simp only
    omega
  · exact Nat.min_eq_right hle

theorem finish_zero (run : TokenRun) : ∃ scopes, run.finish 0 = [⟨0, 0, scopes⟩] := by
  have hkept : run.tokens.filter (·.start < 0) = [] := by simp
  simp only [finish, hkept]
  exact ⟨_, rfl⟩

end TokenRun

/-! ## Byte offsets -/

namespace Subject

theorem offsetsFrom_getElem? : ∀ (cs : List Char) (n p : Nat), p ≤ cs.length →
    (offsetsFrom n cs)[p]? = some (n + (String.ofList (cs.take p)).utf8ByteSize)
  | [], n, p, h => by
    have : p = 0 := Nat.le_zero.1 h
    subst this
    simp [offsetsFrom]
  | c :: cs, n, 0, _ => by simp [offsetsFrom]
  | c :: cs, n, p + 1, h => by
    rw [offsetsFrom, List.getElem?_cons_succ, offsetsFrom_getElem? cs _ p (by simpa using h),
      List.take_succ_cons, ← List.singleton_append, String.ofList_append,
      String.utf8ByteSize_append, ← String.singleton_eq_ofList, String.utf8ByteSize_singleton,
      Nat.add_assoc]

/-- The byte offset of a position is the size of what comes before it. -/
theorem byteOffset_ofList {cs : List Char} {p : Nat} (h : p ≤ cs.length) :
    (ofList cs).byteOffset p = (String.ofList (cs.take p)).utf8ByteSize := by
  have hp : min p (ofList cs).size = p := Nat.min_eq_left (by simpa [ofList, size] using h)
  rw [byteOffset, hp]
  simp [ofList, Array.getD_eq_getD_getElem?, offsetsFrom_getElem? cs 0 p h]

/-- Positions in a line have the same byte offset whatever follows the line. -/
theorem byteOffset_append {cs : List Char} (ds : List Char) {p : Nat} (h : p ≤ cs.length) :
    (ofList (cs ++ ds)).byteOffset p = (String.ofList (cs.take p)).utf8ByteSize := by
  rw [byteOffset_ofList (by rw [List.length_append]; omega), List.take_append_of_le_length h]

theorem utf8ByteSize_take_lt {cs : List Char} {p q : Nat} (hlt : p < q) (hq : q ≤ cs.length) :
    (String.ofList (cs.take p)).utf8ByteSize < (String.ofList (cs.take q)).utf8ByteSize := by
  have hsplit : cs.take q = cs.take p ++ (cs.drop p).take (q - p) := by
    rw [← List.take_add, Nat.add_sub_cancel' (Nat.le_of_lt hlt)]
  have hne : (cs.drop p).take (q - p) ≠ [] := by
    intro h
    have := congrArg List.length h
    simp at this
    omega
  rw [hsplit, String.ofList_append, String.utf8ByteSize_append]
  have : (String.ofList ((cs.drop p).take (q - p))).utf8ByteSize ≠ 0 := by
    rw [Ne, String.utf8ByteSize_eq_zero_iff]
    simpa using hne
  omega

/-- The byte offset of a position in a line falls between two characters of the line. -/
theorem isValid_byteOffset {line : String} (ds : List Char) {p : Nat} (h : p ≤ line.toList.length) :
    String.Pos.Raw.IsValid line ⟨(ofList (line.toList ++ ds)).byteOffset p⟩ := by
  rw [byteOffset_append ds h]
  have hvalid : String.Pos.Raw.IsValid (String.ofList line.toList)
      ⟨(String.ofList (line.toList.take p)).utf8ByteSize⟩ :=
    String.Pos.Raw.isValid_ofList.2 ⟨p, rfl⟩
  rwa [String.ofList_toList] at hvalid

end Subject

/-! ## Lines -/

/-- Stacks of any kind, with any scopes. -/
theorem stackLaw_any (g : Grammar) : StackLaw g (fun _ => True) (fun _ => True) := by
  constructor <;> intros <;> trivial

/-- A loop that ends has covered the text to its end. -/
theorem Scan.steps_reach {w : Scan} {n : Nat} {s s' : ScanState} (h : w.steps n s = .ok s') :
    w.stop ≤ s'.run.stop := by
  refine Scan.steps_induct (P := fun _ => True) (Q := fun t => w.stop ≤ t.run.stop) ?_ ?_ trivial h
  · intro _ _ _ _
    trivial
  · intro t t' _ ht
    rcases Scan.step_cases ht with ⟨_, hdone⟩ | ⟨c, m, p, _, _, hdone⟩
    · cases hdone
      exact TokenRun.le_stop_produce _ _ _
    · cases p with
      | more _ => cases hdone
      | done _ =>
        cases hdone
        exact TokenRun.le_stop_produce _ _ _

theorem Grammar.scanLine_reaches {g : Grammar} {levels : Nat} {text : Subject} {stack : RuleStack}
    {atStart : Bool} {s : ScanState} (h : g.scanLine levels text stack atStart = .ok s) :
    s.run.Covers ∧ text.size ≤ s.run.stop := by
  refine ⟨(Grammar.scanLine_lawful (stackLaw_any g) trivial h).2.covers rfl, ?_⟩
  simp only [Grammar.scanLine] at h
  obtain ⟨t, _, h⟩ := Except.bind_eq_ok.1 h
  exact Scan.steps_reach h

/-- The scan of a text that is not empty makes tokens. -/
theorem Grammar.scanLine_tokens_ne_nil {g : Grammar} {levels : Nat} {text : Subject}
    {stack : RuleStack} {atStart : Bool} {s : ScanState}
    (h : g.scanLine levels text stack atStart = .ok s) (hsize : 0 < text.size) :
    s.run.tokens ≠ [] := by
  obtain ⟨hcover, hstop⟩ := Grammar.scanLine_reaches h
  intro hnil
  have hzero : 0 = s.run.stop := by
    rw [TokenRun.Covers, hnil] at hcover
    exact hcover
  omega

/-- A run that covers a line and what ends it comes to tokens that tile the line. -/
theorem finish_tiles {line : String} {ds : List Char} {run : TokenRun} (hcover : run.Covers)
    (hstop : line.toList.length ≤ run.stop) :
    Tiles line ((run.finish line.toList.length).map (·.inBytes (.ofList (line.toList ++ ds)))) := by
  have hsize : (String.ofList (line.toList.take line.toList.length)).utf8ByteSize =
      line.utf8ByteSize := by rw [List.take_length, String.ofList_toList]
  by_cases hline : line = ""
  · subst hline
    obtain ⟨scopes, hfinish⟩ := run.finish_zero
    have hzero : (Subject.ofList ([] ++ ds)).byteOffset 0 = 0 :=
      Subject.byteOffset_append ds (Nat.zero_le _)
    refine ⟨fun h => absurd rfl h, fun _ => ⟨scopes, ?_⟩, ?_⟩
    · simpa [hfinish, Token.inBytes] using hzero
    · intro t ht
      simp only [String.toList_empty, List.length_nil, hfinish, List.map_cons, List.map_nil,
        List.mem_singleton] at ht
      subst ht
      have hvalid : String.Pos.Raw.IsValid "" ⟨(Subject.ofList ("".toList ++ ds)).byteOffset 0⟩ :=
        Subject.isValid_byteOffset ds (Nat.zero_le _)
      exact ⟨hvalid, hvalid⟩
  · have hpos : 0 < line.toList.length := by
      rw [List.length_pos_iff]
      simpa using hline
    have hfinish := TokenRun.finish_covers hpos hcover hstop
    refine ⟨fun _ => ?_, fun h => absurd h hline, ?_⟩
    · have hmap := hfinish.map (f := (Subject.ofList (line.toList ++ ds)).byteOffset)
        (fun p q hlt hq => by
          rw [Subject.byteOffset_append ds (by omega), Subject.byteOffset_append ds hq]
          exact Subject.utf8ByteSize_take_lt hlt hq) (Nat.le_refl _)
      rw [Subject.byteOffset_append ds (Nat.le_refl _), hsize,
        Subject.byteOffset_append ds (Nat.zero_le _)] at hmap
      simpa [Token.inBytes] using hmap
    · intro t ht
      obtain ⟨u, hu, rfl⟩ := List.mem_map.1 ht
      have hmem := hfinish.mem_le hu
      exact ⟨Subject.isValid_byteOffset ds (by omega), Subject.isValid_byteOffset ds (by omega)⟩

/-- A line as one token. -/
theorem wholeLine_tiles (g : Grammar) (line : String) (stack : RuleStack) :
    Tiles line (g.wholeLine line stack).tokens := by
  refine ⟨fun hline => ?_, fun hline => ?_, ?_⟩
  · refine ⟨rfl, ?_, rfl⟩
    simp only
    have : line.utf8ByteSize ≠ 0 := by
      rw [Ne, String.utf8ByteSize_eq_zero_iff]
      exact hline
    omega
  · subst hline
    exact ⟨_, rfl⟩
  · intro t ht
    simp only [Grammar.wholeLine, List.mem_singleton] at ht
    subst ht
    exact ⟨String.Pos.Raw.isValid_zero, String.Pos.Raw.isValid_rawEndPos⟩

/-- The tokens of a line tile it, on whatever stack it is tokenized and however deep captured texts
may be scanned. -/
theorem tokenizeLineWithin_tiles (g : Grammar) (levels : Nat) (line : String) (stack : RuleStack) :
    Tiles line (g.tokenizeLineWithin levels line stack).tokens := by
  unfold Grammar.tokenizeLineWithin
  split
  · rename_i t ht
    obtain ⟨start, s, _, hs, rfl⟩ := Grammar.tryTokenizeLine_eq_ok.1 ht
    obtain ⟨hcover, hstop⟩ := Grammar.scanLine_reaches hs
    refine finish_tiles hcover (Nat.le_trans ?_ hstop)
    simp [Subject.ofList, Subject.size]
  · exact wholeLine_tiles g line stack

end Highlight
