import Mathlib.Data.List.Chain
import Highlight.Library.Tokenizer
import Highlight.Proofs.LineTiling
import Highlight.Proofs.SegmentOrder

/-!
# Packed tokens

A packed token has no end: it lasts until the next one starts, and a token with the metadata of the
one before is left out. Nothing is lost by that. `Packed` relates tokens to the packed tokens made
of them; adding the next token keeps it (`Packed.add`), because only the last packed token can be
the one that goes on, so it holds of whole lines (`Packed.packFrom`). What the metadata of a path
say is stated apart from how it is searched for: `Innermost` is the value of the innermost scope
that says one, `Scope.FirstMatch` says what a list of names has for a scope, `TokenType.Classifies`
what kind of text a scope stands for, and `Tokenizer.Describes` is what the metadata of a path have
to be, which are determined by it (`Tokenizer.describes_iff`). `packLine_packed` puts this together
with the tiling of the line.
-/

namespace Highlight

/-! ## Metadata of a path -/

/-- The value of the innermost scope of a path that says one, or else the fallback. -/
inductive Innermost {α : Type} (Says : ScopeName → α → Prop) (fallback : α) : ScopePath → α → Prop
  | scope {outer inner : ScopePath} {s : ScopeName} {a : α} (htells : Says s a)
      (hinner : ∀ x ∈ inner, ∀ b, ¬Says x b) : Innermost Says fallback (outer ++ s :: inner) a
  | fallback {path : ScopePath} (hnone : ∀ x ∈ path, ∀ b, ¬Says x b) :
      Innermost Says fallback path fallback

/-- The value of the innermost scope is the one that a search from the end of the path finds. -/
theorem innermost_iff {α : Type} {value? : ScopeName → Option α} {Says : ScopeName → α → Prop}
    (htells : ∀ s a, value? s = some a ↔ Says s a) {fallback : α} {path : ScopePath} {a : α} :
    Innermost Says fallback path a ↔ (path.reverse.findSome? value?).getD fallback = a := by
  have hsilent : ∀ s, value? s = none ↔ ∀ b, ¬Says s b := by
    intro s
    simp only [← htells, Option.eq_none_iff_forall_ne_some, ne_eq]
  constructor
  · rintro (@⟨outer, inner, s, _, hs, hinner⟩ | hnone)
    · have hfind : (outer ++ s :: inner).reverse.findSome? value? = some a := by
        refine List.findSome?_eq_some_iff.2 ⟨inner.reverse, s, outer.reverse, by simp,
          (htells s a).2 hs, fun x hx => ?_⟩
        exact (hsilent x).2 (hinner x (List.mem_reverse.1 hx))
      rw [hfind, Option.getD_some]
    · have hfind : path.reverse.findSome? value? = none :=
        List.findSome?_eq_none_iff.2 fun x hx => (hsilent x).2 (hnone x (List.mem_reverse.1 hx))
      rw [hfind, Option.getD_none]
  · rintro rfl
    cases h : path.reverse.findSome? value? with
    | none =>
      rw [List.findSome?_eq_none_iff] at h
      exact .fallback fun x hx => (hsilent x).1 (h x (List.mem_reverse.2 hx))
    | some a =>
      obtain ⟨inner, s, outer, hpath, hvalue, hinner⟩ := List.findSome?_eq_some_iff.1 h
      have hsplit : path = outer.reverse ++ s :: inner.reverse := by
        rw [← List.reverse_reverse path, hpath]
        simp
      rw [hsplit]
      refine .scope ((htells s a).1 hvalue) fun x hx => ?_
      exact (hsilent x).1 (hinner x (List.mem_reverse.1 hx))

/-- A list of names has a value for a scope: that of a name which matches the scope, and no name
before it does. -/
def Scope.FirstMatch {α : Type} (entries : List (ScopeName × α)) (scope : ScopeName) (a : α) :
    Prop :=
  ∃ before name after, entries = before ++ (name, a) :: after ∧ covers name scope = true ∧
    ∀ e ∈ before, covers e.1 scope = false

theorem Scope.firstMatch?_eq_some_iff {α : Type} {entries : List (ScopeName × α)}
    {scope : ScopeName} {a : α} :
    firstMatch? entries scope = some a ↔ FirstMatch entries scope a := by
  rw [firstMatch?, Option.map_eq_some_iff]
  constructor
  · rintro ⟨⟨name, a⟩, h, rfl⟩
    obtain ⟨hname, before, after, hentries, hbefore⟩ := List.find?_eq_some_iff_append.1 h
    exact ⟨before, name, after, hentries, hname, fun e he => by simpa using hbefore e he⟩
  · rintro ⟨before, name, after, hentries, hname, hbefore⟩
    refine ⟨(name, a), List.find?_eq_some_iff_append.2 ⟨hname, before, after, hentries, ?_⟩, rfl⟩
    intro e he
    simp [hbefore e he]

namespace TokenType

/-- The segments that name a kind of text. -/
inductive Names : String → TokenType → Prop
  | comment : Names "comment" .comment
  | string : Names "string" .string
  | regex : Names "regex" .regex

/-- Whether a scope is that of embedded code. -/
def Embedded (scope : ScopeName) : Prop :=
  scope = "meta.embedded" ∨ ∃ rest, scope = "meta.embedded." ++ rest

/-- What a scope says about the kind of its text. Embedded code is none of the kinds that segments
name, whatever it is embedded in; of any other scope the first segment that names a kind counts. -/
inductive Classifies : ScopeName → TokenType → Prop
  | embedded {scope : ScopeName} (hscope : Embedded scope) : Classifies scope .other
  | segment {before after : List String} {word : String} {type : TokenType}
      (hdots : ∀ piece ∈ before ++ word :: after, '.' ∉ piece.toList)
      (hscope : ¬Embedded (".".intercalate (before ++ word :: after)))
      (hword : Names word type) (hbefore : ∀ piece ∈ before, ∀ t, ¬Names piece t) :
      Classifies (".".intercalate (before ++ word :: after)) type

theorem ofSegment?_eq_some_iff {word : String} {type : TokenType} :
    ofSegment? word = some type ↔ Names word type := by
  constructor
  · intro h
    unfold ofSegment? at h
    split at h <;> cases h <;> constructor
  · rintro ⟨⟩ <;> rfl

theorem ofSegment?_eq_none_iff {word : String} :
    ofSegment? word = none ↔ ∀ type, ¬Names word type := by
  simp only [← ofSegment?_eq_some_iff, Option.eq_none_iff_forall_ne_some, ne_eq]

theorem covers_embedded_iff {scope : ScopeName} :
    Scope.covers "meta.embedded" scope = true ↔ Embedded scope := by
  have hdot : "meta.embedded" ++ "." = "meta.embedded." := rfl
  rw [Scope.covers_iff, Scope.append_dot_prefix_iff_exists, hdot]
  exact and_iff_right (by decide)

theorem ofScope?_eq_some_iff {scope : ScopeName} {type : TokenType} :
    ofScope? scope = some type ↔ Classifies scope type := by
  unfold ofScope?
  split
  · next hcovers =>
    have hembedded := covers_embedded_iff.1 hcovers
    constructor
    · rintro ⟨⟩
      exact .embedded hembedded
    · rintro (_ | ⟨-, hscope, -, -⟩)
      · rfl
      · exact absurd hembedded hscope
  · next hcovers =>
    have hplain : ¬Embedded scope := mt covers_embedded_iff.2 hcovers
    rw [List.findSome?_eq_some_iff]
    constructor
    · rintro ⟨before, word, after, hsegments, hword, hbefore⟩
      obtain ⟨rfl, hdots, -⟩ := Scope.segments_eq_iff.1 hsegments
      exact .segment hdots hplain (ofSegment?_eq_some_iff.1 hword) fun piece hpiece =>
        ofSegment?_eq_none_iff.1 (hbefore piece hpiece)
    · rintro (hembedded | @⟨before, after, word, _, hdots, -, hword, hbefore⟩)
      · exact absurd hembedded hplain
      · refine ⟨before, word, after, Scope.segments_eq_iff.2 ⟨rfl, hdots, ?_⟩,
          ofSegment?_eq_some_iff.2 hword, fun piece hpiece =>
            ofSegment?_eq_none_iff.2 (hbefore piece hpiece)⟩
        -- no kind is named by an empty segment
        intro hempty
        have hmem : word ∈ [""] := hempty ▸ List.mem_append_right before List.mem_cons_self
        rw [List.mem_singleton.1 hmem] at hword
        exact ofSegment?_eq_none_iff.1 rfl _ hword

end TokenType

/-- What the metadata of a scope path are: the language of its innermost scope that an embedded name
matches, the kind of text of its innermost scope that says one, and the style that the theme gives
to the path. -/
def Tokenizer.Describes (t : Tokenizer) (theme : Theme) (path : ScopePath) (m : Metadata) : Prop :=
  ∃ language type, Innermost (Scope.FirstMatch t.embedded) t.language path language ∧
    Innermost TokenType.Classifies .other path type ∧
    m = .pack language type true (theme.style path).fontStyle (theme.style path).foreground
      (theme.style path).background

theorem Tokenizer.describes_iff {t : Tokenizer} {theme : Theme} {path : ScopePath} {m : Metadata} :
    t.Describes theme path m ↔ m = t.metadata path (theme.style path) := by
  unfold Describes
  simp only [innermost_iff fun _ _ => Scope.firstMatch?_eq_some_iff,
    innermost_iff fun _ _ => TokenType.ofScope?_eq_some_iff, exists_and_left, exists_eq_left']
  rfl

/-- A remembered style is the style of the theme. -/
theorem StyleCache.style_eq {theme : Theme} (c : StyleCache theme) (path : ScopePath) :
    (c.style path).1 = theme.style path := by
  unfold StyleCache.style
  split
  · rename_i s hs
    exact c.sound (path, s) (mem_of_lookup_eq_some hs)
  · dsimp only
    split <;> rfl

/-! ## Packing -/

namespace PackedToken

/-- The packed token that an offset lies in: the last one that starts there or before. -/
def at? (ts : List PackedToken) (offset : Nat) : Option PackedToken :=
  ts.reverse.find? (·.start ≤ offset)

end PackedToken

/-- Packed tokens, the last one first, that say of each offset what the tokens say. -/
structure Packed (metadata : ScopePath → Metadata) (ts : List Token) (packed : List PackedToken) :
    Prop where
  /-- Each packed token stands for a token that starts where it does. -/
  source : ∀ v ∈ packed, ∃ u ∈ ts, u.start = v.start ∧ v.metadata = metadata u.scopes
  starts : packed.Pairwise fun later earlier => earlier.start < later.start
  neighbours : packed.IsChain fun later earlier => earlier.metadata ≠ later.metadata
  agrees : ∀ u ∈ ts, ∀ offset, u.start ≤ offset → offset < u.stop →
    ∃ v, packed.find? (·.start ≤ offset) = some v ∧ v.metadata = metadata u.scopes
  /-- The first packed token starts where the first token does. -/
  first : packed.getLast?.map (·.start) = ts.head?.map (·.start)

namespace Packed

variable {metadata : ScopePath → Metadata} {ts : List Token} {packed : List PackedToken}

theorem nil : Packed metadata [] [] where
  source := by simp
  starts := .nil
  neighbours := .nil
  agrees := by simp
  first := rfl

theorem singleton (u : Token) : Packed metadata [u] [⟨u.start, metadata u.scopes⟩] where
  source v hv := by
    cases List.mem_singleton.1 hv
    exact ⟨u, List.mem_cons_self, rfl, rfl⟩
  starts := List.pairwise_singleton _ _
  neighbours := .singleton _
  agrees d hd offset hstart _ := by
    cases List.mem_singleton.1 hd
    exact ⟨_, List.find?_cons_of_pos (by simpa using hstart), rfl⟩
  first := rfl

theorem source_append (h : Packed metadata ts packed) (us : List Token) :
    ∀ v ∈ packed, ∃ d ∈ ts ++ us, d.start = v.start ∧ v.metadata = metadata d.scopes := by
  intro v hv
  obtain ⟨d, hd, hv⟩ := h.source v hv
  exact ⟨d, List.mem_append_left us hd, hv⟩

theorem start_lt {n : Nat} (h : Packed metadata ts packed) (hn : ∀ d ∈ ts, d.start < n) :
    ∀ v ∈ packed, v.start < n := by
  intro v hv
  obtain ⟨d, hd, hstart, -⟩ := h.source v hv
  rw [← hstart]
  exact hn d hd

theorem first_append {last : PackedToken} {before : List PackedToken}
    (h : Packed metadata ts (last :: before)) (us : List Token) :
    (last :: before).getLast?.map (·.start) = (ts ++ us).head?.map (·.start) := by
  obtain ⟨d, hd, -⟩ := h.source last List.mem_cons_self
  rw [h.first, List.head?_append_of_ne_nil ts (List.ne_nil_of_mem hd)]

section

variable {u : Token} {last : PackedToken} {before : List PackedToken}

/-- A token with the metadata of the last packed token needs no packed token: that one goes on. -/
theorem extend (h : Packed metadata ts (last :: before))
    (hu : ∀ d ∈ ts, d.start < u.start ∧ d.stop ≤ u.start)
    (hsame : last.metadata = metadata u.scopes) :
    Packed metadata (ts ++ [u]) (last :: before) where
  source := h.source_append [u]
  starts := h.starts
  neighbours := h.neighbours
  agrees d hd offset hstart hstop := by
    rcases List.mem_append.1 hd with hd | hd
    · exact h.agrees d hd offset hstart hstop
    · cases List.mem_singleton.1 hd
      have hlast : last.start < u.start :=
        h.start_lt (fun d hd => (hu d hd).1) last List.mem_cons_self
      exact ⟨last, List.find?_cons_of_pos (by simp; omega), hsame⟩
  first := h.first_append [u]

/-- A token with other metadata than the last packed token gets its own. -/
theorem push (h : Packed metadata ts (last :: before))
    (hu : ∀ d ∈ ts, d.start < u.start ∧ d.stop ≤ u.start)
    (hdiffer : last.metadata ≠ metadata u.scopes) :
    Packed metadata (ts ++ [u]) (⟨u.start, metadata u.scopes⟩ :: last :: before) where
  source v hv := by
    rcases List.mem_cons.1 hv with rfl | hv
    · exact ⟨u, List.mem_append_right ts List.mem_cons_self, rfl, rfl⟩
    · exact h.source_append [u] v hv
  starts := h.starts.cons (h.start_lt fun d hd => (hu d hd).1)
  neighbours := List.isChain_cons_cons.2 ⟨hdiffer, h.neighbours⟩
  agrees d hd offset hstart hstop := by
    rcases List.mem_append.1 hd with hd | hd
    · -- offsets of tokens before lie before the new packed token
      obtain ⟨v, hfind, hv⟩ := h.agrees d hd offset hstart hstop
      refine ⟨v, ?_, hv⟩
      have hbefore : d.stop ≤ u.start := (hu d hd).2
      rwa [List.find?_cons_of_neg (by simp; omega)]
    · cases List.mem_singleton.1 hd
      exact ⟨_, List.find?_cons_of_pos (by simpa using hstart), rfl⟩
  first := by rw [List.getLast?_cons_cons, h.first_append [u]]

end

/-- Packing one more token, which starts behind all others. -/
theorem add {u : Token} (h : Packed metadata ts packed)
    (hu : ∀ d ∈ ts, d.start < u.start ∧ d.stop ≤ u.start) :
    Packed metadata (ts ++ [u]) (PackedToken.add ⟨u.start, metadata u.scopes⟩ packed) := by
  cases packed with
  | nil =>
    have hts : ts = [] := by simpa using h.first.symm
    subst hts
    exact singleton u
  | cons last before =>
    rw [PackedToken.add]
    split
    · rename_i hsame
      exact h.extend hu (beq_iff_eq.1 hsame)
    · rename_i hdiffer
      exact h.push hu fun hsame => hdiffer (beq_iff_eq.2 hsame)

end Packed

/-! ## Lines -/

/-- A token comes behind another. -/
def Token.Behind (d u : Token) : Prop := d.start < u.start ∧ d.stop ≤ u.start

theorem Cover.pairwise : ∀ {a b : Nat} {ts : List Token}, Cover a ts b →
    ts.Pairwise Token.Behind
  | _, _, [], _ => .nil
  | _, _, t :: ts, ⟨_, hlt, h⟩ => by
    refine .cons (fun u hu => ?_) (Cover.pairwise h)
    have := h.mem_le hu
    exact ⟨by omega, this.1⟩

theorem Tiles.pairwise {line : String} {ts : List Token} (h : Tiles line ts) :
    ts.Pairwise Token.Behind := by
  by_cases hline : line = ""
  · obtain ⟨scopes, rfl⟩ := h.empty hline
    exact List.pairwise_singleton _ _
  · exact (h.cover hline).pairwise

/-- The tokens of a line start where the line does, also those of an empty line. -/
theorem Tiles.head? {line : String} {ts : List Token} (h : Tiles line ts) :
    ts.head?.map (·.start) = some 0 := by
  by_cases hline : line = ""
  · obtain ⟨scopes, rfl⟩ := h.empty hline
    rfl
  · have hsize : line.utf8ByteSize ≠ 0 := by rwa [Ne, String.utf8ByteSize_eq_zero_iff]
    cases ts with
    | nil => exact absurd (h.cover hline).symm hsize
    | cons t ts => exact congrArg some (h.cover hline).1

/-- Packing tokens onto those before them. -/
theorem Packed.packFrom {theme : Theme} (t : Tokenizer) : ∀ {ts us : List Token}
    {packed : List PackedToken} {c : StyleCache theme},
    Packed (fun path => t.metadata path (theme.style path)) us packed →
    (us ++ ts).Pairwise Token.Behind →
    Packed (fun path => t.metadata path (theme.style path)) (us ++ ts) (t.packFrom packed c ts).1
  | [], us, packed, c, h, _ => by rwa [List.append_nil]
  | u :: ts, us, packed, c, h, hbehind => by
    have hu := (List.pairwise_append.1 hbehind).2.2
    have hadd := h.add (u := u) fun d hd => hu d hd u List.mem_cons_self
    rw [List.append_cons] at hbehind ⊢
    simp only [Tokenizer.packFrom, StyleCache.style_eq]
    exact Packed.packFrom t hadd hbehind

theorem Grammar.tokenizeLine_tile (g : Grammar) (line : String) (stack : RuleStack) :
    Tiles line (g.tokenizeLine line stack).tokens := by
  unfold Grammar.tokenizeLine Grammar.tokenizeLineWithin
  split
  · rename_i t ht
    obtain ⟨start, s, _, hs, rfl⟩ := Grammar.tryTokenizeLine_eq_ok.1 ht
    obtain ⟨hcover, hstop⟩ := Grammar.scanLine_reaches hs
    refine finish_tiles hcover (Nat.le_trans ?_ hstop)
    simp [Subject.ofList, Subject.size]
  · exact wholeLine_tiles g line stack

/-- Packing the tokens of a line loses nothing but the bounds between tokens with the same metadata,
whatever styles are remembered: the stack after the line is the same, the packed tokens start at 0,
one behind the other, neighbours differ, and every offset of the line has the metadata of the scopes
that its token has. -/
theorem packLine_packed {theme : Theme} (t : Tokenizer) (c : StyleCache theme) (line : String)
    (stack : RuleStack) :
    let plain := t.grammar.value.tokenizeLine line stack
    let packed := (t.packLine c line stack).1
    packed.stack = plain.stack ∧
    packed.tokens.head?.map (·.start) = some 0 ∧
    packed.tokens.Pairwise (·.start < ·.start) ∧
    packed.tokens.IsChain (·.metadata ≠ ·.metadata) ∧
    (∀ v ∈ packed.tokens, ∃ u ∈ plain.tokens, u.start = v.start ∧
      t.Describes theme u.scopes v.metadata) ∧
    ∀ offset < line.utf8ByteSize,
      (∃ u ∈ plain.tokens, u.start ≤ offset ∧ offset < u.stop) ∧
      ∀ u ∈ plain.tokens, u.start ≤ offset → offset < u.stop →
        ∃ v, PackedToken.at? packed.tokens offset = some v ∧
          t.Describes theme u.scopes v.metadata := by
  intro plain packed
  have htiles : Tiles line plain.tokens := t.grammar.value.tokenizeLine_tile line stack
  have hpacked := Packed.packFrom t (c := c) Packed.nil htiles.pairwise
  refine ⟨rfl, ?_, ?_, ?_, ?_, ?_⟩
  · change (List.reverse _).head?.map _ = _
    rw [List.head?_reverse, hpacked.first]
    exact htiles.head?
  · exact List.pairwise_reverse.2 hpacked.starts
  · exact List.isChain_reverse.2 hpacked.neighbours
  · intro v hv
    obtain ⟨u, hu, hstart, hmetadata⟩ := hpacked.source v (List.mem_reverse.1 hv)
    refine ⟨u, hu, hstart, ?_⟩
    rw [hmetadata]
    exact Tokenizer.describes_iff.2 rfl
  · intro offset hoffset
    refine ⟨?_, ?_⟩
    · have hline : line ≠ "" := by
        rintro rfl
        exact absurd hoffset (Nat.not_lt_zero _)
      exact (htiles.cover hline).exists_mem (Nat.zero_le _) hoffset
    · intro u hu hstart hstop
      obtain ⟨v, hv, hmetadata⟩ := hpacked.agrees u hu offset hstart hstop
      refine ⟨v, ?_, ?_⟩
      · rw [PackedToken.at?, ← hv]
        exact congrArg _ (List.reverse_reverse _)
      · rw [hmetadata]
        exact Tokenizer.describes_iff.2 rfl

end Highlight
