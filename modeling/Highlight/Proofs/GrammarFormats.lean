import Highlight.Proofs.JsonRoundTrip
import Highlight.Proofs.PropertyListRoundTrip
import Highlight.Proofs.WrittenGrammars
import Highlight.Proofs.YamlRoundTrip

/-!
# Grammars in all formats

All formats have the same model (`GrammarSource.parse_render`): a grammar that is spelled in any of
the ways of a format and written in it is read as the grammar, whatever its texts are.
-/

namespace Highlight

open Value

namespace GrammarFormat

variable {format : GrammarFormat} {v w : Value}

/-! ## Texts -/

/-- A text of a format for a value. -/
def render (format : GrammarFormat) (v : Value) : String :=
  match format with
  | json => Json.render v
  | propertyList => PropertyList.render v
  | yaml => Yaml.render v

theorem writable_json (h : Built (IsScalar json) (IsKey json) v) : Json.Writable v := by
  apply h.imp
  · intro v hv
    cases hv with
    | text s => exact .text s
    | boolean b => exact .bool b
    | integer h => exact .int h
  · intro k hk
    cases hk with
    | text s => exact .text s
    | integer h => cases h

theorem writable_propertyList (h : Built (IsScalar propertyList) (IsKey propertyList) v) :
    PropertyList.Writable v := by
  apply h.imp
  · intro v hv
    cases hv with
    | text s => exact .text s
    | boolean b => exact .bool b
    | integer h => exact .int h
  · intro k hk
    cases hk with
    | text s => exact .text s
    | integer h => cases h

/-- An integer is a word. -/
theorem isScalar_toString (n : Int) : Yaml.IsScalar (.plain (toString n)) := by
  refine .word (fun heq => ?_) (List.all_eq_true.2 fun c hc => ?_)
  · obtain ⟨c, cs, hwritten, -⟩ := exists_toString_int n
    rw [heq] at hwritten
    cases hwritten
  · have hword : ∀ d ∈ Nat.toDigits 10 n.natAbs, Yaml.isWordChar d = true := by
      intro d hd
      have hdigit := isDigit_of_mem_toDigits hd
      simp [Yaml.isWordChar, Char.isAlphanum, hdigit]
    rw [toList_toString_int] at hc
    split at hc
    · rcases List.mem_cons.1 hc with rfl | hc
      · decide
      · exact hword c hc
    · exact hword c hc

theorem writable_yaml (h : Built (IsScalar yaml) (IsKey yaml) v) : Yaml.Writable v := by
  apply h.imp
  · intro v hv
    cases hv with
    | text s => exact .text s
    | boolean b => cases b <;> exact .word (by decide) (by decide)
    | integer h => exact isScalar_toString _
  · intro k hk
    cases hk with
    | text s => exact .text s
    | integer h n => exact isScalar_toString n

/-- A dictionary of what the format has is read back from its text. -/
theorem value?_render {es : List (Value × Value)}
    (h : Built format.IsScalar format.IsKey (.dict es)) :
    format.value? (format.render (.dict es)) = some (.dict es) := by
  cases format with
  | json => exact Json.parse?_rendered (writable_json h)
  | propertyList => exact PropertyList.parse?_rendered (writable_propertyList h)
  | yaml => exact Yaml.parse?_rendered (writable_yaml h) nofun

/-! ## Depth -/

theorem FlagSpelling.depth_eq {b : Bool} (h : FlagSpelling format b w) : w.depth = 0 := by
  cases h with
  | boolean b => cases format <;> rfl
  | integer h => cases format <;> rfl
  | one => rfl
  | word => rfl

theorem IndexSpelling.depth_eq {n : Nat} (h : IndexSpelling format n w) : w.depth = 0 := by
  cases h with
  | text _ _ plus zeros => rfl
  | integer h => cases format <;> rfl

/-- A spelling nests as deep as what it spells. -/
theorem Spelling.depth_eq (h : Spelling format v w) : w.depth = v.depth := by
  induction h with
  | text s => rfl
  | flag h => exact h.depth_eq
  | index h => exact h.depth_eq
  | nil => rfl
  | empty => rfl
  | cons _ _ hhead htail =>
    simp only [depth, depth.depthOfList, Nat.add_right_cancel_iff] at htail ⊢
    rw [hhead, htail]
  | entry _ _ _ hkey hvalue hrest =>
    simp only [depth, depth.depthOfEntries, Nat.add_right_cancel_iff] at hrest ⊢
    rw [hkey, hvalue, hrest]

/-- Property lists nest without limit, the other formats up to theirs. -/
theorem levels_eq (h : w.depth = v.depth) : (format.rules w).levels = (format.rules v).levels := by
  cases format with
  | json => rfl
  | yaml => rfl
  | propertyList => exact congrArg Nat.succ h

end GrammarFormat

namespace GrammarSource

open GrammarFormat

/-- A grammar with distinct keys that nests no deeper than the format allows has a spelling in the
format, and written in any of its spellings it is read as the same grammar; so it is from any other
text that the format has for the spelling. -/
theorem parse_render {g : RawGrammar} (hkeyed : g.WellKeyed) (kept : String → Bool)
    (format : GrammarFormat)
    (hdepth : (g.value kept).depth ≤ (format.rules (g.value kept)).levels) (origin : String) :
    (∃ w, format.Spelling (g.value kept) w) ∧
      ∀ w, format.Spelling (g.value kept) w →
        parse ⟨format.render w, format⟩ origin = .ok g ∧
          ∀ content, format.value? content = some w →
            parse ⟨content, format⟩ origin = .ok g := by
  have hmade := RawGrammar.made_value hkeyed kept
  refine ⟨exists_spelling hmade, fun w hw => ?_⟩
  -- a limit that depends on the value is the same for both, for they nest equally deep
  have hlevels : w.depth ≤ (format.rules w).levels := by
    rw [levels_eq hw.depth_eq, hw.depth_eq]
    exact hdepth
  have hread := RawGrammar.read?_spelled hkeyed hw hlevels
  have hparse : ∀ content, format.value? content = some w →
      parse ⟨content, format⟩ origin = .ok g := by
    intro content hcontent
    simp only [parse, hcontent, Option.bind_some, hread]
  obtain ⟨es, rfl, -⟩ := hw.dict
  exact ⟨hparse _ (value?_render (hw.built hmade)), hparse⟩

/-- A word with its first letter, where the letter is a rule of its own. -/
def word : RawRule :=
  { (default : RawRule) with
    matchSource := some "(\\w)\\w*"
    name := some "word <\"&\">"
    captures := some [(1, { (default : RawRule) with patterns := some [default] })]
    applyEndPatternLast := some true
    disabled := some false }

/-- Words in a repository, with notes inside of other grammars. -/
def words : RawGrammar where
  scopeName := "source.words"
  name := none
  fileTypes := []
  firstLineMatch := none
  patterns := [{ (default : RawRule) with inclusion := some "#word" }]
  repository := [("word", word)]
  injections := [("L:comment", default)]
  injectionSelector := none
  injectTo := ["source.pages"]

theorem wellKeyed_words : words.WellKeyed := by
  have hdefault : (default : RawRule).WellKeyed := .mk nofun nofun nofun nofun nofun nofun
  have hinclusion : ∀ r ∈ words.patterns, r.WellKeyed :=
    List.forall_mem_singleton.2 (.mk nofun nofun nofun nofun nofun nofun)
  have hletter : ∀ child ∈ word.children, child.WellKeyed :=
    List.forall_mem_singleton.2
      (.mk nofun nofun nofun nofun nofun (List.forall_mem_singleton.2 hdefault))
  have hcaptures : ∀ cs ∈ word.captures, RawRule.CapturesKeyed cs := fun cs hcs => by
    cases hcs
    exact ⟨List.pairwise_singleton _ _, by decide⟩
  have hword : word.WellKeyed := .mk hcaptures nofun nofun nofun nofun hletter
  exact ⟨hinclusion, by decide, List.forall_mem_singleton.2 hword, by decide,
    List.forall_mem_singleton.2 hdefault⟩

/-- The words with the flag and the number of the group spelled in a way of each format. -/
def spelledWords (format : GrammarFormat) : Value :=
  .dict [(.text "scopeName", .text "source.words"),
    (.text "patterns", .list [.dict [(.text "include", .text "#word")]]),
    (.text "repository", .dict [(.text "word", .dict [
      (.text "match", .text "(\\w)\\w*"), (.text "name", .text "word <\"&\">"),
      (.text "captures", .dict [(index, .dict [(.text "patterns", .list [.dict []])])]),
      (.text "applyEndPatternLast", flag), (.text "disabled", format.boolean false)])]),
    (.text "injections", .dict [(.text "L:comment", .dict [])]),
    (.text "injectTo", .list [.text "source.pages"])]
where
  /-- The number of the group. -/
  index : Value :=
    match format with
    | .json => .text " +01 "
    | .propertyList => .text "001"
    | .yaml => .plain "1"
  /-- The flag that is set. -/
  flag : Value :=
    match format with
    | .json => .int 2
    | .propertyList => .text "1"
    | .yaml => .text "true"

theorem spelling_words (format : GrammarFormat) :
    format.Spelling (words.value fun _ => false) (spelledWords format) := by
  have hindex : IndexSpelling format 1 (spelledWords.index format) := by
    cases format with
    | json =>
      have hblank : [' '].all Property.isWhiteSpace = true := by decide
      exact .text hblank hblank true 1
    | propertyList =>
      have hblank : ([] : List Char).all Property.isWhiteSpace = true := rfl
      exact .text hblank hblank false 2
    | yaml => exact .integer rfl
  have hflag : FlagSpelling format true (spelledWords.flag format) := by
    cases format with
    | json => exact .integer (n := 2) rfl
    | propertyList => exact .one
    | yaml => exact .word
  have hrules : format.Spelling (.list [.dict []]) (.list [.dict []]) := .cons .empty .nil
  have hletter := Spelling.entry (.text "patterns") hrules .empty
  have hword := Spelling.entry (.text "match") (.text "(\\w)\\w*")
    (.entry (.text "name") (.text "word <\"&\">")
      (.entry (.text "captures") (.entry (.index hindex) hletter .empty)
        (.entry (.text "applyEndPatternLast") (.flag hflag)
          (.entry (.text "disabled") (.flag (.boolean false)) .empty))))
  exact .entry (.text "scopeName") (.text "source.words")
    (.entry (.text "patterns")
      (.cons (.entry (.text "include") (.text "#word") .empty) .nil)
      (.entry (.text "repository") (.entry (.text "word") hword .empty)
        (.entry (.text "injections") (.entry (.text "L:comment") .empty .empty)
          (.entry (.text "injectTo") (.cons (.text "source.pages") .nil) .empty))))

theorem parse_render_words :
    words.WellKeyed ∧
      (∀ format : GrammarFormat, (words.value fun _ => false).depth ≤
        (format.rules (words.value fun _ => false)).levels) ∧
      ∀ format : GrammarFormat,
        parse ⟨format.render (spelledWords format), format⟩ "words" = .ok words := by
  have hdepth : ∀ format : GrammarFormat, (words.value fun _ => false).depth ≤
      (format.rules (words.value fun _ => false)).levels := by
    intro format
    cases format <;> decide
  refine ⟨wellKeyed_words, hdepth, fun format => ?_⟩
  have hparse := parse_render wellKeyed_words (fun _ => false) format (hdepth format) "words"
  exact (hparse.2 _ (spelling_words format)).1

end GrammarSource

end Highlight
