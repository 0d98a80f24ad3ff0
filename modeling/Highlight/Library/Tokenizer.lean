import Highlight.Library.Store
import Highlight.Tokenize.Line

/-!
# Tokenizers

A tokenizer is a linked grammar with the number of its language and those of the languages embedded
in it. It packs the tokens of a line: each gets the metadata of its scopes, and neighbours with the
same metadata become one. A `Workshop` is a library that keeps the tokenizers it has made.
-/

namespace Highlight

/-- A grammar with the languages of its text. -/
structure Tokenizer where
  grammar : Loaded Grammar
  language : LanguageId
  /-- Languages of the scopes that the names match, the first match counts. -/
  embedded : List (ScopeName × LanguageId)

/-- A token that lasts until the next one starts. -/
structure PackedToken where
  /-- The byte offset of the start. -/
  start : Nat
  metadata : Metadata
  deriving Repr, DecidableEq

/-- The packed tokens of a line and the stack after it. -/
structure PackedLine where
  tokens : List PackedToken
  stack : RuleStack

namespace PackedToken

/-- Adds a token to those before it, the last one first, unless the last one has the same
metadata. -/
def add (t : PackedToken) : List PackedToken → List PackedToken
  | [] => [t]
  | last :: before => if last.metadata == t.metadata then last :: before else t :: last :: before

end PackedToken

namespace Tokenizer

/-- The language of a scope path: that of the innermost scope that an embedded name matches, or the
tokenizer's own. -/
def languageOf (t : Tokenizer) (path : ScopePath) : LanguageId :=
  (path.reverse.findSome? (Scope.firstMatch? t.embedded)).getD t.language

/-- The metadata of a scope path whose style is known. -/
def metadata (t : Tokenizer) (path : ScopePath) (style : Style) : Metadata :=
  .pack (t.languageOf path) (TokenType.ofPath path) true style.fontStyle style.foreground
    style.background

/-- Packs tokens onto the packed tokens before them, the last one first. -/
def packFrom {theme : Theme} (t : Tokenizer) (before : List PackedToken) (c : StyleCache theme) :
    List Token → List PackedToken × StyleCache theme
  | [] => (before, c)
  | token :: tokens =>
    let (style, c) := c.style token.scopes
    let packed : PackedToken := ⟨token.start, t.metadata token.scopes style⟩
    t.packFrom (packed.add before) c tokens

/-- Tokenizes a line and packs its tokens. -/
def packLine {theme : Theme} (t : Tokenizer) (c : StyleCache theme) (line : String)
    (stack : RuleStack) : PackedLine × StyleCache theme :=
  let result := t.grammar.value.tokenizeLine line stack
  let (packed, c) := t.packFrom [] c result.tokens
  (⟨packed.reverse, result.stack⟩, c)

end Tokenizer

namespace Library

/-- Packs a line with the theme of the library. -/
def packLine (l : Library) (t : Tokenizer) (line : String) (stack : RuleStack) :
    PackedLine × Library :=
  let (packed, c) := t.packLine l.styles line stack
  (packed, { l with styles := c })

end Library

/-- A library and the tokenizers made with it. -/
structure Workshop where
  library : Library
  tokenizers : List (ScopeName × LoadResult Tokenizer)

namespace Workshop

/-- A workshop with nothing in it. -/
def empty (theme : Theme) : Workshop := ⟨.empty theme, []⟩

/-- Makes a tokenizer. -/
def make (w : Workshop) (loader : Loader) (scope : ScopeName) (language : LanguageId)
    (embedded : List (ScopeName × LanguageId)) : LoadResult Tokenizer × Workshop :=
  match w.library.loadGrammar loader scope with
  | (.error e, l) => (.error e, { w with library := l })
  | (.ok g, l) =>
    let (t, l) := l.stamp (Tokenizer.mk g language embedded)
    (.ok t, { w with library := l })

theorem make_tokenizers (w : Workshop) (loader : Loader) (scope : ScopeName)
    (language : LanguageId) (embedded : List (ScopeName × LanguageId)) :
    (w.make loader scope language embedded).2.tokenizers = w.tokenizers := by
  unfold make
  split
  · rfl
  · rfl

theorem languages_of_make {w : Workshop} {loader : Loader} {scope : ScopeName}
    {language : LanguageId} {embedded : List (ScopeName × LanguageId)} {t : Loaded Tokenizer}
    (h : (w.make loader scope language embedded).1 = .ok t) :
    t.value.language = language ∧ t.value.embedded = embedded := by
  unfold make at h
  split at h
  · cases h
  · cases h
    exact ⟨rfl, rfl⟩

/-- The tokenizer of a scope, which is made if there is none. One that is there keeps the languages
that it was made with. -/
def tokenizer (w : Workshop) (loader : Loader) (scope : ScopeName) (language : LanguageId)
    (embedded : List (ScopeName × LanguageId)) : LoadResult Tokenizer × Workshop :=
  match w.tokenizers.lookup scope with
  | some r => (r, w)
  | none =>
    let (r, w) := w.make loader scope language embedded
    (r, { w with tokenizers := (scope, r) :: w.tokenizers })

/-- Forgets the tokenizer of a scope and what came of loading it. -/
def forget (w : Workshop) (scope : ScopeName) : Workshop where
  library := w.library.forget scope
  tokenizers := w.tokenizers.filter (·.1 != scope)

end Workshop

end Highlight
