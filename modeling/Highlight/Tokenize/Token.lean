import Highlight.Scope.Name
import Highlight.Text.Subject

/-!
# Tokens

A line is cut into tokens, each with its scopes. A `TokenRun` collects them from the start of the
text on: `produce` adds the stretch from where the last token ended, so tokens leave no gap and
never overlap.
-/

namespace Highlight

/-- A stretch of a line and its scopes. -/
structure Token where
  start : Nat
  stop : Nat
  scopes : ScopePath
  deriving Repr, DecidableEq

/-- Tokens collected so far, backwards, and where the last of them ends. -/
structure TokenRun where
  tokens : List Token
  stop : Nat
  deriving Repr

namespace TokenRun

/-- No tokens. -/
def empty : TokenRun := ⟨[], 0⟩

/-- Extends the run to a position with a token of the given scopes, unless it reaches there
already. -/
def produce (r : TokenRun) (stop : Nat) (scopes : ScopePath) : TokenRun :=
  if stop ≤ r.stop then r else ⟨⟨r.stop, stop, scopes⟩ :: r.tokens, stop⟩

/-- The tokens of a line with `size` characters, which the text goes beyond. A line without
characters has one token with the scopes of the last. -/
def finish (r : TokenRun) (size : Nat) : List Token :=
  let kept := r.tokens.filter (·.start < size)
  match kept with
  | [] => [⟨0, size, match r.tokens with | t :: _ => t.scopes | [] => []⟩]
  | t :: ts => ({ t with stop := min t.stop size } :: ts).reverse

end TokenRun

namespace Token

/-- The token with byte offsets into a text in place of positions. -/
def inBytes (text : Subject) (t : Token) : Token :=
  { t with start := text.byteOffset t.start, stop := text.byteOffset t.stop }

end Token

end Highlight
