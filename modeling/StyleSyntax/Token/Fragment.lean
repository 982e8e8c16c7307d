import StyleSyntax.Token.Basic

/-!
# Source fragments

A list of neighbouring tokens seen as the piece of source they came from: its text, its text
without leading whitespace and comments, and the position of its first significant token.
-/

namespace StyleSyntax

/-- A text with the position of its first character. -/
structure Excerpt where
  text : Text
  position : Position
deriving DecidableEq, Inhabited

/-- The text of a fragment without its leading whitespace and comments. -/
def trimmedSpelling (tokens : List Token) : Text :=
  spelling (dropTrivia tokens)

/-- The position of the first significant token, or of the first token when all are whitespace
and comments. -/
def fragmentPosition (tokens : List Token) : Option Position :=
  ((firstSignificant tokens).or tokens.head?).map Token.position

/-- The trimmed text of a fragment and its position, with a position for the empty fragment. -/
def excerptOf (tokens : List Token) (fallback : Position) : Excerpt :=
  ⟨trimmedSpelling tokens, (fragmentPosition tokens).getD fallback⟩

end StyleSyntax
