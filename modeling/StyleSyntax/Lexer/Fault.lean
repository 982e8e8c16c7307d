import StyleSyntax.Text.Position

/-!
# Faults of the lexer

The causes for which a text has no tokens, and their wording.
-/

namespace StyleSyntax

/-- Why a text cannot be split into tokens. -/
inductive LexFault where
  /-- No reader recognises the character. -/
  | unexpectedSymbol (c : Char)
  /-- A line feed or the end of the text came before the closing quote. -/
  | unterminatedString
  /-- The end of the text came before the closing backtick. -/
  | unterminatedTemplate
  /-- The end of the text came before the bracket was closed. -/
  | unbalanced (opening : Char)
  /-- A character was asked for at the end of the text. -/
  | unexpectedEnd
deriving DecidableEq, Inhabited

/-- The wording of a fault. -/
def LexFault.message : LexFault → Text
  | .unexpectedSymbol c =>
    "unexpected symbol '".toList ++ c :: "' (code ".toList ++ Text.ofNat c.toNat ++ [')']
  | .unterminatedString => "unterminated string literal".toList
  | .unterminatedTemplate => "unterminated template string".toList
  | .unbalanced opening =>
    "brackets do not match, '".toList ++ opening :: "' is never closed".toList
  | .unexpectedEnd => "unexpected end of input".toList

/-- A fault and the place it is reported at. -/
structure LexError where
  fault : LexFault
  position : Position
deriving DecidableEq, Inhabited

/-- The wording of an error with its place. -/
def LexError.message (error : LexError) : Text :=
  error.fault.message ++ error.position.suffix

end StyleSyntax
