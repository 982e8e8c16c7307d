import StyleSyntax.Text.Position

/-!
# Configuration of the lexer

What one may choose about tokens: the alphabet of punctuation, whether neighbouring punctuation
forms one token, and whether braces are marked for reading on demand.
-/

namespace StyleSyntax

/-- Settings that shape how text is split into tokens. The interior of a bracketed token is
split by the settings of the text around it. -/
structure LexerConfig where
  /-- The punctuation that forms symbol tokens. -/
  symbols : Text := "!#%&*+-./:;<=>?@\\^|~".toList
  /-- One symbol token for each run of punctuation instead of one for each character. -/
  joinSymbols : Bool := false
  /-- Braces form lazy blocks instead of plain blocks. -/
  lazyBraces : Bool := true
deriving DecidableEq, Inhabited

/-- Whether a character belongs to the punctuation. -/
def LexerConfig.isSymbol (config : LexerConfig) (c : Char) : Bool :=
  config.symbols.contains c

end StyleSyntax
