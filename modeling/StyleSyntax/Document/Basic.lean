import StyleSyntax.Grammar.Stylesheet

/-!
# Reading documents

A document is split into tokens, runs of punctuation are broken up, and the tokens are read as a
stylesheet of one of the two languages. The source of the resulting tree is the text of the
document without a leading byte-order mark.
-/

namespace StyleSyntax

/-- Why a document is not a stylesheet. -/
inductive DocumentError where
  /-- It has no tokens. -/
  | lexical (error : LexError)
  /-- Its tokens form no stylesheet. -/
  | grammatical (error : ParseError)
deriving DecidableEq

namespace DocumentError

/-- Where the document goes wrong. -/
def position : DocumentError → Position
  | lexical error => error.position
  | grammatical error => error.position

/-- The wording without the place. -/
def wording : DocumentError → Text
  | lexical error => error.fault.message
  | grammatical error => error.wording

/-- The wording with the place. -/
def message : DocumentError → Text
  | lexical error => error.message
  | grammatical error => error.message

end DocumentError

/-- Reads tokens as a stylesheet. Interiors of brackets are split by the configuration. -/
def parseTokens (tokens : List Token) (config : LexerConfig) (dialect : Dialect) :
    Outcome ParseError Stylesheet :=
  let pieces := splitSymbolRuns tokens
  ((Grammar.stylesheet dialect).run (.ofTokens config pieces .start) pieces).outcome

/-- Reads a document as a stylesheet. -/
def parseDocument (text : Text) (config : LexerConfig) (dialect : Dialect) :
    Outcome DocumentError Stylesheet :=
  match documentTokens config text with
  | .error error => .failed (.lexical error)
  | .ok tokens => (parseTokens tokens config dialect).mapError .grammatical

end StyleSyntax
