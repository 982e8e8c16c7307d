import StyleSyntax.Lexer.Tokens
import StyleSyntax.Parser.Match

/-!
# Bracketed regions

The interior of a bracketed token is split into tokens at its true position, runs of punctuation
are broken up, and a parser has to consume all of it up to trailing whitespace and comments. Every
failure on the way counts as one from inside brackets.
-/

namespace StyleSyntax.Parser

variable {α : Type}

/-- The outcome of a parser on a whole list of tokens, where a significant token left over is an
error. -/
def runWhole (inner : Parser α) (region : Region) (tokens : List Token) : Outcome ParseError α :=
  match inner.run region tokens with
  | ⟨.ok value, rest⟩ =>
    match firstSignificant rest with
    | some token => .failed (.unexpectedAt token)
    | none => .ok value
  | ⟨.failed error, _⟩ => .failed error
  | ⟨.endless, _⟩ => .endless

/-- The outcome of a parser on the interior of a token, before its failure is marked as one from
inside brackets. -/
def runInside (inner : Parser α) (config : LexerConfig) (token : Token) : Outcome ParseError α :=
  match token.interior with
  | none => .failed (.expectedAt "block".toList token)
  | some (text, origin) =>
    match tokensOf config text origin with
    | .error error => .failed (.ofLexError error)
    | .ok tokens =>
      let pieces := splitSymbolRuns tokens
      runWhole inner (.ofTokens config pieces origin) pieces

/-- The outcome of a parser on the interior of a token. -/
def interior (inner : Parser α) (config : LexerConfig) (token : Token) : Outcome ParseError α :=
  (runInside inner config token).mapError (ParseError.within .block)

/-- A bracketed token of one of the kinds with the value of its interior. Once the token is matched
it stays consumed. -/
def block (kinds : List TokenKind) (inner : Parser α) : Parser α := do
  let token ← bracketed kinds
  { run := fun region rest => ⟨interior inner region.config token, rest⟩ }

/-- A matched bracketed token whose interior has not been read yet. -/
structure Deferred (α : Type) where
  token : Token
  config : LexerConfig
  inner : Parser α

/-- Reads the interior now. -/
def Deferred.outcome (deferred : Deferred α) : Outcome ParseError α :=
  interior deferred.inner deferred.config deferred.token

/-- A bracketed token of one of the kinds, to be read later. -/
def lazyBlock (kinds : List TokenKind) (inner : Parser α) : Parser (Deferred α) := do
  let token ← bracketed kinds
  { run := fun region rest => ⟨.ok ⟨token, region.config, inner⟩, rest⟩ }

end StyleSyntax.Parser
