import StyleSyntax.Parser.Capture
import StyleSyntax.Parser.Choice
import StyleSyntax.Parser.Repetition
import StyleSyntax.Tree.Node

/-!
# Parts shared by all statements

Item lists, identifiers and values. In an item list a run of whitespace and comments is an item of
its own, and at every other place a statement has to begin. An identifier is a run of neighbouring
literals and dashes; in the extended language it may hold interpolations. A value takes everything
up to the mark that ends it, without the whitespace before that mark.
-/

namespace StyleSyntax.Grammar

open StyleSyntax.Parser

/-- The kinds of tokens that may hold a body. -/
def braces : List TokenKind := [.lazyBlock, .block]

/-- The tokens that may hold a body are the brace regions. -/
theorem braces_contains (kind : TokenKind) : braces.contains kind = kind.isBraces := by
  cases kind <;> rfl

/-- Whitespace and comments, kept as written. -/
def ignored : Parser Node :=
  trivia.map fun source => .leaf (.ignored source)

/-- A semicolon with nothing before it. -/
def straySemicolon : Parser Node :=
  (excerpt (symbol [';'])).map fun source => .leaf (.ignored source)

/-- A run of trivia where one begins, otherwise a statement. -/
def item (statement : Parser Node) : Parser Node :=
  { run := fun region rest =>
      if rest.head?.any Token.isTrivia then ignored.run region rest
      else statement.run region rest }

/-- Items up to the end of the tokens. -/
def items (statement : Parser Node) : Parser (List Node) :=
  all (item statement)

/-- A semicolon, or the end of the enclosing block. -/
def statementEnd : Parser Unit :=
  firstOf [(symbol [';']).map fun _ => (), endOfInput]

/-- A literal without a dollar sign. -/
def isName (token : Token) : Bool :=
  token.kind == .literal && !token.value.contains '$'

/-- A symbol made of dashes alone. -/
def isDashes (token : Token) : Bool :=
  token.kind == .symbol && token.value.all (· == '-')

/-- The number of tokens in the run of names, dashes and, in the extended language,
interpolations that begins here. -/
def identifierLength (dialect : Dialect) : List Token → Nat
  | [] => 0
  | [token] => if isName token || isDashes token then 1 else 0
  | token :: next :: rest =>
    if isName token || isDashes token then identifierLength dialect (next :: rest) + 1
    else if dialect == .jss && token.opensInterpolation next then identifierLength dialect rest + 2
    else 0

/-- A name: neighbouring literals and dashes, at least one of them a literal. -/
def identifier (dialect : Dialect) : Parser Excerpt :=
  { run := fun region rest =>
      let start := dropTrivia rest
      let length := identifierLength dialect start
      let units := start.take length
      if units.any fun token => token.kind == .literal then
        ⟨.ok ⟨spelling units, nextPosition start region.finish⟩, start.drop length⟩
      else ⟨.failed (region.expected "identifier".toList rest), rest⟩ }

/-- Asks whether an interpolation begins here; consumes nothing. -/
def interpolationHere : Parser Bool :=
  { run := fun _ rest => ⟨.ok (interpolationFollows rest), rest⟩ }

/-- The number of tokens of a value that begins here, and whether it ends at a token that is not
allowed in it instead of at a semicolon, a mark or the end. The test for allowed tokens also sees
the token before. -/
def valueExtent (stops : Token → Bool) (allows : Option Token → Token → Bool)
    (previous : Option Token) : List Token → Nat × Bool
  | [] => (0, false)
  | token :: rest =>
    if token.isSemicolon || stops token then (0, false)
    else if allows previous token then
      let (length, isBroken) := valueExtent stops allows (some token) rest
      (length + 1, isBroken)
    else (0, true)

/-- The number of tokens up to the last significant one. -/
def significantLength (tokens : List Token) : Nat :=
  (tokens.reverse.dropWhile Token.isTrivia).length

/-- A value of at least one significant token, without the trivia at its end. -/
def value (wanted : Text) (stops : Token → Bool) (allows : Option Token → Token → Bool) :
    Parser Unit :=
  { run := fun region rest =>
      let (length, isBroken) := valueExtent stops allows none rest
      let next := rest.drop length
      let kept := significantLength (rest.take length)
      if isBroken then ⟨.failed (region.expected (quotedName [';']) next), next⟩
      else if kept = 0 then ⟨.failed (region.expected wanted next), next⟩
      else ⟨.ok (), rest.drop kept⟩ }

end StyleSyntax.Grammar
