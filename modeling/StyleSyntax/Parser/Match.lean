import StyleSyntax.Parser.Basic
import StyleSyntax.Text.Delimiter

/-!
# Matching tokens

The leaves of a grammar: a significant token of some sort, a run of punctuation, and conditions on
the whitespace and the end of the tokens.
-/

namespace StyleSyntax.Parser

/-- A text between single quotes, as messages name it. -/
def quotedName (text : Text) : Text :=
  '\x27' :: text ++ ['\x27']

/-- The next significant token if it passes the test. -/
def tokenWhere (wanted : Text) (test : Token → Bool) : Parser Token :=
  { run := fun region rest =>
      match dropTrivia rest with
      | [] => ⟨.failed (.leaf (.unexpectedEnd wanted) region.finish), rest⟩
      | token :: next =>
        if test token then ⟨.ok token, next⟩
        else ⟨.failed (.expectedAt wanted token), rest⟩ }

/-- A token of one kind. -/
def anyToken (kind : TokenKind) : Parser Token :=
  tokenWhere kind.label fun token => token.kind == kind

/-- A literal. -/
def anyLiteral : Parser Token :=
  anyToken .literal

/-- A string with any quotes. -/
def anyString : Parser Token :=
  tokenWhere "string".toList fun token => token.kind == .string || token.kind == .templateString

/-- A bracketed token. -/
def anyBlock : Parser Token :=
  tokenWhere "brackets".toList fun token => token.kind.isBracketed

/-- A region in round brackets. -/
def roundBrackets : Parser Token :=
  anyToken .roundBrackets

/-- A region in square brackets. -/
def squareBrackets : Parser Token :=
  anyToken .squareBrackets

/-- A comma. -/
def comma : Parser Token :=
  anyToken .comma

/-- The words for several kinds, each given once. -/
def kindLabels (kinds : List TokenKind) : Text :=
  List.intercalate " or ".toList (kinds.map TokenKind.label).eraseDups

/-- A token of one of the kinds. -/
def bracketed (kinds : List TokenKind) : Parser Token :=
  tokenWhere (kindLabels kinds) fun token => kinds.contains token.kind

/-- A literal with exactly this text. -/
def keyword (text : Text) : Parser Token :=
  tokenWhere (quotedName text) fun token => token.isLiteral text

/-- The tokens after adjacent symbol tokens that spell the text. -/
def afterSymbols : Text → List Token → Option (List Token)
  | [], rest => some rest
  | _ :: _, [] => none
  | text, token :: rest =>
    if token.kind == .symbol && Text.startsWith text token.value then
      afterSymbols (text.drop token.value.length) rest
    else none

/-- A run of adjacent symbol tokens that spells exactly the text. -/
def symbol (text : Text) : Parser Text :=
  { run := fun region rest =>
      match afterSymbols text (dropTrivia rest) with
      | some next => ⟨.ok text, next⟩
      | none => ⟨.failed (region.expected (quotedName text) rest), rest⟩ }

/-- The texts with longer ones before shorter ones, counted in bytes; equals keep their order. Each
text goes behind those that are longer: this is the insertion sort of the library, as a fold. -/
def longestFirst (candidates : List Text) : List Text :=
  candidates.foldr (fun text sorted =>
    sorted.takeWhile (text.byteLength < ·.byteLength) ++
      text :: sorted.dropWhile (text.byteLength < ·.byteLength)) []

/-- Tries texts in order as runs of symbols. -/
def runSymbols (region : Region) (rest : List Token) (error : ParseError) :
    List Text → Reply Text
  | [] => ⟨.failed error, rest⟩
  | text :: others =>
    match (symbol text).run region rest with
    | ⟨.ok value, next⟩ => ⟨.ok value, next⟩
    | _ => runSymbols region rest error others

/-- The longest of the candidates that is spelled here. -/
def oneOfSymbols (candidates : List Text) : Parser Text :=
  { run := fun region rest =>
      let wanted := List.intercalate " or ".toList (candidates.map quotedName)
      runSymbols region rest (region.expected wanted rest) (longestFirst candidates) }

/-- Moves over whitespace and comments, if there are any. -/
def skipTrivia : Parser Unit :=
  { run := fun _ rest => ⟨.ok (), dropTrivia rest⟩ }

/-- Succeeds without consuming if the next token is not trivia. -/
def noSpacesHere : Parser Unit :=
  { run := fun _ rest =>
      match rest with
      | token :: _ =>
        if token.isTrivia then ⟨.failed (.expectedAt "no whitespace".toList token), rest⟩
        else ⟨.ok (), rest⟩
      | [] => ⟨.ok (), rest⟩ }

/-- Whether a token has a line feed in it. -/
def breaksLine (token : Token) : Bool :=
  token.value.contains '\n'

/-- Succeeds without consuming if the trivia before the next significant token has no line feed. -/
def noLineTerminatorHere : Parser Unit :=
  { run := fun _ rest =>
      match (rest.takeWhile Token.isTrivia).find? breaksLine with
      | some token =>
        let fault := .expected "no line break".toList "line break".toList
        ⟨.failed (.leaf fault token.position), rest⟩
      | none => ⟨.ok (), rest⟩ }

/-- The whitespace and comments here, at least one token, as written. -/
def trivia : Parser Excerpt :=
  { run := fun region rest =>
      match rest.takeWhile Token.isTrivia with
      | [] => ⟨.failed (region.expected "whitespace".toList rest), rest⟩
      | token :: more => ⟨.ok ⟨spelling (token :: more), token.position⟩, dropTrivia rest⟩ }

/-- Succeeds if only trivia is left. -/
def endOfInput : Parser Unit :=
  { run := fun region rest =>
      if (firstSignificant rest).isNone then ⟨.ok (), rest⟩
      else ⟨.failed (region.expected "end of input".toList rest), rest⟩ }

end StyleSyntax.Parser
