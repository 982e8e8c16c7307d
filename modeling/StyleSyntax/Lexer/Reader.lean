import StyleSyntax.Lexer.Config
import StyleSyntax.Lexer.Extent
import StyleSyntax.Lexer.Fault
import StyleSyntax.Text.Alphanumeric
import StyleSyntax.Token.Basic

/-!
# Readers

A reader looks at a text and either declines it, or gives the kind and the length of the token
that it begins with, or fails. The readers are tried in a fixed order, and the first one that does
not decline decides.
-/

namespace StyleSyntax

/-- What a reader makes of a text. -/
inductive Scan where
  /-- Another reader may try. -/
  | declined
  /-- The text begins with a token of this kind and this many characters. -/
  | lexeme (kind : TokenKind) (length : Nat)
  /-- The token is broken. The fault lies `blame` characters on; the reader saw it after `stop`
  characters. -/
  | failed (fault : LexFault) (blame stop : Nat)
deriving DecidableEq

/-- A recogniser of tokens. -/
abbrev Reader := LexerConfig → Text → Scan

namespace Reader

/-- A run is a token unless it is empty. -/
def ofRun (kind : TokenKind) (length : Nat) : Scan :=
  if length = 0 then .declined else .lexeme kind length

/-- Whitespace is every character with a code of at most 32. -/
def isSpace (c : Char) : Bool :=
  c.toNat ≤ 32

/-- Letters, digits, the dollar sign and the underscore. -/
def isLiteralChar (c : Char) : Bool :=
  c == '$' || c == '_' || Text.isAlphanumeric c

/-- The opening of a comment between angle brackets. -/
def cssCommentOpening : Text := ['<', '!', '-', '-']

/-- The end of a comment between angle brackets. -/
def cssCommentClosing : Text := ['-', '-', '>']

/-- The longest run of whitespace. -/
def space : Reader := fun _ text =>
  ofRun .space (Text.lengthWhile isSpace text)

/-- A comment between angle brackets; without its end it takes the rest of the text. -/
def cssComment : Reader := fun _ text =>
  if Text.startsWith text cssCommentOpening then
    .lexeme .cssComment (Text.lengthThrough cssCommentClosing text)
  else .declined

/-- A comment to the end of the line, or a block comment; without its end a block comment takes
the rest of the text. -/
def comment : Reader := fun _ text =>
  if Text.startsWith text lineCommentOpening then
    .lexeme .comment (Text.lengthWhile (· != '\n') text)
  else if Text.startsWith text blockCommentOpening then
    .lexeme .multilineComment (Text.lengthThrough blockCommentClosing text)
  else .declined

/-- A string between single or double quotes, on one line unless the line feed is escaped. The
fault of an open string lies at its quote. -/
def string : Reader := fun _ text =>
  match text with
  | [] => .declined
  | c :: rest =>
    if c = '\x27' ∨ c = '\x22' then
      match quotedExtent c true rest with
      | .closed n => .lexeme .string (n + 1)
      | .unclosed n => .failed .unterminatedString 0 (n + 1)
    else .declined

/-- A string between backticks. -/
def templateString : Reader := fun _ text =>
  match text with
  | [] => .declined
  | c :: rest =>
    if c = '\x60' then
      match quotedExtent c false rest with
      | .closed n => .lexeme .templateString (n + 1)
      | .unclosed n => .failed .unterminatedTemplate 0 (n + 1)
    else .declined

/-- A balanced region. The fault of an open region lies where the text ends. -/
def balanced (opening closing : Char) (kind : TokenKind) (text : Text) : Scan :=
  match text with
  | [] => .declined
  | c :: rest =>
    if c = opening then
      match balancedExtent opening closing 0 rest with
      | .closed n => .lexeme kind (n + 1)
      | .unclosed n => .failed (.unbalanced opening) (n + 1) (n + 1)
    else .declined

/-- A region in round brackets. -/
def roundBrackets : Reader := fun _ =>
  balanced '(' ')' .roundBrackets

/-- A region in square brackets. -/
def squareBrackets : Reader := fun _ =>
  balanced '[' ']' .squareBrackets

/-- A region in braces, of the kind that the configuration asks for. -/
def braces : Reader := fun config =>
  balanced '\x7b' '\x7d' (if config.lazyBraces then .lazyBlock else .block)

/-- A single comma. -/
def comma : Reader := fun _ text =>
  if text.head? = some ',' then .lexeme .comma 1 else .declined

/-- The longest run of literal characters. -/
def literal : Reader := fun _ text =>
  ofRun .literal (Text.lengthWhile isLiteralChar text)

/-- Whether any sort of comment opens here. -/
def opensComment (text : Text) : Bool :=
  Text.startsWith text lineCommentOpening || Text.startsWith text blockCommentOpening ||
    Text.startsWith text cssCommentOpening

/-- The length of the run of punctuation up to the next comment. -/
def symbolRunLength (config : LexerConfig) : Text → Nat
  | [] => 0
  | c :: rest =>
    if config.isSymbol c && !opensComment (c :: rest) then symbolRunLength config rest + 1 else 0

/-- One character of punctuation, or a run of it where symbols are joined. -/
def symbol : Reader := fun config text =>
  match text with
  | [] => .declined
  | c :: rest =>
    if config.isSymbol c then
      .lexeme .symbol (if config.joinSymbols then symbolRunLength config rest + 1 else 1)
    else .declined

/-- All readers in the order in which they are tried. -/
def all : List Reader :=
  [space, cssComment, comment, string, templateString, roundBrackets, squareBrackets, braces,
    comma, literal, symbol]

/-- The answer of the first reader that does not decline. -/
def firstAnswer (config : LexerConfig) (text : Text) : List Reader → Scan
  | [] => .declined
  | reader :: rest =>
    match reader config text with
    | .declined => firstAnswer config text rest
    | answer => answer

end Reader

/-- What the readers make of a text. -/
def scan (config : LexerConfig) (text : Text) : Scan :=
  Reader.firstAnswer config text Reader.all

end StyleSyntax
