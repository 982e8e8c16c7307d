import StyleSyntax.Text.Position

/-!
# Tokens

A token is a stretch of source text with its kind and the position of its first character.
Bracketed tokens hold a whole balanced region; the text between the brackets can be taken out
with its own position and split again. The spelling of a list of tokens is the text they
stand for.
-/

namespace StyleSyntax

/-- The classes of tokens. -/
inductive TokenKind where
  /-- A run of characters with a code of at most 32. -/
  | space
  /-- A line comment without its line feed. -/
  | comment
  /-- A block comment. -/
  | multilineComment
  /-- A comment between angle brackets. -/
  | cssComment
  /-- A run of letters, digits, dollar signs and underscores. -/
  | literal
  /-- A string with its single or double quotes. -/
  | string
  /-- A string with its backticks. -/
  | templateString
  /-- Punctuation. -/
  | symbol
  | comma
  | roundBrackets
  | squareBrackets
  /-- Braces whose interior is read on demand. -/
  | lazyBlock
  /-- Braces read without that mark. -/
  | block
deriving DecidableEq, Inhabited

namespace TokenKind

/-- Whitespace and comments. -/
def isTrivia : TokenKind → Bool
  | space | comment | multilineComment | cssComment => true
  | _ => false

/-- Kinds of tokens that hold a balanced region. -/
def isBracketed : TokenKind → Bool
  | roundBrackets | squareBrackets | lazyBlock | block => true
  | _ => false

/-- Both kinds of braces. -/
def isBraces : TokenKind → Bool
  | lazyBlock | block => true
  | _ => false

/-- The name of a kind in lists of tokens. -/
def name : TokenKind → Text
  | space => "Space".toList
  | comment => "Comment".toList
  | multilineComment => "MultilineComment".toList
  | cssComment => "CssComment".toList
  | literal => "Literal".toList
  | string => "String".toList
  | templateString => "TemplateString".toList
  | symbol => "Symbol".toList
  | comma => "Comma".toList
  | roundBrackets => "RoundBrackets".toList
  | squareBrackets => "SquareBrackets".toList
  | lazyBlock => "LazyBlock".toList
  | block => "Block".toList

/-- The words for a kind in messages; both kinds of braces are a block. -/
def label : TokenKind → Text
  | space => "space".toList
  | comment => "comment".toList
  | multilineComment => "multiline comment".toList
  | cssComment => "css comment".toList
  | literal => "literal".toList
  | string => "string".toList
  | templateString => "template string".toList
  | symbol => "symbol".toList
  | comma => "comma".toList
  | roundBrackets => "round brackets".toList
  | squareBrackets => "square brackets".toList
  | lazyBlock | block => "block".toList

/-- Every kind, in the order of declaration. -/
def all : List TokenKind :=
  [space, comment, multilineComment, cssComment, literal, string, templateString, symbol, comma,
    roundBrackets, squareBrackets, lazyBlock, block]

/-- The kind with a given name. -/
def ofName? (text : Text) : Option TokenKind :=
  all.find? fun kind => kind.name == text

end TokenKind

/-- A token: its kind, its exact text and the position of its first character. -/
structure Token where
  kind : TokenKind
  value : Text
  position : Position
deriving DecidableEq, Inhabited

namespace Token

/-- Whitespace or a comment. -/
def isTrivia (token : Token) : Bool :=
  token.kind.isTrivia

/-- A token that is not trivia. -/
def isSignificant (token : Token) : Bool :=
  !token.isTrivia

/-- A symbol token with exactly this text. -/
def isSymbol (token : Token) (text : Text) : Bool :=
  token.kind == .symbol && token.value == text

/-- A literal token with exactly this text. -/
def isLiteral (token : Token) (text : Text) : Bool :=
  token.kind == .literal && token.value == text

/-- The semicolon, which ends a statement. -/
def isSemicolon (token : Token) : Bool :=
  token.isSymbol [';']

/-- The sign that opens an at-rule. -/
def isAt (token : Token) : Bool :=
  token.isSymbol ['@']

/-- A brace region of either kind. -/
def isBraces (token : Token) : Bool :=
  token.kind.isBraces

/-- A literal whose only dollar sign is its last character, before a brace region: together they are
an interpolation. -/
def opensInterpolation (literal region : Token) : Bool :=
  literal.kind == .literal && literal.value.getLast? == some '$' &&
    !literal.value.dropLast.contains '$' && region.isBraces

/-- The position after the last character. -/
def endPosition (token : Token) : Position :=
  token.position.advanceText token.value

/-- The text between the brackets of a bracketed token, with the position of its first
character; nothing for other tokens and for a text too short to hold both brackets. -/
def interior (token : Token) : Option (Text × Position) :=
  if token.kind.isBracketed then
    match token.value with
    | opening :: last :: rest => some ((last :: rest).dropLast, token.position.advance opening)
    | _ => none
  else
    none

end Token

/-- The text that a list of tokens stands for. -/
def spelling (tokens : List Token) : Text :=
  tokens.flatMap Token.value

@[simp] theorem spelling_nil : spelling [] = [] := rfl

@[simp] theorem spelling_cons (token : Token) (tokens : List Token) :
    spelling (token :: tokens) = token.value ++ spelling tokens := rfl

@[simp] theorem spelling_append (a b : List Token) :
    spelling (a ++ b) = spelling a ++ spelling b := by
  simp [spelling]

/-- The tokens after the leading whitespace and comments. -/
def dropTrivia (tokens : List Token) : List Token :=
  tokens.dropWhile Token.isTrivia

/-- The first token that is not trivia. -/
def firstSignificant (tokens : List Token) : Option Token :=
  tokens.find? Token.isSignificant

/-- Whether an interpolation begins with the very next token. -/
def interpolationFollows : List Token → Bool
  | token :: next :: _ => token.opensInterpolation next
  | _ => false

/-- The position just past the last token, or `origin` when there is none. -/
def endPosition (tokens : List Token) (origin : Position) : Position :=
  (tokens.getLast?.map Token.endPosition).getD origin

/-- The position of the next token, or `finish` when there is none. -/
def nextPosition (tokens : List Token) (finish : Position) : Position :=
  (tokens.head?.map Token.position).getD finish

/-- The position of the next token that is not trivia, or `finish` when there is none. -/
def significantPosition (tokens : List Token) (finish : Position) : Position :=
  ((firstSignificant tokens).map Token.position).getD finish

end StyleSyntax
