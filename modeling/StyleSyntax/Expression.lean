import StyleSyntax.Grammar.Stylesheet

/-!
# Parser expressions

A small language for parsers as data: the matchers of single tokens, the rules of the grammar, and
every way of combining parsers. An expression stands for a parser of values, which hold whatever a
combinator gives back. Only a `probe` expression looks ahead; all others accept every token.
-/

namespace StyleSyntax

/-- A condition on one token. -/
inductive TokenTest where
  | kind (kind : TokenKind)
  | isSymbol (text : Text)
  | isLiteral (text : Text)
  | isTrivia
  | isBracketed
  | isAt
  | isSemicolon
  | isScriptKeyword
  | isVariableStart
  | always
  | never
deriving DecidableEq

/-- Whether a token meets a condition. -/
def TokenTest.holds : TokenTest → Token → Bool
  | kind wanted, token => token.kind == wanted
  | isSymbol text, token => token.isSymbol text
  | isLiteral text, token => token.isLiteral text
  | isTrivia, token => token.isTrivia
  | isBracketed, token => token.kind.isBracketed
  | isAt, token => token.isAt
  | isSemicolon, token => token.isSemicolon
  | isScriptKeyword, token => Grammar.isScriptKeyword token
  | isVariableStart, token => Grammar.isVariableStart token
  | always, _ => true
  | never, _ => false

/-- Rules of the grammar that read one node. -/
inductive NodeRule where
  | ignored
  | straySemicolon
  | ruleBlock
  | declaration
  | atRule
  | selector
  | variableBlock
  | spread
  | script
deriving DecidableEq

/-- The parser of a rule. -/
def NodeRule.parser (dialect : Dialect) : NodeRule → Parser Node
  | ignored => Grammar.ignored
  | straySemicolon => Grammar.straySemicolon
  | ruleBlock => Grammar.withBodies fun bodies => Grammar.ruleBlock bodies dialect
  | declaration => Grammar.declaration dialect
  | atRule => Grammar.withBodies fun bodies => Grammar.atRule bodies dialect
  | selector => (Grammar.selector dialect).map fun s => .leaf (.selector s)
  | variableBlock => Grammar.withBodies Grammar.variableBlock
  | spread => Grammar.spread
  | script => Grammar.script

/-- Rules of the grammar that read a list of nodes. -/
inductive NodesRule where
  | stylesheet
  | blockItems
  | declarationItems
  | selectorList
deriving DecidableEq

/-- The parser of a rule. -/
def NodesRule.parser (dialect : Dialect) : NodesRule → Parser (List Node)
  | stylesheet => Grammar.stylesheet dialect
  | blockItems => Grammar.withBodies fun bodies => Grammar.blockItems bodies dialect
  | declarationItems => Grammar.declarationItems dialect
  | selectorList =>
    (Grammar.selectorList dialect).map fun selectors => selectors.map fun s => .leaf (.selector s)

/-- What a parser expression gives back. -/
inductive Value where
  | nothing
  | flag (value : Bool)
  | text (text : Text)
  | token (token : Token)
  | excerpt (excerpt : Excerpt)
  | node (node : Node)
  | nodes (nodes : List Node)
  | list (values : List Value)
  /-- A value under a label. -/
  | tagged (label : Text) (value : Value)
  /-- The value of an attempt that need not have succeeded. -/
  | tried (value : Value)
  /-- A bracketed token with the result of reading it later. -/
  | deferred (token : Token) (parsed : Except ParseError Value)

/-- A parser as data. -/
inductive Expression where
  | token (kind : TokenKind)
  | string
  | anyBlock
  | keyword (text : Text)
  | tokenWhere (wanted : Text) (test : TokenTest)
  | symbol (text : Text)
  | oneOfSymbols (candidates : List Text)
  | noSpaces
  | noLineBreak
  | endOfInput
  | trivia
  | sequence (steps : List Expression)
  | firstOf (alternatives : List Expression)
  | longestOf (alternatives : List Expression)
  | optional (inner : Expression)
  | attempt (inner : Expression)
  | tried (inner : Expression)
  | many (inner : Expression)
  | all (inner : Expression)
  | list (element separator : Expression) (allowEmpty : Bool)
  | commaList (element : Expression)
  | leftRecursive (left right : Expression)
  | block (kinds : List TokenKind) (inner : Expression)
  | lazyBlock (kinds : List TokenKind) (inner : Expression)
  | raw (inner : Expression)
  | excerpt (inner : Expression)
  | capture (inner : Expression)
  | tag (label : Text) (inner : Expression)
  | probe (test : TokenTest) (inner : Expression)
  | items (rule : NodeRule) (dialect : Dialect)
  | nodeRule (rule : NodeRule) (dialect : Dialect)
  | nodesRule (rule : NodesRule) (dialect : Dialect)
  | identifier (dialect : Dialect)
  | mediaQuery
  | mediaQueryList
  | statementEnd
  | interpolationHere

namespace Expression

/-- A value that may be missing. -/
def ofOption : Option Value → Value
  | none => .nothing
  | some value => value

/-- Reads a deferred block at once and keeps its failure as part of the value. -/
def readDeferred (deferred : Parser.Deferred Value) : Parser Value :=
  match deferred.outcome with
  | .ok value => return .deferred deferred.token (.ok value)
  | .failed error => return .deferred deferred.token (.error error)
  | .endless => { run := fun _ rest => ⟨.endless, rest⟩ }

mutual

/-- The parser that an expression stands for. -/
def parser : Expression → Parser Value
  | token kind => (Parser.anyToken kind).map .token
  | string => Parser.anyString.map .token
  | anyBlock => Parser.anyBlock.map .token
  | keyword text => (Parser.keyword text).map .token
  | tokenWhere wanted test => (Parser.tokenWhere wanted test.holds).map .token
  | symbol text => (Parser.symbol text).map .text
  | oneOfSymbols candidates => (Parser.oneOfSymbols candidates).map .text
  | noSpaces => Parser.noSpacesHere.map fun _ => .nothing
  | noLineBreak => Parser.noLineTerminatorHere.map fun _ => .nothing
  | endOfInput => Parser.endOfInput.map fun _ => .nothing
  | trivia => Parser.trivia.map .excerpt
  | sequence steps => (Parser.sequence (parsers steps)).map .list
  | firstOf alternatives => Parser.firstOf (parsers alternatives)
  | longestOf alternatives => Parser.longestOf (parsers alternatives)
  | optional inner => inner.parser.optional.map ofOption
  | attempt inner => inner.parser.attempt
  | tried inner => inner.parser.optional.map fun value => .tried (ofOption value)
  | many inner => (Parser.many inner.parser).map .list
  | all inner => (Parser.all inner.parser).map .list
  | list element separator allowEmpty =>
    (Parser.list element.parser separator.parser allowEmpty).map .list
  | commaList element => (Parser.commaList element.parser).map .list
  | leftRecursive left right =>
    (Parser.leftRecursive (Parser.rawValue left.parser) (Parser.rawValue right.parser)).map .text
  | block kinds inner => Parser.block kinds inner.parser
  | lazyBlock kinds inner => Parser.lazyBlock kinds inner.parser >>= readDeferred
  | raw inner => (Parser.rawValue inner.parser).map .text
  | excerpt inner => (Parser.excerpt inner.parser).map .excerpt
  | capture inner =>
    (Parser.capture inner.parser).map fun (value, source) => .list [value, .excerpt source]
  | tag label inner => inner.parser.map (.tagged label)
  | probe test inner => Parser.probe test.holds inner.parser
  | items rule dialect => (Grammar.items (rule.parser dialect)).map .nodes
  | nodeRule rule dialect => (rule.parser dialect).map .node
  | nodesRule rule dialect => (rule.parser dialect).map .nodes
  | identifier dialect => (Grammar.identifier dialect).map .excerpt
  | mediaQuery => Grammar.mediaQuery.map .text
  | mediaQueryList => Grammar.mediaQueryList.map .excerpt
  | statementEnd => Grammar.statementEnd.map fun _ => .nothing
  | interpolationHere => Grammar.interpolationHere.map .flag

/-- The parsers that some expressions stand for. -/
def parsers : List Expression → List (Parser Value)
  | [] => []
  | expression :: rest => expression.parser :: parsers rest

end

/-- Runs an expression on tokens from the given one on. With the outcome comes the index of the next
token afterwards. -/
def runOn (expression : Expression) (config : LexerConfig) (tokens : List Token)
    (origin : Position) (skip : Nat) : Outcome ParseError Value × Nat :=
  let rest := tokens.drop skip
  let reply := expression.parser.run (.ofTokens config tokens origin) rest
  (reply.outcome, skip + (rest.length - reply.rest.length))

/-- Runs an expression on the interior of a token. -/
def runInterior (expression : Expression) (config : LexerConfig) (token : Token) :
    Outcome ParseError Value :=
  Parser.interior expression.parser config token

end Expression

end StyleSyntax
