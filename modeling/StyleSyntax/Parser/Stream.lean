import StyleSyntax.Parser.Basic

/-!
# Streams over a list of tokens

A stream is a view of a list of tokens with a start and a cursor; what lies between them is the
fragment that it has consumed. A child stream begins at the cursor of its parent. It is either
flushed, which moves the parent to where the child is, or discarded, which leaves the parent as it
was. Open children form a stack with the youngest on top.
-/

namespace StyleSyntax

/-- A view of a list of tokens. -/
structure TokenStream where
  tokens : List Token
  config : LexerConfig
  /-- Where the first character of the tokens sits. -/
  origin : Position
  /-- The index of the first token of the fragment. -/
  start : Nat := 0
  /-- The index of the next token. -/
  cursor : Nat := 0
deriving DecidableEq

namespace TokenStream

/-- The tokens that are left. -/
def rest (stream : TokenStream) : List Token :=
  stream.tokens.drop stream.cursor

/-- What parsers know of the tokens. -/
def region (stream : TokenStream) : Region :=
  .ofTokens stream.config stream.tokens stream.origin

/-- The token with an index. -/
def tokenAt (stream : TokenStream) (index : Nat) : Option Token :=
  stream.tokens[index]?

/-- The next token. -/
def peek (stream : TokenStream) : Option Token :=
  stream.tokenAt stream.cursor

/-- The number of whitespace and comment tokens right after the cursor. -/
def triviaLength (stream : TokenStream) : Nat :=
  (stream.rest.takeWhile Token.isTrivia).length

/-- The next significant token with its index. -/
def peekSignificant (stream : TokenStream) : Option (Nat × Token) :=
  (firstSignificant stream.rest).map fun token => (stream.cursor + stream.triviaLength, token)

/-- Whether no token is left. -/
def isAtEnd (stream : TokenStream) : Bool :=
  stream.tokens.length ≤ stream.cursor

/-- Whether only whitespace and comments are left. -/
def isAtSignificantEnd (stream : TokenStream) : Bool :=
  stream.peekSignificant.isNone

/-- The stream with its cursor at another token. -/
def moveTo (stream : TokenStream) (cursor : Nat) : TokenStream :=
  { stream with cursor }

/-- Moves over the next token, if there is one. -/
def next (stream : TokenStream) : Option Token × TokenStream :=
  match stream.peek with
  | none => (none, stream)
  | some token => (some token, stream.moveTo (stream.cursor + 1))

/-- Moves over whitespace and comments, and tells whether there were any. -/
def skipTrivia (stream : TokenStream) : Bool × TokenStream :=
  (0 < stream.triviaLength, stream.moveTo (stream.cursor + stream.triviaLength))

/-- A stream that starts at the cursor. -/
def child (stream : TokenStream) : TokenStream :=
  { stream with start := stream.cursor }

/-- The stream with everything consumed that a child has consumed. -/
def flush (stream child : TokenStream) : TokenStream :=
  stream.moveTo child.cursor

/-- The tokens consumed since the stream was made. -/
def fragment (stream : TokenStream) : List Token :=
  (stream.tokens.take stream.cursor).drop stream.start

/-- One operation on the youngest stream of a stack. -/
inductive Action where
  | next
  | peek
  | tokenAt (index : Nat)
  | peekSignificant
  | isAtEnd
  | isAtSignificantEnd
  | skipTrivia
  | interpolationHere
  | lazyBraces
  | moveTo (index : Nat)
  /-- Opens a child. -/
  | child
  /-- Closes the youngest child and keeps what it consumed. -/
  | flush
  /-- Closes the youngest child and forgets what it consumed. -/
  | discard
  | fragment
  | nextPosition
  | significantPosition
  | endPosition
  | expected (wanted : Text)
  | unexpected
deriving DecidableEq

/-- What an operation gives back. -/
inductive Result where
  | nothing
  | flag (value : Bool)
  | token (token : Token)
  | indexed (index : Nat) (token : Token)
  | fragment (tokens : List Token)
  | position (position : Position)
  | error (error : ParseError)
deriving DecidableEq

/-- A missing token gives nothing back. -/
def Result.ofToken? : Option Token → Result
  | none => .nothing
  | some found => .token found

/-- A stream with the streams that it descends from, the nearest first. -/
structure Stack where
  top : TokenStream
  below : List TokenStream := []
deriving DecidableEq

/-- Performs one operation. Closing a child needs a parent; without one nothing happens. -/
def Stack.perform (stack : Stack) : Action → Result × Stack
  | .next =>
    let (token, top) := stack.top.next
    (.ofToken? token, { stack with top })
  | .peek => (.ofToken? stack.top.peek, stack)
  | .tokenAt index => (.ofToken? (stack.top.tokenAt index), stack)
  | .peekSignificant =>
    match stack.top.peekSignificant with
    | none => (.nothing, stack)
    | some (index, token) => (.indexed index token, stack)
  | .isAtEnd => (.flag stack.top.isAtEnd, stack)
  | .isAtSignificantEnd => (.flag stack.top.isAtSignificantEnd, stack)
  | .skipTrivia =>
    let (skipped, top) := stack.top.skipTrivia
    (.flag skipped, { stack with top })
  | .interpolationHere => (.flag (StyleSyntax.interpolationFollows stack.top.rest), stack)
  | .lazyBraces => (.flag stack.top.config.lazyBraces, stack)
  | .moveTo index => (.nothing, { stack with top := stack.top.moveTo index })
  | .child => (.nothing, ⟨stack.top.child, stack.top :: stack.below⟩)
  | .flush =>
    match stack.below with
    | [] => (.nothing, stack)
    | parent :: below => (.nothing, ⟨parent.flush stack.top, below⟩)
  | .discard =>
    match stack.below with
    | [] => (.nothing, stack)
    | parent :: below => (.nothing, ⟨parent, below⟩)
  | .fragment => (.fragment stack.top.fragment, stack)
  | .nextPosition =>
    (.position (StyleSyntax.nextPosition stack.top.rest stack.top.region.finish), stack)
  | .significantPosition =>
    (.position (StyleSyntax.significantPosition stack.top.rest stack.top.region.finish), stack)
  | .endPosition => (.position stack.top.region.finish, stack)
  | .expected wanted => (.error (stack.top.region.expected wanted stack.top.rest), stack)
  | .unexpected => (.error (stack.top.region.unexpected stack.top.rest), stack)

end TokenStream

end StyleSyntax
