import StyleSyntax.Lexer.InputStream
import StyleSyntax.Token.Basic

/-!
# Readers on a stream

Each reader looks at the stream and either leaves it as it is, or moves it over a token and builds
that token from the position it had saved and from the text it has read or cuts out from the offset
it had saved, or fails. The readers of runs in quotes and in brackets are loops of their own over
the stream. The readers are tried in a fixed order until the text is used up; each token takes some
of the text, so this comes to an end.
-/

namespace StyleSyntax

/-- A recogniser of tokens on a stream. -/
abbrev TokenReader :=
  LexerConfig → InputStream → Except LexError (Option Token) × InputStream

namespace InputStream

variable {stream : InputStream}

/-- The token from a saved offset to the stream. -/
def tokenFrom (stream : InputStream) (kind : TokenKind) (start : Nat) (position : Position) :
    Token :=
  ⟨kind, stream.sliceFrom start, position⟩

/-- Moves through the closing quote of a string and tells whether there is one. A line feed or the
end of the text stops it; a backslash takes the next character with it. -/
def skipString (quote : Char) (stream : InputStream) : Bool × InputStream :=
  match _ : stream.peek with
  | none => (false, stream)
  | some c =>
    if c = '\n' then (false, stream)
    else if c = '\\' then skipString quote stream.advance.2.advance.2
    else if c = quote then (true, stream.advance.2)
    else skipString quote stream.advance.2
termination_by stream.bytesLeft
decreasing_by
  · exact bytesLeft_advance_advance_lt ‹_›
  · exact bytesLeft_advance_lt ‹_›

/-- Moves through the closing quote of a run that may go over several lines, and tells whether there
is one. -/
def skipRun (quote : Char) (stream : InputStream) : Bool × InputStream :=
  match _ : stream.advance with
  | (none, next) => (false, next)
  | (some c, next) =>
    if c = '\\' then skipRun quote next.advance.2
    else if c = quote then (true, next)
    else skipRun quote next
termination_by stream.bytesLeft
decreasing_by
  · exact Nat.lt_of_le_of_lt (bytesLeft_advance_le _) (bytesLeft_lt_of_advance ‹_›)
  · exact bytesLeft_lt_of_advance ‹_›

/-- A quoted run is passed forwards. -/
theorem bytesLeft_skipRun_le (quote : Char) (stream : InputStream) :
    (skipRun quote stream).2.bytesLeft ≤ stream.bytesLeft := by
  fun_induction skipRun quote stream with
  | case1 stream next h =>
    have hle := bytesLeft_advance_le stream
    rwa [h] at hle
  | case2 stream next h ih =>
    exact Nat.le_trans ih
      (Nat.le_trans (bytesLeft_advance_le next) (Nat.le_of_lt (bytesLeft_lt_of_advance h)))
  | case3 stream next h => exact Nat.le_of_lt (bytesLeft_lt_of_advance h)
  | case4 stream c next h _ _ ih => exact Nat.le_trans ih (Nat.le_of_lt (bytesLeft_lt_of_advance h))

/-- Moves over a quoted run inside brackets, through its closing quote or to the end of the text. -/
def skipQuoted (quote : Char) (stream : InputStream) : InputStream :=
  (skipRun quote stream.advance.2).2

/-- The quote at least is passed. -/
theorem bytesLeft_skipQuoted_lt {quote c : Char} (h : stream.peek = some c) :
    (skipQuoted quote stream).bytesLeft < stream.bytesLeft :=
  Nat.lt_of_le_of_lt (bytesLeft_skipRun_le quote _) (bytesLeft_advance_lt h)

/-- Moves through the bracket that closes the first one. Only brackets of this sort are counted.
Without the closing bracket the fault lies at the end of the text. -/
def skipBalanced (opening closing : Char) (depth : Nat) (stream : InputStream) :
    Except LexError Unit × InputStream :=
  match _ : stream.peek with
  | none => (.error ⟨.unbalanced opening, stream.position⟩, stream)
  | some c =>
    if c = '\\' then skipBalanced opening closing depth stream.advance.2.advance.2
    else if isQuote c then skipBalanced opening closing depth (skipQuoted c stream)
    else if hline : c = '/' ∧ stream.peekAt 1 = some '/' then
      skipBalanced opening closing depth (stream.readWhile (· != '\n')).2
    else if c = '/' ∧ stream.peekAt 1 = some '*' then
      skipBalanced opening closing depth (stream.readUntil blockCommentClosing).2
    else if c = opening then skipBalanced opening closing (depth + 1) stream.advance.2
    else if c = closing then
      if depth - 1 = 0 then (.ok (), stream.advance.2)
      else skipBalanced opening closing (depth - 1) stream.advance.2
    else skipBalanced opening closing depth stream.advance.2
termination_by stream.bytesLeft
decreasing_by
  · exact bytesLeft_advance_advance_lt ‹_›
  · exact bytesLeft_skipQuoted_lt ‹_›
  · exact bytesLeft_readWhile_lt ‹_› (by rw [hline.1]; rfl)
  · exact bytesLeft_readUntil_lt ‹_› (by decide)
  all_goals exact bytesLeft_advance_lt ‹_›

/-- Moves over punctuation up to the next comment. -/
def skipSymbols (config : LexerConfig) (stream : InputStream) : InputStream :=
  match _ : stream.peek with
  | none => stream
  | some c =>
    let opensComment := c == '/' && (stream.peekAt 1 == some '/' || stream.peekAt 1 == some '*')
    if !config.isSymbol c || opensComment || stream.startsWith Reader.cssCommentOpening then stream
    else skipSymbols config stream.advance.2
termination_by stream.bytesLeft
decreasing_by exact bytesLeft_advance_lt ‹_›

/-- A string is passed forwards. -/
theorem bytesLeft_skipString_le (quote : Char) (stream : InputStream) :
    (skipString quote stream).2.bytesLeft ≤ stream.bytesLeft := by
  fun_induction skipString quote stream with
  | case1 | case2 => exact Nat.le_refl _
  | case3 stream h _ ih => exact Nat.le_trans ih (Nat.le_of_lt (bytesLeft_advance_advance_lt h))
  | case4 stream h _ _ => exact Nat.le_of_lt (bytesLeft_advance_lt h)
  | case5 stream c h _ _ _ ih => exact Nat.le_trans ih (Nat.le_of_lt (bytesLeft_advance_lt h))

/-- A region is passed forwards, and its closing bracket at least where there is one. -/
theorem bytesLeft_skipBalanced (opening closing : Char) (depth : Nat) (stream : InputStream) :
    (skipBalanced opening closing depth stream).2.bytesLeft ≤ stream.bytesLeft ∧
      ((skipBalanced opening closing depth stream).1 = .ok () →
        (skipBalanced opening closing depth stream).2.bytesLeft < stream.bytesLeft) := by
  -- What the loop does behind a first item counts for the region with this item.
  have behind {start next : InputStream} {answer : Except LexError Unit × InputStream}
      (hitem : next.bytesLeft < start.bytesLeft)
      (h : answer.2.bytesLeft ≤ next.bytesLeft ∧
        (answer.1 = .ok () → answer.2.bytesLeft < next.bytesLeft)) :
      answer.2.bytesLeft ≤ start.bytesLeft ∧
        (answer.1 = .ok () → answer.2.bytesLeft < start.bytesLeft) :=
    ⟨Nat.le_trans h.1 (Nat.le_of_lt hitem), fun hok => Nat.lt_trans (h.2 hok) hitem⟩
  fun_induction skipBalanced opening closing depth stream with
  | case1 => exact ⟨Nat.le_refl _, fun h => nomatch h⟩
  | case2 depth stream hpeek ih => exact behind (bytesLeft_advance_advance_lt hpeek) ih
  | case3 depth stream c hpeek _ _ ih => exact behind (bytesLeft_skipQuoted_lt hpeek) ih
  | case4 depth stream c hpeek _ _ hline ih =>
    exact behind (bytesLeft_readWhile_lt hpeek (by rw [hline.1]; rfl)) ih
  | case5 depth stream c hpeek _ _ _ _ ih =>
    exact behind (bytesLeft_readUntil_lt hpeek (by decide)) ih
  | case6 depth stream hpeek _ _ _ _ ih => exact behind (bytesLeft_advance_lt hpeek) ih
  | case7 depth stream _ hpeek =>
    have hmoves := bytesLeft_advance_lt hpeek
    exact ⟨Nat.le_of_lt hmoves, fun _ => hmoves⟩
  | case8 depth stream _ hpeek _ _ _ _ _ ih => exact behind (bytesLeft_advance_lt hpeek) ih
  | case9 depth stream c hpeek _ _ _ _ _ _ ih => exact behind (bytesLeft_advance_lt hpeek) ih

/-- Punctuation is passed forwards. -/
theorem bytesLeft_skipSymbols_le (config : LexerConfig) (stream : InputStream) :
    (skipSymbols config stream).bytesLeft ≤ stream.bytesLeft := by
  fun_induction skipSymbols config stream with
  | case1 | case2 => exact Nat.le_refl _
  | case3 stream c h _ _ ih => exact Nat.le_trans ih (Nat.le_of_lt (bytesLeft_advance_lt h))

end InputStream

namespace TokenReader

open InputStream

/-- The longest run of the characters of a class, unless it is empty. -/
def run (kind : TokenKind) (isMember : Char → Bool) : TokenReader := fun _ stream =>
  let (text, next) := stream.readWhile isMember
  if text.isEmpty then (.ok none, next) else (.ok (some ⟨kind, text, stream.position⟩), next)

/-- The longest run of whitespace. -/
def space : TokenReader :=
  run .space Reader.isSpace

/-- A comment between angle brackets; without its end it takes the rest of the text. -/
def cssComment : TokenReader := fun _ stream =>
  if stream.startsWith Reader.cssCommentOpening then
    let (text, next) := stream.readUntil Reader.cssCommentClosing
    (.ok (some ⟨.cssComment, text, stream.position⟩), next)
  else (.ok none, stream)

/-- A comment to the end of the line, or a block comment; without its end a block comment takes
the rest of the text. -/
def comment : TokenReader := fun _ stream =>
  if stream.startsWith lineCommentOpening then
    let (text, next) := stream.readWhile (· != '\n')
    (.ok (some ⟨.comment, text, stream.position⟩), next)
  else if stream.startsWith blockCommentOpening then
    let (text, next) := stream.readUntil blockCommentClosing
    (.ok (some ⟨.multilineComment, text, stream.position⟩), next)
  else (.ok none, stream)

/-- A string between single or double quotes. The fault of an open string lies at its quote. -/
def string : TokenReader := fun _ stream =>
  match stream.peek with
  | none => (.ok none, stream)
  | some quote =>
    if quote = '\x27' ∨ quote = '\x22' then
      match skipString quote stream.advance.2 with
      | (true, next) =>
        (.ok (some (next.tokenFrom .string stream.offset stream.position)), next)
      | (false, next) => (.error ⟨.unterminatedString, stream.position⟩, next)
    else (.ok none, stream)

/-- A string between backticks. -/
def templateString : TokenReader := fun _ stream =>
  if stream.peek = some '\x60' then
    match skipRun '\x60' stream.advance.2 with
    | (true, next) =>
      (.ok (some (next.tokenFrom .templateString stream.offset stream.position)), next)
    | (false, next) => (.error ⟨.unterminatedTemplate, stream.position⟩, next)
  else (.ok none, stream)

/-- A balanced region. -/
def balanced (opening closing : Char) (kind : TokenKind) (stream : InputStream) :
    Except LexError (Option Token) × InputStream :=
  if stream.peek = some opening then
    match skipBalanced opening closing 0 stream with
    | (.ok (), next) => (.ok (some (next.tokenFrom kind stream.offset stream.position)), next)
    | (.error error, next) => (.error error, next)
  else (.ok none, stream)

/-- A region in round brackets. -/
def roundBrackets : TokenReader := fun _ =>
  balanced '(' ')' .roundBrackets

/-- A region in square brackets. -/
def squareBrackets : TokenReader := fun _ =>
  balanced '[' ']' .squareBrackets

/-- A region in braces, of the kind that the configuration asks for. -/
def braces : TokenReader := fun config =>
  balanced '\x7b' '\x7d' (if config.lazyBraces then .lazyBlock else .block)

/-- A single comma. -/
def comma : TokenReader := fun _ stream =>
  if stream.peek = some ',' then
    (.ok (some ⟨.comma, [','], stream.position⟩), stream.advance.2)
  else (.ok none, stream)

/-- The longest run of literal characters. -/
def literal : TokenReader :=
  run .literal Reader.isLiteralChar

/-- One character of punctuation, or a run of it where symbols are joined. -/
def symbol : TokenReader := fun config stream =>
  match stream.peek with
  | none => (.ok none, stream)
  | some c =>
    if config.isSymbol c then
      let next :=
        if config.joinSymbols then skipSymbols config stream.advance.2 else stream.advance.2
      (.ok (some (next.tokenFrom .symbol stream.offset stream.position)), next)
    else (.ok none, stream)

/-- All readers in the order in which they are tried. -/
def all : List TokenReader :=
  [space, cssComment, comment, string, templateString, roundBrackets, squareBrackets, braces,
    comma, literal, symbol]

/-- The token of the first reader that gives one. -/
def firstToken (config : LexerConfig) :
    List TokenReader → InputStream → Except LexError (Option Token) × InputStream
  | [], stream => (.ok none, stream)
  | reader :: readers, stream =>
    match reader config stream with
    | (.ok none, next) => firstToken config readers next
    | answer => answer

/-- An answer does not move the stream back, and moves it on where it gives a token. -/
def Advances (stream : InputStream) (answer : Except LexError (Option Token) × InputStream) :
    Prop :=
  answer.2.bytesLeft ≤ stream.bytesLeft ∧
    ∀ token, answer.1 = .ok (some token) → answer.2.bytesLeft < stream.bytesLeft

variable {config : LexerConfig} {stream next : InputStream}

/-- A stream that has moved on may give any answer. -/
theorem Advances.of_lt {answer : Except LexError (Option Token)}
    (h : next.bytesLeft < stream.bytesLeft) : Advances stream (answer, next) :=
  ⟨Nat.le_of_lt h, fun _ _ => h⟩

/-- A reader that declines leaves the stream. -/
theorem advances_declined (stream : InputStream) : Advances stream (.ok none, stream) :=
  ⟨Nat.le_refl _, fun _ h => nomatch h⟩

/-- A run that is not empty has been passed. -/
theorem advances_run (kind : TokenKind) (isMember : Char → Bool) (config : LexerConfig)
    (stream : InputStream) : Advances stream (run kind isMember config stream) := by
  unfold run readWhile
  dsimp only
  cases bumpWhile_eq_self_or_lt isMember stream with
  | inl hstays =>
    rw [hstays, sliceFrom_offset]
    exact advances_declined stream
  | inr hmoves => split <;> exact .of_lt hmoves

/-- A comment between angle brackets has the characters that open it. -/
theorem advances_cssComment (config : LexerConfig) (stream : InputStream) :
    Advances stream (cssComment config stream) := by
  unfold cssComment
  split
  · next hopening =>
    exact .of_lt (bytesLeft_readUntil_lt (peek_of_startsWith hopening) (by decide))
  · exact advances_declined stream

/-- A comment has the characters that open it. -/
theorem advances_comment (config : LexerConfig) (stream : InputStream) :
    Advances stream (comment config stream) := by
  unfold comment
  split
  · next hopening => exact .of_lt (bytesLeft_readWhile_lt (peek_of_startsWith hopening) rfl)
  · split
    · next hopening =>
      exact .of_lt (bytesLeft_readUntil_lt (peek_of_startsWith hopening) (by decide))
    · exact advances_declined stream

/-- A string has its quotes. -/
theorem advances_string (config : LexerConfig) (stream : InputStream) :
    Advances stream (string config stream) := by
  unfold string
  split
  · exact advances_declined stream
  · next quote hpeek =>
    have hmoves : (skipString quote stream.advance.2).2.bytesLeft < stream.bytesLeft :=
      Nat.lt_of_le_of_lt (bytesLeft_skipString_le _ _) (bytesLeft_advance_lt hpeek)
    split
    · split <;> next hend => rw [hend] at hmoves; exact .of_lt hmoves
    · exact advances_declined stream

/-- A string between backticks has its quotes. -/
theorem advances_templateString (config : LexerConfig) (stream : InputStream) :
    Advances stream (templateString config stream) := by
  unfold templateString
  split
  · next hpeek =>
    have hmoves : (skipRun '\x60' stream.advance.2).2.bytesLeft < stream.bytesLeft :=
      Nat.lt_of_le_of_lt (bytesLeft_skipRun_le _ _) (bytesLeft_advance_lt hpeek)
    split <;> next hend => rw [hend] at hmoves; exact .of_lt hmoves
  · exact advances_declined stream

/-- A region has its brackets. -/
theorem advances_balanced (opening closing : Char) (kind : TokenKind) (stream : InputStream) :
    Advances stream (balanced opening closing kind stream) := by
  unfold balanced
  split
  · obtain ⟨hle, hlt⟩ := bytesLeft_skipBalanced opening closing 0 stream
    split
    · next hend =>
      rw [hend] at hlt
      exact .of_lt (hlt rfl)
    · next hend =>
      rw [hend] at hle
      exact ⟨hle, fun _ h => nomatch h⟩
  · exact advances_declined stream

/-- A comma is one character. -/
theorem advances_comma (config : LexerConfig) (stream : InputStream) :
    Advances stream (comma config stream) := by
  unfold comma
  split
  · next hpeek => exact .of_lt (bytesLeft_advance_lt hpeek)
  · exact advances_declined stream

/-- Punctuation has a first character. -/
theorem advances_symbol (config : LexerConfig) (stream : InputStream) :
    Advances stream (symbol config stream) := by
  unfold symbol
  split
  · exact advances_declined stream
  · next hpeek =>
    have hmoves := bytesLeft_advance_lt hpeek
    split
    · apply Advances.of_lt
      split
      · exact Nat.lt_of_le_of_lt (bytesLeft_skipSymbols_le config _) hmoves
      · exact hmoves
    · exact advances_declined stream

/-- Every reader moves the stream on over its token. -/
theorem advances_of_mem_all {reader : TokenReader} (h : reader ∈ all) (config : LexerConfig)
    (stream : InputStream) : Advances stream (reader config stream) := by
  simp only [all, List.mem_cons, List.not_mem_nil, or_false] at h
  rcases h with rfl | rfl | rfl | rfl | rfl | rfl | rfl | rfl | rfl | rfl | rfl
  · exact advances_run _ _ config stream
  · exact advances_cssComment config stream
  · exact advances_comment config stream
  · exact advances_string config stream
  · exact advances_templateString config stream
  · exact advances_balanced _ _ _ stream
  · exact advances_balanced _ _ _ stream
  · exact advances_balanced _ _ _ stream
  · exact advances_comma config stream
  · exact advances_run _ _ config stream
  · exact advances_symbol config stream

/-- Readers that are tried one after another move the stream on over the first token. -/
theorem advances_firstToken (config : LexerConfig) {readers : List TokenReader}
    (h : ∀ reader ∈ readers, ∀ stream, Advances stream (reader config stream))
    (stream : InputStream) : Advances stream (firstToken config readers stream) := by
  induction readers generalizing stream with
  | nil => exact advances_declined stream
  | cons reader readers ih =>
    have hreader := h reader List.mem_cons_self stream
    unfold firstToken
    split
    · next next hdeclined =>
      rw [hdeclined] at hreader
      have hothers := fun other hother => h other (List.mem_cons_of_mem reader hother)
      obtain ⟨hle, hlt⟩ := ih hothers next
      exact ⟨Nat.le_trans hle hreader.1,
        fun token htoken => Nat.lt_of_lt_of_le (hlt token htoken) hreader.1⟩
    · exact hreader

/-- Behind the first token fewer bytes are left. -/
theorem bytesLeft_lt_of_firstToken {token : Token}
    (h : firstToken config all stream = (.ok (some token), next)) :
    next.bytesLeft < stream.bytesLeft := by
  have hadvances := advances_firstToken config
    (fun _ hreader stream => advances_of_mem_all hreader config stream) stream
  rw [h] at hadvances
  exact hadvances.2 token rfl

end TokenReader

/-- The tokens from the stream on, or the first fault. The loop goes on with the stream as the
readers leave it. -/
def InputStream.tokens (config : LexerConfig) (stream : InputStream) :
    Except LexError (List Token) :=
  match stream.peek with
  | none => .ok []
  | some c =>
    match _ : TokenReader.firstToken config TokenReader.all stream with
    | (.ok (some token), next) => (next.tokens config).map (token :: ·)
    | (.ok none, next) => .error ⟨.unexpectedSymbol c, next.position⟩
    | (.error error, _) => .error error
termination_by stream.bytesLeft
decreasing_by exact TokenReader.bytesLeft_lt_of_firstToken ‹_›

/-- The tokens of a text whose first character sits at `origin`. -/
def tokenize (config : LexerConfig) (text : Text) (origin : Position) :
    Except LexError (List Token) :=
  (InputStream.ofText text origin).tokens config

end StyleSyntax
