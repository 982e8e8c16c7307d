import StyleSyntax.Proofs.Lexer.FirstFault
import StyleSyntax.Proofs.Lexer.ReaderExactness

/-!
# Tokens built by the readers

The loop over a stream asks one reader after another and keeps the tokens that they have built.
Since every reader is exact, the first answer on the stream is the one that the scan finds for the
text that is left, and the stream stands behind the lexeme then. No lexeme is empty, so there is a
token for each, and the tokens of the loop are the tokens of the text.
-/

namespace StyleSyntax

variable {config : LexerConfig} {cursor : Cursor}

/-- Exact readers that are tried one after another give the first answer of their recognisers. -/
theorem TokenReader.firstToken_isExact {readers : List TokenReader} {recognisers : List Reader}
    (h : List.Forall₂ IsExact readers recognisers) :
    IsExact (fun config => firstToken config readers)
      (fun config text => Reader.firstAnswer config text recognisers) := by
  intro config cursor
  induction h with
  | nil => rfl
  | @cons reader recogniser readers recognisers hreader _ ih =>
    dsimp only at ih ⊢
    rw [firstToken, hreader config cursor]
    cases hanswer : recogniser config cursor.rest with
    | declined =>
      rw [read_of_declined hanswer]
      dsimp only
      rw [ih, Cursor.read, Cursor.read, Reader.firstAnswer, hanswer]
    | lexeme kind n =>
      rw [read_of_lexeme hanswer, read_of_lexeme (by rw [Reader.firstAnswer, hanswer])]
    | failed fault blame stop =>
      rw [read_of_failed hanswer, read_of_failed (by rw [Reader.firstAnswer, hanswer])]

/-- On a stream the readers find what the scan finds. -/
theorem TokenReader.firstToken_toStream (config : LexerConfig) (cursor : Cursor) :
    firstToken config all cursor.toStream =
      ((cursor.read scan config).1, (cursor.read scan config).2.toStream) :=
  firstToken_isExact all_isExact config cursor

namespace Cursor

variable {c : Char} {later : Text} {kind : TokenKind} {fault : LexFault} {n blame stop : Nat}

/-- Behind the text there are no tokens. -/
theorem tokens_of_rest_eq_nil (h : cursor.rest = []) : cursor.toStream.tokens config = .ok [] := by
  rw [InputStream.tokens, InputStream.peek_of_rest_eq_nil h]

/-- A lexeme becomes the first token, and the loop goes on behind it. -/
theorem tokens_of_lexeme (hrest : cursor.rest = c :: later)
    (hscan : scan config cursor.rest = .lexeme kind n) :
    cursor.toStream.tokens config =
      ((cursor.take n).2.toStream.tokens config).map
        (⟨kind, (cursor.take n).1, cursor.position⟩ :: ·) := by
  rw [InputStream.tokens, InputStream.peek_of_rest_eq_cons hrest]
  dsimp only
  rw [TokenReader.firstToken_toStream, TokenReader.read_of_lexeme hscan]

/-- The fault of a broken token ends the loop. -/
theorem tokens_of_failed (hrest : cursor.rest = c :: later)
    (hscan : scan config cursor.rest = .failed fault blame stop) :
    cursor.toStream.tokens config = .error ⟨fault, (cursor.take blame).2.position⟩ := by
  rw [InputStream.tokens, InputStream.peek_of_rest_eq_cons hrest]
  dsimp only
  rw [TokenReader.firstToken_toStream, TokenReader.read_of_failed hscan]

/-- A character that no reader takes ends the loop. -/
theorem tokens_of_declined (hrest : cursor.rest = c :: later)
    (hscan : scan config cursor.rest = .declined) :
    cursor.toStream.tokens config = .error ⟨.unexpectedSymbol c, cursor.position⟩ := by
  rw [InputStream.tokens, InputStream.peek_of_rest_eq_cons hrest]
  dsimp only
  rw [TokenReader.firstToken_toStream, TokenReader.read_of_declined hscan]
  rfl

/-- A move over a first character and more takes it and leaves what stands behind. -/
theorem take_succ (hrest : cursor.rest = c :: later) (n : Nat) :
    (cursor.take (n + 1)).1 = c :: later.take n ∧
      (cursor.take (n + 1)).2.rest = later.drop n := by
  rw [take, hrest, List.take_succ_cons, List.drop_succ_cons]
  exact ⟨rfl, rfl⟩

/-- The loop on the stream of a cursor gives the tokens of the text that is left. -/
theorem tokens_toStream (config : LexerConfig) (cursor : Cursor) :
    cursor.toStream.tokens config = tokensOf config cursor.rest cursor.position := by
  generalize hrest : cursor.rest = text
  generalize hposition : cursor.position = position
  fun_induction tokensOf config text position generalizing cursor with
  | case1 => exact tokens_of_rest_eq_nil hrest
  | case2 position c rest kind n hscan value tokens htokens ih =>
    subst hposition
    obtain ⟨hvalue, hlater⟩ := take_succ hrest n
    rw [tokens_of_lexeme hrest (hrest ▸ hscan),
      ih _ hlater (congrArg cursor.position.advanceText hvalue), htokens, hvalue]
    rfl
  | case3 position c rest kind n hscan value fault hfault ih =>
    subst hposition
    obtain ⟨hvalue, hlater⟩ := take_succ hrest n
    rw [tokens_of_lexeme hrest (hrest ▸ hscan),
      ih _ hlater (congrArg cursor.position.advanceText hvalue), hfault]
    rfl
  | case4 position c rest fault blame stop hscan =>
    subst hposition
    rw [tokens_of_failed hrest (hrest ▸ hscan), take, hrest]
  | case5 position c rest hlexeme hfailed =>
    subst hposition
    exact tokens_of_declined hrest (hrest ▸ scan_eq_declined hlexeme hfailed)

end Cursor

/-- Under any settings and from any position on, the loop over a whole text gives the tokens of the
text, or its first fault. -/
theorem tokenize_eq_tokensOf (config : LexerConfig) (text : Text) (origin : Position) :
    tokenize config text origin = tokensOf config text origin := by
  rw [tokenize, ← Cursor.toStream_ofText, Cursor.tokens_toStream]
  rfl

end StyleSyntax
