import StyleSyntax.Lexer.TokenReader
import StyleSyntax.Proofs.Lexer.SpanItems
import StyleSyntax.Proofs.Lexer.StreamRefinement

/-!
# Exactness of the readers

A reader on a stream is exact when it does what the recogniser of its tokens says of the text that
is left: it leaves the stream where the recogniser declines, it moves the stream over the characters
of the lexeme and builds the token of just these characters at the position where it began, and it
fails with the fault at the position that the recogniser blames. The loops of the readers go where
the extents of quoted runs and balanced regions say, and what a reader cuts out between the offset
that it saved and the stream is what the loop has passed.
-/

namespace StyleSyntax

/-- Where the search for an end leaves the stream, and whether it has found the end. -/
def Extent.reach (cursor : Cursor) : Extent → Bool × InputStream
  | closed n => (true, (cursor.take n).2.toStream)
  | unclosed n => (false, (cursor.take n).2.toStream)

/-- A search goes on from where the stream has been moved to. -/
theorem Extent.reach_shift (cursor : Cursor) (extent : Extent) (count : Nat) :
    (extent.shift count).reach cursor = extent.reach (cursor.take count).2 := by
  cases extent <;> simp only [shift, reach, Cursor.take_take, Nat.add_comm]

/-- Closed or not, the search has passed the extent. -/
theorem Extent.snd_reach (cursor : Cursor) (extent : Extent) :
    (extent.reach cursor).2 = (cursor.take extent.length).2.toStream := by
  cases extent <;> rfl

/-- How the loop over a balanced region ends, with the fault where an open region stops. -/
def Extent.balance (opening : Char) (cursor : Cursor) :
    Extent → Except LexError Unit × InputStream
  | closed n => (.ok (), (cursor.take n).2.toStream)
  | unclosed n =>
    (.error ⟨.unbalanced opening, (cursor.take n).2.position⟩, (cursor.take n).2.toStream)

/-- The loop goes on from where the stream has been moved to. -/
theorem Extent.balance_shift (opening : Char) (cursor : Cursor) (extent : Extent) (count : Nat) :
    (extent.shift count).balance opening cursor = extent.balance opening (cursor.take count).2 := by
  cases extent <;> simp only [shift, balance, Cursor.take_take, Nat.add_comm]

namespace InputStream

variable {cursor : Cursor} {c quote : Char} {later : Text} {config : LexerConfig}

/-! ## Quoted runs -/

theorem peek_of_rest_eq_cons (h : cursor.rest = c :: later) : cursor.toStream.peek = some c := by
  rw [Cursor.peek_toStream, Cursor.peek, h]
  rfl

theorem peek_of_rest_eq_nil (h : cursor.rest = []) : cursor.toStream.peek = none := by
  rw [Cursor.peek_toStream, Cursor.peek, h]
  rfl

theorem advance_of_rest_eq_cons (h : cursor.rest = c :: later) :
    cursor.toStream.advance = (some c, (cursor.take 1).2.toStream) := by
  rw [Cursor.advance_toStream, Cursor.advance, Cursor.peek, h]
  rfl

theorem snd_advance (cursor : Cursor) :
    cursor.toStream.advance.2 = (cursor.take 1).2.toStream := by
  rw [Cursor.advance_toStream]
  rfl

/-- Two characters are passed, or the one that is left. -/
theorem snd_advance_advance (cursor : Cursor) :
    cursor.toStream.advance.2.advance.2 = (cursor.take 2).2.toStream := by
  rw [snd_advance, snd_advance, Cursor.take_take]

theorem skipRun_of_rest_eq_nil (h : cursor.rest = []) :
    skipRun quote cursor.toStream = (false, cursor.toStream) := by
  have hadvance : cursor.toStream.advance = (none, cursor.toStream) := by
    rw [advance, peek_of_rest_eq_nil h]
  rw [skipRun]
  split
  · next next hnext => cases hadvance.symm.trans hnext; rfl
  · next hnext => cases hadvance.symm.trans hnext

theorem skipRun_of_rest_eq_cons (h : cursor.rest = c :: later) :
    skipRun quote cursor.toStream =
      if c = '\\' then skipRun quote (cursor.take 2).2.toStream
      else if c = quote then (true, (cursor.take 1).2.toStream)
      else skipRun quote (cursor.take 1).2.toStream := by
  rw [skipRun]
  split
  · next hnext => cases (advance_of_rest_eq_cons h).symm.trans hnext
  · next d next hnext =>
    cases (advance_of_rest_eq_cons h).symm.trans hnext
    rw [snd_advance, Cursor.take_take]

/-- A run in quotes is passed to its end. -/
theorem skipRun_toStream (quote : Char) (cursor : Cursor) :
    skipRun quote cursor.toStream = (quotedExtent quote false cursor.rest).reach cursor := by
  generalize hrest : cursor.rest = text
  fun_induction quotedExtent quote false text generalizing cursor with
  | case1 => rw [skipRun_of_rest_eq_nil hrest, Extent.reach, Cursor.take_zero]
  | case2 =>
    have hend : (cursor.take 2).2 = (cursor.take 1).2 := by
      rw [← Cursor.take_min_length cursor 2, hrest]
      rfl
    rw [skipRun_of_rest_eq_cons hrest, if_pos rfl, skipRun_of_rest_eq_nil, hend, Extent.reach]
    rw [Cursor.rest_take, hrest]
    rfl
  | case3 d later ih =>
    rw [skipRun_of_rest_eq_cons hrest, if_pos rfl, Extent.reach_shift, ih]
    rw [Cursor.rest_take, hrest]
    rfl
  | case4 rest hescape =>
    rw [skipRun_of_rest_eq_cons hrest, if_neg hescape, if_pos rfl, Extent.reach]
  | case5 c rest _ _ hline => cases hline
  | case6 c rest hescape hquote _ ih =>
    rw [skipRun_of_rest_eq_cons hrest, if_neg hescape, if_neg hquote, Extent.reach_shift, ih]
    rw [Cursor.rest_take, hrest]
    rfl

/-- A quoted run inside brackets is passed with both of its quotes. -/
theorem skipQuoted_toStream (h : cursor.rest = c :: later) :
    skipQuoted quote cursor.toStream =
      (cursor.take ((quotedExtent quote false later).length + 1)).2.toStream := by
  rw [skipQuoted, snd_advance, skipRun_toStream, Extent.snd_reach, Cursor.rest_take, h,
    Cursor.take_take, Nat.add_comm]
  rfl

theorem skipString_of_rest_eq_nil (h : cursor.rest = []) :
    skipString quote cursor.toStream = (false, cursor.toStream) := by
  rw [skipString]
  split
  · rfl
  · next hpeek => cases (peek_of_rest_eq_nil h).symm.trans hpeek

theorem skipString_of_rest_eq_cons (h : cursor.rest = c :: later) :
    skipString quote cursor.toStream =
      if c = '\n' then (false, cursor.toStream)
      else if c = '\\' then skipString quote (cursor.take 2).2.toStream
      else if c = quote then (true, (cursor.take 1).2.toStream)
      else skipString quote (cursor.take 1).2.toStream := by
  rw [skipString]
  split
  · next hpeek => cases (peek_of_rest_eq_cons h).symm.trans hpeek
  · next d hpeek =>
    cases (peek_of_rest_eq_cons h).symm.trans hpeek
    rw [snd_advance_advance, snd_advance]

/-- A string is passed to its end, or to the end of its line. -/
theorem skipString_toStream (hquote : quote ≠ '\n') (cursor : Cursor) :
    skipString quote cursor.toStream = (quotedExtent quote true cursor.rest).reach cursor := by
  generalize hrest : cursor.rest = text
  fun_induction quotedExtent quote true text generalizing cursor with
  | case1 => rw [skipString_of_rest_eq_nil hrest, Extent.reach, Cursor.take_zero]
  | case2 =>
    have hend : (cursor.take 2).2 = (cursor.take 1).2 := by
      rw [← Cursor.take_min_length cursor 2, hrest]
      rfl
    rw [skipString_of_rest_eq_cons hrest, if_neg (by decide), if_pos rfl, skipString_of_rest_eq_nil,
      hend, Extent.reach]
    rw [Cursor.rest_take, hrest]
    rfl
  | case3 d later ih =>
    rw [skipString_of_rest_eq_cons hrest, if_neg (by decide), if_pos rfl, Extent.reach_shift, ih]
    rw [Cursor.rest_take, hrest]
    rfl
  | case4 rest hescape =>
    rw [skipString_of_rest_eq_cons hrest, if_neg hquote, if_neg hescape, if_pos rfl, Extent.reach]
  | case5 c rest hescape _ hline =>
    obtain rfl : c = '\n' := by simpa using hline
    rw [skipString_of_rest_eq_cons hrest, if_pos rfl, Extent.reach, Cursor.take_zero]
  | case6 c rest hescape hother hline ih =>
    have hfeed : c ≠ '\n' := by simpa using hline
    rw [skipString_of_rest_eq_cons hrest, if_neg hfeed, if_neg hescape, if_neg hother,
      Extent.reach_shift, ih]
    rw [Cursor.rest_take, hrest]
    rfl

/-! ## Balanced regions -/

theorem skipBalanced_of_rest_eq_nil {opening closing : Char} {depth : Nat} (h : cursor.rest = []) :
    skipBalanced opening closing depth cursor.toStream =
      (.error ⟨.unbalanced opening, cursor.position⟩, cursor.toStream) := by
  rw [skipBalanced]
  split
  · rfl
  · next hpeek => cases (peek_of_rest_eq_nil h).symm.trans hpeek

theorem peekAt_one_of_rest_eq_cons (h : cursor.rest = c :: later) :
    cursor.toStream.peekAt 1 = later.head? := by
  rw [Cursor.peekAt_toStream, Cursor.peekAt, h]
  rfl

/-- A slash and the character behind it, which the loops look at one by one, open a comment. -/
theorem startsWith_slash (c d : Char) (later : Text) :
    Text.startsWith (c :: later) ['/', d] = (c == '/' && later.head? == some d) := by
  cases later with
  | nil => simp [Text.startsWith, List.isPrefixOf]
  | cons e later =>
    simp [Text.startsWith, List.isPrefixOf, BEq.comm (a := '/'), BEq.comm (a := d)]

/-- An item that is not a bracket of its own sort is passed over as a whole. -/
theorem skipBalanced_item {opening closing : Char} {depth : Nat} (h : cursor.rest = c :: later)
    (hopening : c ≠ opening) (hclosing : c ≠ closing) :
    skipBalanced opening closing depth cursor.toStream =
      skipBalanced opening closing depth (cursor.take (itemLength c later)).2.toStream := by
  rw [skipBalanced]
  split
  · next hpeek => cases (peek_of_rest_eq_cons h).symm.trans hpeek
  · next d hpeek =>
    cases (peek_of_rest_eq_cons h).symm.trans hpeek
    have hopens {d : Char} (hslash : c = '/' ∧ later.head? = some d) :
        Text.startsWith (c :: later) ['/', d] := by
      rw [startsWith_slash, hslash.1, hslash.2]
      exact beq_self_eq_true (some d)
    simp only [peekAt_one_of_rest_eq_cons h]
    split_ifs with hescape hquote hline hblock
    · subst hescape
      rw [snd_advance_advance, itemLength_escape, ← Cursor.take_min_length cursor 2, h,
        List.length_cons]
    · rw [skipQuoted_toStream h, itemLength_quote hquote]
    · rw [Cursor.readWhile_toStream, itemLength_lineComment (hopens hline), ← h]
      rfl
    · rw [Cursor.readUntil_toStream, itemLength_blockComment (hopens hblock), ← h]
      rfl
    · have hplain : c = '/' → later.head? ≠ some '/' ∧ later.head? ≠ some '*' := fun hslash =>
        ⟨fun hhead => hline ⟨hslash, hhead⟩, fun hhead => hblock ⟨hslash, hhead⟩⟩
      rw [snd_advance, itemLength_eq_one hescape (Bool.eq_false_iff.mpr hquote) hplain]

/-- A bracket begins no other item. -/
theorem skipBalanced_bracket {opening closing : Char} {depth : Nat} (h : cursor.rest = c :: later)
    (hescape : c ≠ '\\') (hquote : isQuote c = false) (hslash : c ≠ '/') :
    skipBalanced opening closing depth cursor.toStream =
      if c = opening then
        skipBalanced opening closing (depth + 1) (cursor.take 1).2.toStream
      else if c = closing then
        if depth - 1 = 0 then (.ok (), (cursor.take 1).2.toStream)
        else skipBalanced opening closing (depth - 1) (cursor.take 1).2.toStream
      else skipBalanced opening closing depth (cursor.take 1).2.toStream := by
  rw [skipBalanced]
  split
  · next hpeek => cases (peek_of_rest_eq_cons h).symm.trans hpeek
  · next d hpeek =>
    cases (peek_of_rest_eq_cons h).symm.trans hpeek
    simp only [hescape, hquote, hslash, false_and, if_false, dif_neg, not_false_eq_true,
      Bool.false_eq_true, snd_advance]

/-- Behind its opening bracket a region is passed to its end. -/
theorem skipBalanced_toStream (bracket : Bracket) (depth : Nat) (cursor : Cursor) :
    skipBalanced bracket.opening bracket.closing (depth + 1) cursor.toStream =
      (balancedExtent bracket.opening bracket.closing depth cursor.rest).balance
        bracket.opening cursor := by
  have hopening : bracket.opening ≠ '\\' ∧ isQuote bracket.opening = false ∧
      bracket.opening ≠ '/' := by cases bracket <;> decide
  have hclosing : bracket.closing ≠ '\\' ∧ isQuote bracket.closing = false ∧
      bracket.closing ≠ '/' ∧ bracket.closing ≠ bracket.opening := by cases bracket <;> decide
  generalize hrest : cursor.rest = text
  fun_induction balancedExtent bracket.opening bracket.closing depth text generalizing cursor with
  | case1 => rw [skipBalanced_of_rest_eq_nil hrest, Extent.balance, Cursor.take_zero]
  | case2 depth rest ih =>
    rw [skipBalanced_bracket hrest hopening.1 hopening.2.1 hopening.2.2, if_pos rfl,
      Extent.balance_shift, ih]
    rw [Cursor.rest_take, hrest]
    rfl
  | case3 rest =>
    rw [skipBalanced_bracket hrest hclosing.1 hclosing.2.1 hclosing.2.2.1, if_neg hclosing.2.2.2,
      if_pos rfl, if_pos rfl, Extent.balance]
  | case4 rest outer _ ih =>
    rw [skipBalanced_bracket hrest hclosing.1 hclosing.2.1 hclosing.2.2.1, if_neg hclosing.2.2.2,
      if_pos rfl, Nat.add_sub_cancel, if_neg (Nat.succ_ne_zero outer), Extent.balance_shift, ih]
    rw [Cursor.rest_take, hrest]
    rfl
  | case5 depth c rest hnot hnot' ih =>
    rw [skipBalanced_item hrest hnot hnot', Extent.balance_shift, ih]
    obtain ⟨length, hlength⟩ : ∃ length, itemLength c rest = length + 1 :=
      Nat.exists_eq_add_of_le' (one_le_itemLength c rest)
    rw [Cursor.rest_take, hrest, hlength]
    rfl

/-! ## Punctuation -/

/-- A run of punctuation is passed up to the next comment. -/
theorem skipSymbols_toStream (config : LexerConfig) (cursor : Cursor) :
    skipSymbols config cursor.toStream =
      (cursor.take (Reader.symbolRunLength config cursor.rest)).2.toStream := by
  generalize hrest : cursor.rest = text
  induction text generalizing cursor with
  | nil =>
    rw [skipSymbols]
    split
    · rw [Reader.symbolRunLength, Cursor.take_zero]
    · next hpeek => cases (peek_of_rest_eq_nil hrest).symm.trans hpeek
  | cons c later ih =>
    rw [skipSymbols]
    split
    · next hpeek => cases (peek_of_rest_eq_cons hrest).symm.trans hpeek
    · next d hpeek =>
      cases (peek_of_rest_eq_cons hrest).symm.trans hpeek
      simp only [peekAt_one_of_rest_eq_cons hrest, Cursor.startsWith_toStream, hrest]
      have htest : (!config.isSymbol c ||
          (c == '/' && (later.head? == some '/' || later.head? == some '*')) ||
          Text.startsWith (c :: later) Reader.cssCommentOpening) =
          !(config.isSymbol c && !Reader.opensComment (c :: later)) := by
        rw [Reader.opensComment, lineCommentOpening, blockCommentOpening, startsWith_slash,
          startsWith_slash, ← Bool.and_or_distrib_left, Bool.not_and, Bool.not_not, Bool.or_assoc]
      rw [htest, Reader.symbolRunLength]
      cases config.isSymbol c && !Reader.opensComment (c :: later) with
      | false => rw [if_pos Bool.not_false, if_neg Bool.false_ne_true, Cursor.take_zero]
      | true =>
        rw [if_neg (by decide), if_pos rfl, snd_advance, ih, Cursor.take_take, Nat.add_comm]
        rw [Cursor.rest_take, hrest]
        rfl

end InputStream

/-! ## Readers -/

/-- A reader on the stream of a cursor does what the cursor does with the recogniser: the same token
or fault is given, and the stream stands where the cursor does then. -/
def TokenReader.IsExact (reader : TokenReader) (recogniser : Reader) : Prop :=
  ∀ (config : LexerConfig) (cursor : Cursor), reader config cursor.toStream =
    ((cursor.read recogniser config).1, (cursor.read recogniser config).2.toStream)

namespace TokenReader

open InputStream

variable {cursor : Cursor} {c : Char} {later : Text} {config : LexerConfig} {recogniser : Reader}

theorem read_of_declined (h : recogniser config cursor.rest = .declined) :
    cursor.read recogniser config = (.ok none, cursor) := by
  rw [Cursor.read, h]

theorem read_of_lexeme {kind : TokenKind} {n : Nat}
    (h : recogniser config cursor.rest = .lexeme kind n) :
    cursor.read recogniser config =
      (.ok (some ⟨kind, (cursor.take n).1, cursor.position⟩), (cursor.take n).2) := by
  rw [Cursor.read, h]

theorem read_of_failed {fault : LexFault} {blame stop : Nat}
    (h : recogniser config cursor.rest = .failed fault blame stop) :
    cursor.read recogniser config =
      (.error ⟨fault, (cursor.take blame).2.position⟩, (cursor.take stop).2) := by
  rw [Cursor.read, h]

/-- The token between the saved offset and the stream has the characters that were passed. -/
theorem tokenFrom_toStream (cursor : Cursor) (kind : TokenKind) (count : Nat) :
    (cursor.take count).2.toStream.tokenFrom kind cursor.toStream.offset cursor.toStream.position =
      ⟨kind, (cursor.take count).1, cursor.position⟩ := by
  rw [tokenFrom, Cursor.offset_toStream, Cursor.sliceFrom_toStream, Cursor.position_toStream]

/-- A run is read up to the first character outside the class, and it is a token unless it is
empty. -/
theorem run_isExact (kind : TokenKind) (isMember : Char → Bool) :
    IsExact (run kind isMember)
      fun _ text => Reader.ofRun kind (Text.lengthWhile isMember text) := by
  intro config cursor
  have hlength : (cursor.readWhile isMember).1.length = Text.lengthWhile isMember cursor.rest :=
    List.length_take_of_le (Text.lengthWhile_le isMember cursor.rest)
  rw [run, Cursor.readWhile_toStream]
  dsimp only
  split_ifs with hempty
  · have hzero : Text.lengthWhile isMember cursor.rest = 0 :=
      hlength.symm.trans (List.isEmpty_iff_length_eq_zero.mp hempty)
    rw [read_of_declined (if_pos hzero), Cursor.readWhile, hzero, Cursor.take_zero]
  · have hmoves : Text.lengthWhile isMember cursor.rest ≠ 0 := fun hzero =>
      hempty (List.isEmpty_iff_length_eq_zero.mpr (hlength.trans hzero))
    rw [read_of_lexeme (if_neg hmoves)]
    rfl

theorem space_isExact : space.IsExact Reader.space :=
  run_isExact .space Reader.isSpace

theorem literal_isExact : literal.IsExact Reader.literal :=
  run_isExact .literal Reader.isLiteralChar

theorem cssComment_isExact : cssComment.IsExact Reader.cssComment := by
  intro config cursor
  unfold cssComment Cursor.read Reader.cssComment
  simp only [Cursor.startsWith_toStream, Cursor.readUntil_toStream]
  split_ifs <;> rfl

theorem comment_isExact : comment.IsExact Reader.comment := by
  intro config cursor
  unfold comment Cursor.read Reader.comment
  simp only [Cursor.startsWith_toStream, Cursor.readUntil_toStream, Cursor.readWhile_toStream]
  split_ifs <;> rfl

theorem comma_isExact : comma.IsExact Reader.comma := by
  intro config cursor
  unfold comma
  rw [Cursor.peek_toStream, snd_advance]
  split_ifs with hcomma
  · obtain ⟨later, hlater⟩ := List.head?_eq_some_iff.mp hcomma
    have hscan : Reader.comma config cursor.rest = .lexeme .comma 1 := if_pos hcomma
    rw [read_of_lexeme hscan, Cursor.take, hlater]
    rfl
  · rw [read_of_declined (if_neg hcomma)]

/-- A reader of quoted runs gives the token of a run that the loop has passed to its end, and blames
an open run where the quote is. -/
theorem read_of_quoted {kind : TokenKind} {fault : LexFault} {extent : Extent}
    (hclosed : ∀ n, extent = .closed n →
      recogniser config cursor.rest = .lexeme kind (n + 1))
    (hopen : ∀ n, extent = .unclosed n →
      recogniser config cursor.rest = .failed fault 0 (n + 1)) :
    (match extent.reach (cursor.take 1).2 with
      | (true, next) =>
        (.ok (some (next.tokenFrom kind cursor.toStream.offset cursor.toStream.position)), next)
      | (false, next) => (.error ⟨fault, cursor.toStream.position⟩, next)) =
      ((cursor.read recogniser config).1, (cursor.read recogniser config).2.toStream) := by
  cases extent with
  | closed n =>
    rw [read_of_lexeme (hclosed n rfl), Extent.reach, Cursor.take_take, Nat.add_comm 1 n]
    dsimp only
    rw [tokenFrom_toStream]
  | unclosed n =>
    rw [read_of_failed (hopen n rfl), Extent.reach, Cursor.take_take, Nat.add_comm 1 n,
      Cursor.take_zero]
    rfl

theorem string_isExact : string.IsExact Reader.string := by
  intro config cursor
  cases hrest : cursor.rest with
  | nil => rw [string, peek_of_rest_eq_nil hrest, read_of_declined (by rw [hrest]; rfl)]
  | cons c later =>
    rw [string, peek_of_rest_eq_cons hrest]
    dsimp only
    split_ifs with hquote
    · have hfeed : c ≠ '\n' := by rcases hquote with rfl | rfl <;> decide
      rw [snd_advance, skipString_toStream hfeed, Cursor.rest_take, hrest, List.drop_one,
        List.tail_cons]
      apply read_of_quoted <;> intro n hextent <;>
        rw [hrest, Reader.string, if_pos hquote, hextent]
    · rw [read_of_declined (by rw [hrest, Reader.string, if_neg hquote])]

theorem templateString_isExact : templateString.IsExact Reader.templateString := by
  intro config cursor
  cases hrest : cursor.rest with
  | nil =>
    rw [templateString, peek_of_rest_eq_nil hrest, read_of_declined (by rw [hrest]; rfl)]
    rfl
  | cons c later =>
    rw [templateString, peek_of_rest_eq_cons hrest]
    split_ifs with hquote
    · obtain rfl := Option.some.inj hquote
      rw [snd_advance, skipRun_toStream, Cursor.rest_take, hrest, List.drop_one, List.tail_cons]
      apply read_of_quoted <;> intro n hextent <;>
        rw [hrest, Reader.templateString, if_pos rfl, hextent]
    · have hother : ¬ c = '\x60' := fun h => hquote (congrArg some h)
      rw [read_of_declined (by rw [hrest, Reader.templateString, if_neg hother])]

/-- The readers of regions are exact for each sort of brackets. -/
theorem balanced_toStream {bracket : Bracket} {kind : TokenKind}
    (h : ∀ text, recogniser config text =
      Reader.balanced bracket.opening bracket.closing kind text) (cursor : Cursor) :
    balanced bracket.opening bracket.closing kind cursor.toStream =
      ((cursor.read recogniser config).1, (cursor.read recogniser config).2.toStream) := by
  cases hrest : cursor.rest with
  | nil =>
    rw [balanced, peek_of_rest_eq_nil hrest, read_of_declined (by rw [h, hrest]; rfl)]
    rfl
  | cons c later =>
    rw [balanced, peek_of_rest_eq_cons hrest]
    split_ifs with hopening
    · obtain rfl := Option.some.inj hopening
      have hplain : bracket.opening ≠ '\\' ∧ isQuote bracket.opening = false ∧
          bracket.opening ≠ '/' := by cases bracket <;> decide
      rw [skipBalanced_bracket hrest hplain.1 hplain.2.1 hplain.2.2, if_pos rfl,
        skipBalanced_toStream, Cursor.rest_take, hrest, List.drop_one, List.tail_cons]
      cases hextent : balancedExtent bracket.opening bracket.closing 0 later with
      | closed n =>
        have hscan : recogniser config cursor.rest = .lexeme kind (n + 1) := by
          rw [h, hrest, Reader.balanced, if_pos rfl, hextent]
        rw [read_of_lexeme hscan, Extent.balance, Cursor.take_take, Nat.add_comm 1 n]
        dsimp only
        rw [tokenFrom_toStream]
      | unclosed n =>
        have hscan : recogniser config cursor.rest =
            .failed (.unbalanced bracket.opening) (n + 1) (n + 1) := by
          rw [h, hrest, Reader.balanced, if_pos rfl, hextent]
        rw [read_of_failed hscan, Extent.balance, Cursor.take_take, Nat.add_comm 1 n]
    · have hother : ¬ c = bracket.opening := fun h => hopening (congrArg some h)
      rw [read_of_declined (by rw [h, hrest, Reader.balanced, if_neg hother])]

theorem roundBrackets_isExact : roundBrackets.IsExact Reader.roundBrackets := fun _ =>
  balanced_toStream (Bracket.reader_eq_balanced .round _)

theorem squareBrackets_isExact : squareBrackets.IsExact Reader.squareBrackets := fun _ =>
  balanced_toStream (Bracket.reader_eq_balanced .square _)

theorem braces_isExact : braces.IsExact Reader.braces := fun _ =>
  balanced_toStream (Bracket.reader_eq_balanced .curly _)

theorem symbol_isExact : symbol.IsExact Reader.symbol := by
  intro config cursor
  cases hrest : cursor.rest with
  | nil => rw [symbol, peek_of_rest_eq_nil hrest, read_of_declined (by rw [hrest]; rfl)]
  | cons c later =>
    rw [symbol, peek_of_rest_eq_cons hrest]
    dsimp only
    split_ifs with hsymbol hjoin
    · have hscan : Reader.symbol config cursor.rest =
          .lexeme .symbol (Reader.symbolRunLength config later + 1) := by
        rw [hrest, Reader.symbol, if_pos hsymbol, if_pos hjoin]
      rw [snd_advance, skipSymbols_toStream, Cursor.rest_take, hrest, List.drop_one,
        List.tail_cons, Cursor.take_take, Nat.add_comm 1, read_of_lexeme hscan, tokenFrom_toStream]
    · have hscan : Reader.symbol config cursor.rest = .lexeme .symbol 1 := by
        rw [hrest, Reader.symbol, if_pos hsymbol, if_neg hjoin]
      rw [snd_advance, read_of_lexeme hscan, tokenFrom_toStream]
    · rw [read_of_declined (by rw [hrest, Reader.symbol, if_neg hsymbol])]

/-- All readers are exact, each for the recogniser in its place. -/
theorem all_isExact : List.Forall₂ IsExact all Reader.all :=
  .cons space_isExact (.cons cssComment_isExact (.cons comment_isExact (.cons string_isExact
    (.cons templateString_isExact (.cons roundBrackets_isExact (.cons squareBrackets_isExact
      (.cons braces_isExact (.cons comma_isExact (.cons literal_isExact
        (.cons symbol_isExact .nil))))))))))

end TokenReader

end StyleSyntax
