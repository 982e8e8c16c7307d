import StyleSyntax.Proofs.Lexer.BalancedSpans

/-!
# The first fault of a text

A text that cannot be split has tokens up to some place, and what follows there decides the error:
it begins with a character that no reader takes, with a quote that is not closed, or with a bracket
that is not closed. An unknown character and an open quote are blamed where they stand, an open
bracket where the text ends. No reader asks for a character behind the end of the text.
-/

namespace StyleSyntax

/-- A text that begins at `place` and ends at `finish` has this error for what it begins with. -/
inductive IsBlamed (config : LexerConfig) (place finish : Position) : Text → LexError → Prop where
  /-- No reader takes the first character. -/
  | unexpected {c : Char} {rest : Text} :
      (∀ reader ∈ Reader.all, reader config (c :: rest) = .declined) →
      IsBlamed config place finish (c :: rest) ⟨.unexpectedSymbol c, place⟩
  /-- A quote is not closed, or only behind a line feed that is not escaped. -/
  | string {quote : Char} {rest : Text} : (quote = '\x27' ∨ quote = '\x22') →
      (¬ ∃ run after, rest = run ++ after ∧ IsQuotedRun quote run ∧ '\n' ∉ unescaped run) →
      IsBlamed config place finish (quote :: rest) ⟨.unterminatedString, place⟩
  /-- A backtick is not closed. -/
  | template {rest : Text} : (¬ ∃ run after, rest = run ++ after ∧ IsQuotedRun '\x60' run) →
      IsBlamed config place finish ('\x60' :: rest) ⟨.unterminatedTemplate, place⟩
  /-- A bracket is not the first character of a balanced span. -/
  | bracket (bracket : Bracket) {rest : Text} : (¬ ∃ body after, bracket.Closes rest body after) →
      IsBlamed config place finish (bracket.opening :: rest) ⟨.unbalanced bracket.opening, finish⟩

variable {config : LexerConfig} {kind : TokenKind} {text : Text} {origin place : Position}
  {fault : LexFault} {error : LexError} {n blame stop : Nat}

namespace Reader

/-- There is no first answer when all readers decline. -/
theorem firstAnswer_eq_declined {readers : List Reader} :
    firstAnswer config text readers = .declined ↔
      ∀ reader ∈ readers, reader config text = .declined := by
  induction readers with
  | nil => simp [firstAnswer]
  | cons reader rest ih =>
    rw [List.forall_mem_cons, firstAnswer]
    split
    · next hdeclined => simp [hdeclined, ih]
    · next hanswer => exact iff_of_false hanswer fun h => hanswer h.1

/-- No run that a reader finds is empty. -/
theorem pos_of_ofRun {kind' : TokenKind} {length : Nat} (h : ofRun kind' length = .lexeme kind n) :
    0 < n := by
  unfold ofRun at h
  split_ifs at h
  cases h
  omega

/-- No region is empty. -/
theorem pos_of_balanced {opening closing : Char} {kind' : TokenKind}
    (h : balanced opening closing kind' text = .lexeme kind n) : 0 < n := by
  obtain ⟨-, -, body, hbody⟩ := balanced_eq_lexeme text h
  apply Nat.pos_of_ne_zero
  rintro rfl
  cases hbody

/-- No reader finds an empty lexeme. -/
theorem pos_of_mem_all {reader : Reader} (hreader : reader ∈ all)
    (h : reader config text = .lexeme kind n) : 0 < n := by
  cases hreader using mem_all_cases with
  | space | literal => exact pos_of_ofRun h
  | cssComment =>
    unfold cssComment at h
    split_ifs at h with hopening
    cases h
    exact Nat.lt_of_lt_of_le (by decide) (four_le_of_cssCommentOpening hopening)
  | comment =>
    unfold comment at h
    split_ifs at h with hline hblock <;> cases h
    · exact Nat.lt_of_lt_of_le (by decide) (two_le_of_lineCommentOpening hline)
    · exact Nat.lt_of_lt_of_le (by decide) (two_le_of_blockCommentOpening hblock)
  | string =>
    unfold string at h
    split at h
    · cases h
    · split_ifs at h
      split at h <;> cases h
      omega
  | templateString =>
    unfold templateString at h
    split at h
    · cases h
    · split_ifs at h
      split at h <;> cases h
      omega
  | roundBrackets | squareBrackets | braces => exact pos_of_balanced h
  | comma =>
    unfold comma at h
    split_ifs at h
    cases h
    decide
  | symbol =>
    unfold symbol at h
    split at h
    · cases h
    · split_ifs at h <;> cases h <;> omega

/-- A string that fails begins with a quote that is not closed on its line. -/
theorem isBlamed_of_string (finish : Position) (h : string config text = .failed fault blame stop) :
    IsBlamed config place finish text ⟨fault, place.advanceText (text.take blame)⟩ := by
  unfold string at h
  split at h
  · cases h
  · next quote rest =>
    split_ifs at h with hquote
    split at h
    · cases h
    · next m hopen =>
      cases h
      have hnone := (exists_quotedExtent_eq_unclosed (isQuote_of_eq hquote)).mp ⟨m, hopen⟩
      exact .string hquote (by simpa using hnone)

/-- A template string that fails begins with a backtick that is not closed. -/
theorem isBlamed_of_templateString (finish : Position)
    (h : templateString config text = .failed fault blame stop) :
    IsBlamed config place finish text ⟨fault, place.advanceText (text.take blame)⟩ := by
  unfold templateString at h
  split at h
  · cases h
  · next quote rest =>
    split_ifs at h with hquote
    split at h
    · cases h
    · next m hopen =>
      cases h
      subst hquote
      have hnone := (exists_quotedExtent_eq_unclosed rfl).mp ⟨m, hopen⟩
      exact .template (by simpa using hnone)

/-- A region that fails begins with a bracket that is not closed. -/
theorem isBlamed_of_bracket (bracket : Bracket)
    (h : bracket.reader config text = .failed fault blame stop) :
    IsBlamed config place (place.advanceText text) text
      ⟨fault, place.advanceText (text.take blame)⟩ := by
  rw [bracket.reader_eq_balanced] at h
  unfold balanced at h
  split at h
  · cases h
  · next c rest =>
    split_ifs at h with hc
    split at h
    · cases h
    · next m hopen =>
      cases h
      obtain rfl := Bracket.eq_length_of_balancedExtent_eq_unclosed hopen
      subst hc
      rw [List.take_of_length_le (by simp)]
      exact .bracket bracket (Bracket.balancedExtent_eq_unclosed.mp hopen)

/-- A run does not fail. -/
theorem ofRun_ne_failed : ofRun kind n ≠ .failed fault blame stop := by
  unfold ofRun
  split_ifs <;> simp

/-- Where a reader fails, the text begins with a quote or a bracket that is not closed. -/
theorem isBlamed_of_mem_all {reader : Reader} (hreader : reader ∈ all)
    (h : reader config text = .failed fault blame stop) :
    IsBlamed config place (place.advanceText text) text
      ⟨fault, place.advanceText (text.take blame)⟩ := by
  cases hreader using mem_all_cases with
  | space | literal => exact absurd h ofRun_ne_failed
  | cssComment =>
    unfold cssComment at h
    split_ifs at h
  | comment =>
    unfold comment at h
    split_ifs at h
  | string => exact isBlamed_of_string _ h
  | templateString => exact isBlamed_of_templateString _ h
  | roundBrackets => exact isBlamed_of_bracket .round h
  | squareBrackets => exact isBlamed_of_bracket .square h
  | braces => exact isBlamed_of_bracket .curly h
  | comma =>
    unfold comma at h
    split_ifs at h
  | symbol =>
    unfold symbol at h
    split at h
    · cases h
    · split_ifs at h

end Reader

/-- No lexeme that the scan finds is empty, so it declines where it finds none with a character and
does not fail. -/
theorem scan_eq_declined
    (hlexeme : ∀ kind n, scan config text ≠ .lexeme kind (n + 1))
    (hfailed : ∀ fault blame stop, scan config text ≠ .failed fault blame stop) :
    scan config text = .declined := by
  cases hscan : scan config text with
  | declined => rfl
  | lexeme kind n =>
    obtain ⟨reader, hreader, hfound⟩ := Reader.exists_of_firstAnswer (by simp) hscan
    obtain ⟨m, rfl⟩ := Nat.exists_eq_add_of_le' (Reader.pos_of_mem_all hreader hfound)
    exact absurd hscan (hlexeme kind m)
  | failed fault blame stop => exact absurd hscan (hfailed fault blame stop)

namespace IsBlamed

/-- Where the scan fails, splitting fails. -/
theorem tokensOf_of_scan {c : Char} {rest : Text}
    (h : scan config (c :: rest) = .failed fault blame stop) :
    tokensOf config (c :: rest) place =
      .error ⟨fault, place.advanceText ((c :: rest).take blame)⟩ := by
  rw [tokensOf, h]

/-- A text that is blamed cannot be split, and has this error and no other one. -/
theorem tokensOf_eq (h : IsBlamed config place (place.advanceText text) text error) :
    tokensOf config text place = .error error := by
  cases h with
  | unexpected hdeclined => rw [tokensOf, scan, Reader.firstAnswer_eq_declined.mpr hdeclined]
  | @string quote rest hquote hnone =>
    obtain ⟨n, hopen⟩ := (@exists_quotedExtent_eq_unclosed quote rest true
      (isQuote_of_eq hquote)).mpr (by simpa using hnone)
    have hfails : Reader.string config (quote :: rest) = .failed .unterminatedString 0 (n + 1) := by
      rw [Reader.string, if_pos hquote, hopen]
    refine tokensOf_of_scan (Eq.trans ?_ hfails)
    -- No whitespace and no comment begins with a quote, so the readers of those decline.
    rcases hquote with rfl | rfl <;>
      exact Reader.firstAnswer_cons_of_ne (by rw [hfails]; simp) (Reader.all.drop 4)
  | @template rest hnone =>
    obtain ⟨n, hopen⟩ :=
      (@exists_quotedExtent_eq_unclosed '\x60' rest false rfl).mpr (by simpa using hnone)
    have hfails : Reader.templateString config ('\x60' :: rest) =
        .failed .unterminatedTemplate 0 (n + 1) := by
      rw [Reader.templateString, if_pos rfl, hopen]
    refine tokensOf_of_scan (Eq.trans ?_ hfails)
    exact Reader.firstAnswer_cons_of_ne (by rw [hfails]; simp) (Reader.all.drop 5)
  | @bracket bracket rest hnone =>
    have hfails : bracket.reader config (bracket.opening :: rest) =
        .failed (.unbalanced bracket.opening) (rest.length + 1) (rest.length + 1) := by
      rw [bracket.reader_eq_balanced, Reader.balanced, if_pos rfl,
        Bracket.balancedExtent_eq_unclosed.mpr hnone]
    rw [tokensOf_of_scan ((bracket.scan_opening config rest).trans hfails),
      List.take_of_length_le (by simp)]

end IsBlamed

/-- A text that cannot be split begins with tokens, and what follows them is blamed. -/
theorem exists_isScanned_of_tokensOf {position : Position}
    (h : tokensOf config text position = .error error) :
    ∃ tokens after, text = spelling tokens ++ after ∧ IsScanned config after position tokens ∧
      IsBlamed config (position.advanceText (spelling tokens)) (position.advanceText text) after
        error := by
  fun_induction tokensOf config text position with
  | case1 => cases h
  | case2 => cases h
  | case3 position c rest kind n hscan value fault hfault ih =>
    cases h
    obtain ⟨tokens, after, hrest, htokens, hblamed⟩ := ih hfault
    -- The first lexeme stands in front of the tokens behind it and of the text that is blamed.
    have htext : c :: rest = value ++ rest.drop n := by simp [value]
    have hlength : value.length = n + 1 := by
      have hsound := scan_isSound config (c :: rest)
      rw [hscan] at hsound
      exact List.length_take_of_le hsound.1
    let token : Token := ⟨kind, value, position⟩
    have hfound : scan config (token.value ++ (spelling tokens ++ after)) =
        .lexeme token.kind token.value.length := by
      rw [← hrest, ← htext, hscan, hlength]
    refine ⟨token :: tokens, after, ?_, .cons (List.cons_ne_nil _ _) hfound htokens, ?_⟩
    · rw [htext, hrest, spelling_cons, List.append_assoc]
    · rwa [spelling_cons, Position.advanceText_append, htext, Position.advanceText_append]
  | case4 position c rest fault blame stop hscan =>
    cases h
    obtain ⟨reader, hreader, hfailed⟩ := Reader.exists_of_firstAnswer (by simp) hscan
    exact ⟨[], c :: rest, rfl, .nil position, Reader.isBlamed_of_mem_all hreader hfailed⟩
  | case5 position c rest hlexeme hfailed =>
    cases h
    have hdeclined := scan_eq_declined hlexeme hfailed
    exact ⟨[], c :: rest, rfl, .nil position,
      .unexpected (Reader.firstAnswer_eq_declined.mp hdeclined)⟩

/-- A text without tokens splits into a beginning that has tokens and a rest that decides the error,
which is the only one that the rest is blamed for. An unknown character and an open quote are blamed
where the rest begins, an open bracket where the text ends, and nothing is asked for behind the
end. -/
theorem exists_isBlamed_of_tokensOf (h : tokensOf config text origin = .error error) :
    ∃ before after tokens, text = before ++ after ∧ after ≠ [] ∧
      tokensOf config before origin = .ok tokens ∧
      tokensOf config after (origin.advanceText before) = .error error ∧
      (∀ other, IsBlamed config (origin.advanceText before) (origin.advanceText text) after other ↔
        other = error) ∧
      error.fault ≠ .unexpectedEnd := by
  obtain ⟨tokens, after, rfl, htokens, hblamed⟩ := exists_isScanned_of_tokensOf h
  have hafter : after ≠ [] ∧ error.fault ≠ .unexpectedEnd := by
    cases hblamed <;> exact ⟨List.cons_ne_nil _ _, by simp⟩
  refine ⟨spelling tokens, after, tokens, rfl, hafter.1, htokens.tokensOf_spelling, ?_, ?_,
    hafter.2⟩
  · rw [Position.advanceText_append] at hblamed
    exact hblamed.tokensOf_eq
  · refine fun other => ⟨fun hother => ?_, fun heq => heq ▸ hblamed⟩
    rw [Position.advanceText_append] at hblamed hother
    exact Except.error.inj (hother.tokensOf_eq.symm.trans hblamed.tokensOf_eq)

/-- A string goes over an escaped line feed and stops before the next one. -/
theorem exists_isBlamed_of_tokensOf_string :
    let text := "a'\\\nb\n'".toList
    let error : LexError := ⟨.unterminatedString, ⟨2, 4⟩⟩
    tokensOf {} text ⟨2, 3⟩ = .error error ∧
      ∃ before after tokens, text = before ++ after ∧ after ≠ [] ∧
        tokensOf {} before ⟨2, 3⟩ = .ok tokens ∧
        tokensOf {} after (Position.advanceText ⟨2, 3⟩ before) = .error error ∧
        (∀ other, IsBlamed {} (Position.advanceText ⟨2, 3⟩ before)
          (Position.advanceText ⟨2, 3⟩ text) after other ↔ other = error) ∧
        error.fault ≠ .unexpectedEnd := by
  intro text error
  have herror : tokensOf {} text ⟨2, 3⟩ = .error error := by decide +kernel
  exact ⟨herror, exists_isBlamed_of_tokensOf herror⟩

end StyleSyntax
