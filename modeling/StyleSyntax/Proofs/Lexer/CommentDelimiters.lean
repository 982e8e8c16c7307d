import StyleSyntax.Proofs.Lexer.Passing

/-!
# Delimiters of comments

A comment with two delimiters is its opening, a body in which the closing does not occur, and the
closing; without its closing it is the last token. The readers look for the closing from the first
character of the opening on, so the closing that they find may share characters with the opening.
That happens for three texts only, and those are the comments that are too short for both
delimiters.
-/

namespace StyleSyntax

/-- The text is a comment in front of the given tokens: its delimiters stand apart around a body
without the closing, or there is no closing behind the opening and nothing follows. -/
inductive IsDelimited (opening closing : Text) (after : List Token) : Text → Prop where
  | closed {body : Text} : ¬ closing <:+: body →
      IsDelimited opening closing after (opening ++ body ++ closing)
  | unclosed {body : Text} : after = [] → ¬ closing <:+: body →
      IsDelimited opening closing after (opening ++ body)

variable {config : LexerConfig} {opening closing value rest text : Text} {before after : List Token}
  {token : Token}

/-- A delimiter that occurs in a text is found where it occurs first. -/
theorem Text.exists_first_of_isInfix {delimiter : Text} (hdelimiter : delimiter ≠ [])
    (h : delimiter <:+: text) :
    ∃ front back, text = front ++ delimiter ++ back ∧ ¬ delimiter <:+: front ∧
      lengthThrough delimiter text = front.length + delimiter.length := by
  obtain ⟨front, back, htext, hlength, hfirst⟩ := exists_first_occurrence h
  refine ⟨front, back, by rw [htext, List.append_assoc], ?_, by rw [hlength, List.length_append]⟩
  -- An occurrence in front of the first one would have to be empty.
  rintro ⟨earlier, between, rfl⟩
  have hless := hfirst earlier (between ++ (delimiter ++ back)) (by simp [htext])
  rw [List.length_append, List.length_append] at hless
  exact hdelimiter (List.length_eq_zero_iff.mp (by omega))

/-! ## Delimiters that share characters -/

/-- A comment that is too short for both of its delimiters is the last token. -/
theorem IsDelimited.eq_nil_of_length_lt (h : IsDelimited opening closing after value)
    (hlength : value.length < opening.length + closing.length) : after = [] := by
  cases h with
  | closed =>
    simp only [List.length_append] at hlength
    omega
  | unclosed hafter => exact hafter

/-- What reaches from an opening through the first closing is a comment, or the closing begins
before the opening ends. -/
theorem isDelimited_or_of_lengthThrough (hclosing : closing ≠ [])
    (hopening : opening <+: value ++ rest)
    (hlength : Text.lengthThrough closing (value ++ rest) = value.length)
    (hrest : rest = [] → after = []) :
    IsDelimited opening closing after value ∨
      ∃ front, front.length < opening.length ∧ value = front ++ closing := by
  by_cases hinfix : closing <:+: value ++ rest
  · obtain ⟨front, back, htext, hfront, hfound⟩ := Text.exists_first_of_isInfix hclosing hinfix
    have hvalue : value = front ++ closing := by
      refine (List.append_inj htext ?_).1
      rw [← hlength, hfound, List.length_append]
    rcases Nat.lt_or_ge front.length opening.length with hshort | hlong
    · exact .inr ⟨front, hshort, hvalue⟩
    · -- The opening lies within what is before the closing, and the body is between them.
      have hwithin : opening <+: front := by
        apply List.prefix_of_prefix_length_le hopening _ hlong
        rw [htext, List.append_assoc]
        exact List.prefix_append _ _
      obtain ⟨body, rfl⟩ := hwithin
      subst hvalue
      exact .inl (.closed fun hbody => hfront (hbody.trans (List.suffix_append _ _).isInfix))
  · rw [Text.lengthThrough_eq_length hinfix, List.length_append, Nat.add_eq_left,
      List.length_eq_zero_iff] at hlength
    subst hlength
    rw [List.append_nil] at hopening hinfix
    obtain ⟨body, rfl⟩ := hopening
    exact .inl (.unclosed (hrest rfl) fun hbody =>
      hinfix (hbody.trans (List.suffix_append _ _).isInfix))

/-- When the closing begins before the opening ends in some texts only, what reaches from an opening
through the first closing is a comment unless it is one of those texts and more tokens follow. -/
theorem isDelimited_iff_of_overlaps {overlaps : List Text} (hclosing : closing ≠ [])
    (hopening : opening <+: value ++ rest)
    (hlength : Text.lengthThrough closing (value ++ rest) = value.length)
    (hrest : rest = [] → after = [])
    (hmem : ∀ front, front.length < opening.length → opening <+: front ++ closing ++ rest →
      front ++ closing ∈ overlaps)
    (hoverlaps : ∀ overlap ∈ overlaps, overlap.length < opening.length + closing.length ∧
      ∃ body, overlap = opening ++ body ∧ ¬ closing <:+: body) :
    IsDelimited opening closing after value ↔ (value ∈ overlaps → after = []) := by
  constructor
  · intro hdelimited hvalue
    exact hdelimited.eq_nil_of_length_lt (hoverlaps value hvalue).1
  · intro hafter
    obtain hdelimited | ⟨front, hshort, rfl⟩ :=
      isDelimited_or_of_lengthThrough hclosing hopening hlength hrest
    · exact hdelimited
    · have hvalue := hmem front hshort hopening
      obtain ⟨-, body, hbody, hnot⟩ := hoverlaps _ hvalue
      rw [hbody]
      exact .unclosed (hafter hvalue) hnot

/-- A closing that begins before the opening of a block comment ends shares its star. -/
theorem eq_of_blockComment_overlap {front : Text}
    (hopening : blockCommentOpening <+: front ++ blockCommentClosing ++ rest)
    (hshort : front.length < blockCommentOpening.length) :
    front ++ blockCommentClosing = "/*/".toList := by
  match front with
  | [] => simp [blockCommentOpening, blockCommentClosing] at hopening
  | [c] =>
    obtain rfl : '/' = c := by simpa [blockCommentOpening, blockCommentClosing] using hopening
    rfl
  | _ :: _ :: front =>
    simp only [blockCommentOpening, List.length_cons, List.length_nil] at hshort
    omega

/-- A closing that begins before the opening of a comment between angle brackets ends shares one
or two of its dashes. -/
theorem mem_of_cssComment_overlap {front : Text}
    (hopening : Reader.cssCommentOpening <+: front ++ Reader.cssCommentClosing ++ rest)
    (hshort : front.length < Reader.cssCommentOpening.length) :
    front ++ Reader.cssCommentClosing ∈ ["<!-->".toList, "<!--->".toList] := by
  match front with
  | [] => simp [Reader.cssCommentOpening, Reader.cssCommentClosing] at hopening
  | [c] => simp [Reader.cssCommentOpening, Reader.cssCommentClosing] at hopening
  | [c, d] =>
    obtain ⟨rfl, rfl⟩ : '<' = c ∧ '!' = d := by
      simpa [Reader.cssCommentOpening, Reader.cssCommentClosing] using hopening
    decide
  | [c, d, e] =>
    obtain ⟨rfl, rfl, rfl⟩ : '<' = c ∧ '!' = d ∧ '-' = e := by
      simpa [Reader.cssCommentOpening, Reader.cssCommentClosing] using hopening
    decide
  | _ :: _ :: _ :: _ :: front =>
    simp only [Reader.cssCommentOpening, List.length_cons, List.length_nil] at hshort
    omega

/-! ## Comments among the tokens -/

namespace Reader

variable {kind : TokenKind} {n : Nat}

/-- A comment between angle brackets is found by its reader. -/
theorem cssComment_of_scan (h : scan config text = .lexeme .cssComment n) :
    cssComment config text = .lexeme .cssComment n :=
  Finds.cssComment.of_scan h

/-- A comment between slashes is found by its reader. -/
theorem comment_of_scan (hkind : kind = .comment ∨ kind = .multilineComment)
    (h : scan config text = .lexeme kind n) : comment config text = .lexeme kind n := by
  rcases hkind with rfl | rfl
  · exact Finds.lineComment.of_scan h
  · exact Finds.blockComment.of_scan h

/-- A comment between angle brackets reaches from its opening through the first closing. -/
theorem lengthThrough_of_cssComment (h : cssComment config text = .lexeme .cssComment n) :
    cssCommentOpening <+: text ∧ Text.lengthThrough cssCommentClosing text = n := by
  unfold cssComment at h
  split_ifs at h with hopening
  exact ⟨List.isPrefixOf_iff_prefix.mp hopening, (Scan.lexeme.inj h).2⟩

/-- A block comment reaches from its opening through the first closing. -/
theorem lengthThrough_of_comment (h : comment config text = .lexeme .multilineComment n) :
    blockCommentOpening <+: text ∧ Text.lengthThrough blockCommentClosing text = n := by
  unfold comment at h
  split_ifs at h with hline hopening
  · cases h
  · exact ⟨List.isPrefixOf_iff_prefix.mp hopening, (Scan.lexeme.inj h).2⟩

end Reader

/-- A block comment is delimited, and so is a comment between angle brackets, unless its closing
shares characters with its opening and it is not the last token. -/
theorem isDelimited_iff_of_tokensOf {position : Position}
    (h : tokensOf config text position = .ok (before ++ token :: after)) :
    (token.kind = .multilineComment →
      (IsDelimited blockCommentOpening blockCommentClosing after token.value ↔
        (token.value = "/*/".toList → after = []))) ∧
    (token.kind = .cssComment →
      (IsDelimited Reader.cssCommentOpening Reader.cssCommentClosing after token.value ↔
        (token.value ∈ ["<!-->".toList, "<!--->".toList] → after = []))) := by
  obtain ⟨later, origin, hlater⟩ := exists_tokensOf_of_append h
  obtain ⟨rest, rfl, -, hscan, -, hrest⟩ := exists_of_tokensOf_eq_cons hlater
  have hlast : rest = [] → after = [] := by
    rintro rfl
    simpa [tokensOf, eq_comm] using hrest
  constructor <;> intro hkind <;> rw [hkind] at hscan
  · obtain ⟨hopening, hlength⟩ :=
      Reader.lengthThrough_of_comment (Reader.comment_of_scan (.inr rfl) hscan)
    have hoverlaps : ∀ overlap ∈ ["/*/".toList], overlap.length < 2 + 2 ∧
        ∃ body, overlap = blockCommentOpening ++ body ∧ ¬ blockCommentClosing <:+: body := by
      rw [List.forall_mem_singleton]
      exact ⟨by decide, ['/'], rfl, by decide⟩
    rw [← List.mem_singleton]
    exact isDelimited_iff_of_overlaps (by decide) hopening hlength hlast
      (fun front hshort hfront => List.mem_singleton.mpr (eq_of_blockComment_overlap hfront hshort))
      hoverlaps
  · obtain ⟨hopening, hlength⟩ :=
      Reader.lengthThrough_of_cssComment (Reader.cssComment_of_scan hscan)
    have hoverlaps : ∀ overlap ∈ ["<!-->".toList, "<!--->".toList], overlap.length < 4 + 3 ∧
        ∃ body, overlap = Reader.cssCommentOpening ++ body ∧
          ¬ Reader.cssCommentClosing <:+: body := by
      rw [List.forall_mem_cons, List.forall_mem_singleton]
      exact ⟨⟨by decide, ['>'], rfl, by decide⟩, by decide, ['-', '>'], rfl, by decide⟩
    exact isDelimited_iff_of_overlaps (by decide) hopening hlength hlast
      (fun front hshort hfront => mem_of_cssComment_overlap hfront hshort) hoverlaps

/-- Closed comments whose bodies are empty, and a comment that is not closed. -/
theorem isDelimited_iff_of_tokensOf_empty :
    let before : List Token :=
      [⟨.symbol, ['+'], ⟨3, 1⟩⟩, ⟨.multilineComment, "/**/".toList, ⟨3, 2⟩⟩]
    let after : List Token := [⟨.multilineComment, "/*/".toList, ⟨3, 13⟩⟩]
    let token : Token := ⟨.cssComment, "<!---->".toList, ⟨3, 6⟩⟩
    tokensOf { joinSymbols := true } "+/**/<!---->/*/".toList ⟨3, 1⟩ =
        .ok (before ++ token :: after) ∧
      IsDelimited Reader.cssCommentOpening Reader.cssCommentClosing after token.value := by
  intro before after token
  have htokens : tokensOf { joinSymbols := true } "+/**/<!---->/*/".toList ⟨3, 1⟩ =
      .ok (before ++ token :: after) := by decide +kernel
  exact ⟨htokens, ((isDelimited_iff_of_tokensOf htokens).2 rfl).mpr fun h => absurd h (by decide)⟩

/-- A slash right behind the opening of a block comment closes it, and so does an angle bracket
behind the opening of the other comments, although more of the text follows. -/
theorem not_isDelimited_overlaps :
    let block : List Token := [⟨.symbol, ['*'], ⟨1, 4⟩⟩, ⟨.symbol, ['/'], ⟨1, 5⟩⟩]
    let css : List Token := [⟨.symbol, ['-'], ⟨1, 6⟩⟩, ⟨.symbol, ['-'], ⟨1, 7⟩⟩,
      ⟨.symbol, ['>'], ⟨1, 8⟩⟩]
    tokensOf {} "/*/*/".toList .start =
        .ok (⟨.multilineComment, "/*/".toList, ⟨1, 1⟩⟩ :: block) ∧
      ¬ IsDelimited blockCommentOpening blockCommentClosing block "/*/".toList ∧
      tokensOf {} "<!-->-->".toList .start =
        .ok (⟨.cssComment, "<!-->".toList, ⟨1, 1⟩⟩ :: css) ∧
      ¬ IsDelimited Reader.cssCommentOpening Reader.cssCommentClosing css "<!-->".toList := by
  refine ⟨by decide +kernel, fun h => ?_, by decide +kernel, fun h => ?_⟩
  · exact absurd (h.eq_nil_of_length_lt (by decide)) (List.cons_ne_nil _ _)
  · exact absurd (h.eq_nil_of_length_lt (by decide)) (List.cons_ne_nil _ _)

end StyleSyntax
