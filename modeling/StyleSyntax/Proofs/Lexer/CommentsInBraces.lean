import StyleSyntax.Proofs.Lexer.BalancedSpans
import StyleSyntax.Proofs.Lexer.CommentDelimiters
import StyleSyntax.Proofs.Lexer.DeepLexing

/-!
# Comments in braces

A comment that is put between braces should leave them what they are, whatever brackets and quotes
it holds. The search for the closing brace passes over line comments and block comments as the
readers take them, so those are inert. It does not know comments between angle brackets, and what
they hold counts: braces around such a comment are a region just when the comment is balanced.
-/

namespace StyleSyntax

/-- On its own the text is a single token of this kind. -/
def IsSingleToken (kind : TokenKind) (text : Text) : Prop :=
  ∃ position, tokensOf {} text position = .ok [⟨kind, text, position⟩]

/-- On its own the text is a comment of this kind, with its closing if the kind has one. -/
inductive IsClosedComment : TokenKind → Text → Prop where
  | line {text : Text} : IsSingleToken .comment text → IsClosedComment .comment text
  | block {text : Text} : IsSingleToken .multilineComment text → blockCommentClosing <:+ text →
      IsClosedComment .multilineComment text
  | angled {text : Text} : IsSingleToken .cssComment text → Reader.cssCommentClosing <:+ text →
      IsClosedComment .cssComment text

/-- Between braces the text is the interior of a single region, wherever that stands. -/
def FormsRegion (body : Text) : Prop :=
  ∀ position, ∃ token, tokensOf {} ('\x7b' :: body ++ ['\x7d']) position = .ok [token] ∧
    token.kind = .lazyBlock ∧ token.interior = some (body, position.advance '\x7b')

variable {config : LexerConfig} {kind : TokenKind} {text body rest : Text}

/-- The scan finds a single token from the first character of its text to the last. -/
theorem IsSingleToken.scan_eq (h : IsSingleToken kind text) :
    scan {} text = .lexeme kind text.length := by
  obtain ⟨position, htokens⟩ := h
  obtain ⟨rest, -, -, hscan, -⟩ := exists_of_tokensOf_eq_cons htokens
  exact hscan

/-! ## Regions in braces -/

/-- Behind a brace the reader takes everything through the closing brace that the search finds. -/
theorem braces_eq_lexeme_iff {n : Nat} :
    Reader.braces {} ('\x7b' :: rest) = .lexeme kind (n + 1) ↔
      kind = .lazyBlock ∧ balancedExtent '\x7b' '\x7d' 0 rest = .closed n := by
  rw [Reader.braces, Reader.balanced, if_pos rfl]
  cases balancedExtent '\x7b' '\x7d' 0 rest with
  | closed m => simp [eq_comm]
  | unclosed m => simp

/-- Braces are a single region just when what is between them is balanced. -/
theorem formsRegion_iff_isBalanced : FormsRegion body ↔ Bracket.curly.IsBalanced body := by
  constructor
  · intro h
    obtain ⟨token, htokens, -, -⟩ := h .start
    obtain ⟨rest, htext, -, hscan, -, hrest⟩ := exists_of_tokensOf_eq_cons htokens
    rw [eq_nil_of_tokensOf_eq_nil hrest, List.append_nil] at htext
    rw [← htext, List.cons_append, scan_brace, List.length_cons, braces_eq_lexeme_iff] at hscan
    obtain ⟨inner, after, hcloses⟩ :=
      @Bracket.exists_closes_of_balancedExtent .curly _ _ _ hscan.2
    have hlength := Extent.closed.inj (hcloses.balancedExtent_eq.symm.trans hscan.2)
    have hbody : body.length = inner.length := by simpa [eq_comm] using hlength
    obtain ⟨rfl, -⟩ := List.append_inj hcloses.eq hbody
    exact hcloses.isBalanced
  · intro hbalanced position
    have hcloses : Bracket.curly.Closes (body ++ ['\x7d']) body [] := ⟨rfl, hbalanced⟩
    have hscan : scan {} (('\x7b' :: body ++ ['\x7d']) ++ []) =
        .lexeme .lazyBlock ('\x7b' :: body ++ ['\x7d']).length := by
      rw [List.append_nil, List.cons_append, scan_brace, List.length_cons, braces_eq_lexeme_iff,
        List.length_append]
      exact ⟨rfl, hcloses.balancedExtent_eq⟩
    have hnone : tokensOf {} [] (position.advanceText ('\x7b' :: body ++ ['\x7d'])) = .ok [] := by
      rw [tokensOf]
    refine ⟨⟨.lazyBlock, '\x7b' :: body ++ ['\x7d'], position⟩, ?_, rfl, interior_eq_some rfl rfl⟩
    simpa using tokensOf_append (by simp) hscan hnone

/-! ## Comments -/

/-- A character that is no bracket, quote, backslash or slash is balanced in front of what is. -/
theorem Bracket.IsBalanced.cons {bracket : Bracket} {c : Char}
    (hstructural : isStructural c = false) (hslash : c ≠ '/')
    (h : bracket.IsBalanced rest) : bracket.IsBalanced (c :: rest) := by
  have hnone : c ∉ structuralChars := by simpa [isStructural] using hstructural
  have hbrackets : bracket.opening ∈ structuralChars ∧ bracket.closing ∈ structuralChars := by
    cases bracket <;> decide
  have hquote : isQuote c = false := by
    simp only [structuralChars, List.mem_cons, not_or] at hnone
    simp [isQuote, hnone]
  have hitem : bracket.IsItem rest [c] :=
    .char (ne_of_mem_of_not_mem hbrackets.1 hnone).symm
      (ne_of_mem_of_not_mem hbrackets.2 hnone).symm
      (ne_of_mem_of_not_mem (by decide) hnone).symm hquote fun hc => absurd hc hslash
  exact .item hitem h

/-- A line feed is balanced. -/
theorem isBalanced_lineFeed : Bracket.curly.IsBalanced ['\n'] :=
  .cons (by decide) (by decide) .nil

/-- A line comment is balanced in front of the line feed that ends it. -/
theorem isBalanced_of_comment (h : Reader.comment config text = .lexeme .comment text.length) :
    Bracket.curly.IsBalanced (text ++ ['\n']) := by
  unfold Reader.comment at h
  split_ifs at h with hline
  · obtain ⟨body, rfl⟩ := List.isPrefixOf_iff_prefix.mp hline
    have hlength : Text.lengthWhile (· != '\n') (lineCommentOpening ++ body ++ []) =
        (lineCommentOpening ++ body).length := by
      rw [List.append_nil]
      exact (Scan.lexeme.inj h).2
    obtain ⟨hmembers, -⟩ := Text.lengthWhile_append_eq_length.mp hlength
    have hbody : '\n' ∉ body := fun hmem =>
      absurd (hmembers '\n' (List.mem_append_right _ hmem)) (by decide)
    exact .item (.lineComment body hbody rfl) isBalanced_lineFeed
  · cases h

/-- A block comment is balanced when it has its closing. -/
theorem isBalanced_of_multilineComment
    (h : Reader.comment config text = .lexeme .multilineComment text.length)
    (hclosing : blockCommentClosing <:+ text) : Bracket.curly.IsBalanced (text ++ ['\n']) := by
  obtain ⟨hopening, hlength⟩ := Reader.lengthThrough_of_comment h
  have hitem : Bracket.curly.IsItem ['\n'] text :=
    .blockComment text (List.isPrefixOf_iff_prefix.mpr hopening) hclosing.isInfix hlength
  exact .item hitem isBalanced_lineFeed

/-- Braces around a closed comment and a line feed are a single region with them as its interior,
whatever the comment holds, unless it is a comment between angle brackets that is not balanced. -/
theorem formsRegion_comment_iff (h : IsClosedComment kind text) :
    FormsRegion (text ++ ['\n']) ↔
      (kind = .cssComment → Bracket.curly.IsBalanced (text ++ ['\n'])) := by
  rw [formsRegion_iff_isBalanced]
  cases h with
  | line htoken =>
    have hreader := Reader.comment_of_scan (.inl rfl) htoken.scan_eq
    exact iff_of_true (isBalanced_of_comment hreader) (by simp)
  | block htoken hclosing =>
    have hreader := Reader.comment_of_scan (.inr rfl) htoken.scan_eq
    exact iff_of_true (isBalanced_of_multilineComment hreader hclosing) (by simp)
  | angled => exact ⟨fun hbalanced _ => hbalanced, fun hbalanced => hbalanced rfl⟩

/-- A line comment with a closing brace and a quote, and a comment between angle brackets whose
braces are balanced. -/
theorem formsRegion_comment_iff_quote :
    IsClosedComment .comment "//it's \x7d".toList ∧ FormsRegion "//it's \x7d\n".toList ∧
      IsClosedComment .cssComment "<!--\x7b'\x7d'\x7d-->".toList ∧
      FormsRegion "<!--\x7b'\x7d'\x7d-->\n".toList := by
  have hline : IsClosedComment .comment "//it's \x7d".toList :=
    .line ⟨.start, by decide +kernel⟩
  have hangled : IsClosedComment .cssComment "<!--\x7b'\x7d'\x7d-->".toList :=
    .angled ⟨.start, by decide +kernel⟩ (by decide)
  have hinner : Bracket.curly.IsBalanced "'\x7d'".toList :=
    .item (.quoted rfl (.char (by decide) (by decide) .close)) .nil
  have hrest : Bracket.curly.IsBalanced "-->\n".toList :=
    .cons rfl (by decide) (.cons rfl (by decide) (.cons rfl (by decide) isBalanced_lineFeed))
  have hbalanced : Bracket.curly.IsBalanced "<!--\x7b'\x7d'\x7d-->\n".toList :=
    .cons rfl (by decide) (.cons rfl (by decide) (.cons rfl (by decide) (.cons rfl (by decide)
      (.nested hinner hrest))))
  exact ⟨hline, (formsRegion_comment_iff hline).mpr (by simp), hangled,
    (formsRegion_comment_iff hangled).mpr fun _ => hbalanced⟩

/-- An apostrophe in a comment between angle brackets opens a quoted run that is never closed, and a
brace in one opens a region that is never closed. -/
theorem not_formsRegion_apostrophe :
    IsClosedComment .cssComment "<!-- it's -->".toList ∧
      ¬ FormsRegion "<!-- it's -->\n".toList ∧
      tokensOf {} "\x7b<!-- it's -->\n\x7d".toList .start =
        .error ⟨.unbalanced '\x7b', ⟨2, 2⟩⟩ ∧
      IsClosedComment .cssComment "<!-- \x7b -->".toList ∧
      ¬ FormsRegion "<!-- \x7b -->\n".toList := by
  have hquote : tokensOf {} "\x7b<!-- it's -->\n\x7d".toList .start =
      .error ⟨.unbalanced '\x7b', ⟨2, 2⟩⟩ := by decide +kernel
  have hbrace : tokensOf {} "\x7b<!-- \x7b -->\n\x7d".toList .start =
      .error ⟨.unbalanced '\x7b', ⟨2, 2⟩⟩ := by decide +kernel
  refine ⟨.angled ⟨.start, by decide +kernel⟩ (by decide), fun h => ?_, hquote,
    .angled ⟨.start, by decide +kernel⟩ (by decide), fun h => ?_⟩
  · obtain ⟨token, htokens, -⟩ := h .start
    cases hquote.symm.trans htokens
  · obtain ⟨token, htokens, -⟩ := h .start
    cases hbrace.symm.trans htokens

end StyleSyntax
