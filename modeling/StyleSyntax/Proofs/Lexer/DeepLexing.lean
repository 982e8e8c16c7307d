import StyleSyntax.Lexer.Cursor
import StyleSyntax.Proofs.Lexer.Passing

/-!
# Scanning a bracketed text agrees with splitting it

The end of a bracketed text is found by counting brackets of its own sort, long before the interior
is split into tokens by all the readers. The two agree when the interior splits into tokens at all
depths: the search passes over every token, be it a comment, a quoted run or a bracketed text of
another sort, and so comes to the closing bracket.
-/

namespace StyleSyntax

/-- The text splits into tokens, and so do the interiors of its bracketed tokens at all depths.
There is no comment between angle brackets and no structural character of the alphabet in it, and
what follows the text does not run into a comment at its end. -/
inductive IsDeeplyLexable (config : LexerConfig) : Text → Prop
  | intro {text : Text} (origin : Position) (tokens : List Token)
      (htokens : tokensOf config text origin = .ok tokens)
      (hcomment : ∀ token ∈ tokens, token.kind ≠ .cssComment)
      (hsymbol : ∀ token ∈ tokens, token.kind = .symbol → ∀ c ∈ token.value,
        isStructural c = false)
      (hlast : ∀ last ∈ tokens.getLast?, last.kind ≠ .comment ∧
        (last.kind = .multilineComment → blockCommentClosing <:+ last.value))
      (hinterior : ∀ token ∈ tokens, ∀ body ∈ token.interior, IsDeeplyLexable config body.1) :
      IsDeeplyLexable config text

variable {config : LexerConfig} {kind : TokenKind} {value rest next : Text}

/-- A slash opens a comment only together with the next character. -/
theorem opensComment_slash_append (h : Reader.opensComment ('/' :: rest) = false)
    (hnext : Reader.opensComment ('/' :: next) = false) :
    Reader.opensComment ('/' :: (rest ++ next)) = false := by
  cases rest with
  | nil => exact hnext
  | cons c rest =>
    simpa [Reader.opensComment, Text.startsWith, lineCommentOpening, blockCommentOpening,
      Reader.cssCommentOpening, List.isPrefixOf] using h

/-- A comment does not open where punctuation is found. -/
theorem opensComment_of_scan_eq_symbol {text : Text} {n : Nat}
    (h : scan config text = .lexeme .symbol n) : Reader.opensComment text = false := by
  by_contra hopens
  rw [Bool.not_eq_false] at hopens
  obtain ⟨kind, m, hcomment, hkind, -⟩ := @Reader.exists_scan_of_opensComment config _ hopens
  rw [h] at hcomment
  exact hkind (Scan.lexeme.inj hcomment).1.symm

/-- Punctuation is passed over when it has no structural characters. -/
theorem passesOver_of_symbolRunLength
    (hrun : value.length ≤ Reader.symbolRunLength config (value ++ rest))
    (hvalue : ∀ c ∈ value, isStructural c = false)
    (hnext : Reader.opensComment ('/' :: next) = false) : PassesOver value (rest ++ next) := by
  induction value with
  | nil => exact .nil _
  | cons c value ih =>
    rw [List.forall_mem_cons] at hvalue
    rw [List.cons_append, Reader.symbolRunLength, List.length_cons] at hrun
    split_ifs at hrun with hc
    · rw [Bool.and_eq_true, Bool.not_eq_true'] at hc
      have hfirst : PassesOver [c] (value ++ (rest ++ next)) := by
        apply PassesOver.char hvalue.1
        rintro rfl
        rw [← List.append_assoc]
        exact opensComment_slash_append hc.2 hnext
      exact hfirst.append (ih (Nat.le_of_succ_le_succ hrun) hvalue.2)
    · omega

/-- A comment that ends within the text is passed over. -/
theorem passesOver_of_comment
    (h : Reader.comment config (value ++ rest) = .lexeme kind value.length)
    (hrest : rest = [] →
      kind ≠ .comment ∧ (kind = .multilineComment → blockCommentClosing <:+ value)) :
    PassesOver value (rest ++ next) := by
  unfold Reader.comment at h
  split_ifs at h with hline hblock
  · obtain ⟨rfl, hlength⟩ := Scan.lexeme.inj h
    have hopening := Text.startsWith_of_append hline
      (hlength ▸ Reader.two_le_of_lineCommentOpening hline)
    have hlt : Text.lengthWhile (· != '\n') (value ++ rest) < (value ++ rest).length := by
      have hne : rest ≠ [] := fun hnil => (hrest hnil).1 rfl
      have hpos := List.length_pos_of_ne_nil hne
      rw [hlength, List.length_append]
      omega
    apply PassesOver.lineComment hopening
    rw [← List.append_assoc, Text.lengthWhile_append_of_lt hlt, hlength]
  · obtain ⟨rfl, hlength⟩ := Scan.lexeme.inj h
    have hopening := Text.startsWith_of_append hblock
      (hlength ▸ Reader.two_le_of_blockCommentOpening hblock)
    -- A comment whose end is not found takes all, and then it is the last one and has an end.
    have hclosing : blockCommentClosing <:+: value ++ rest := by
      by_contra hopen
      have hall := Text.lengthThrough_eq_length hopen
      rw [hlength, List.length_append, Nat.left_eq_add, List.length_eq_zero_iff] at hall
      rw [hall, List.append_nil] at hopen
      exact hopen ((hrest hall).2 rfl).isInfix
    apply PassesOver.blockComment hopening
    rw [← List.append_assoc, Text.lengthThrough_append_of_isInfix hclosing, hlength]

/-- A quoted run that a reader finds is passed over. -/
theorem passesOver_of_quotedExtent {c : Char} {kind' : TokenKind} {oneLine : Bool}
    {open' : Nat → Scan} (hc : isQuote c) (hopen : ∀ n, open' n ≠ .lexeme kind (value.length + 1))
    (h : (match quotedExtent c oneLine (value ++ rest) with
      | .closed n => Scan.lexeme kind' (n + 1)
      | .unclosed n => open' n) = .lexeme kind (value.length + 1)) :
    PassesOver (c :: value) (rest ++ next) := by
  split at h
  · next n hclosed =>
    have hlength : n = value.length := Nat.succ.inj (Scan.lexeme.inj h).2
    rw [hlength] at hclosed
    exact .quoted hc hclosed
  · next n _ => exact absurd h (hopen n)

variable {c : Char}

/-- A quoted text on one line is passed over. -/
theorem passesOver_of_string
    (h : Reader.string config (c :: value ++ rest) = .lexeme kind (value.length + 1)) :
    PassesOver (c :: value) (rest ++ next) := by
  rw [List.cons_append, Reader.string] at h
  split_ifs at h with hquote
  apply passesOver_of_quotedExtent _ (by simp) h
  rcases hquote with rfl | rfl <;> rfl

/-- A template text is passed over. -/
theorem passesOver_of_templateString
    (h : Reader.templateString config (c :: value ++ rest) = .lexeme kind (value.length + 1)) :
    PassesOver (c :: value) (rest ++ next) := by
  rw [List.cons_append, Reader.templateString] at h
  split_ifs at h with hquote
  apply passesOver_of_quotedExtent _ (by simp) h
  rw [hquote]
  rfl

/-- A bracketed text is passed over when its interior is. -/
theorem passesOver_of_bracket (config : LexerConfig) (bracket : Bracket)
    (h : bracket.reader config (c :: value ++ rest) = .lexeme kind (value.length + 1))
    (hinterior : ∀ body, kind.isBracketed →
      c :: value = bracket.opening :: body ++ [bracket.closing] →
        ∀ next, Reader.opensComment ('/' :: next) = false → PassesOver body next) :
    PassesOver (c :: value) (rest ++ next) := by
  rw [bracket.reader_eq_balanced] at h
  obtain ⟨hkind, _, body, hbody⟩ := Reader.balanced_eq_lexeme _ h
  rw [List.cons_append, List.take_succ_cons, List.take_left] at hbody
  have hpasses := hinterior body (hkind ▸ bracket.isBracketed_kind config) hbody
  rw [hbody]
  apply PassesOver.bracketed
  apply hpasses
  cases bracket <;> rfl

/-- A run of characters is passed over when no structural character belongs to such runs. -/
theorem passesOver_of_ofRun {kind' : TokenKind} {isMember : Char → Bool}
    (hmember : ('/' :: structuralChars).all (!isMember ·))
    (h : Reader.ofRun kind' (Text.lengthWhile isMember (c :: value ++ rest)) =
      .lexeme kind (value.length + 1)) : PassesOver (c :: value) (rest ++ next) :=
  .of_forall fun d hd => isStructural_eq_false hmember ((Reader.longest_of_ofRun h).1 d hd)

/-- A comma is passed over. -/
theorem passesOver_of_comma
    (h : Reader.comma config (c :: value ++ rest) = .lexeme kind (value.length + 1)) :
    PassesOver (c :: value) (rest ++ next) := by
  rw [Reader.comma, List.cons_append, List.head?_cons] at h
  split_ifs at h with hcomma
  have hvalue : value = [] := by
    have hlength := (Scan.lexeme.inj h).2
    exact List.eq_nil_of_length_eq_zero (by omega)
  rw [hvalue, Option.some.inj hcomma]
  exact .char (by decide) fun h => absurd h (by decide)

/-- A token of punctuation is passed over when it has no structural characters. -/
theorem passesOver_of_symbol
    (hscan : scan config (c :: value ++ rest) = .lexeme .symbol (value.length + 1))
    (hvalue : ∀ d ∈ c :: value, isStructural d = false)
    (hnext : Reader.opensComment ('/' :: next) = false) :
    PassesOver (c :: value) (rest ++ next) := by
  rw [List.forall_mem_cons] at hvalue
  have hfirst : PassesOver [c] (value ++ (rest ++ next)) := by
    apply PassesOver.char hvalue.1
    rintro rfl
    rw [← List.append_assoc]
    exact opensComment_slash_append (opensComment_of_scan_eq_symbol hscan) hnext
  have hmore := passesOver_of_symbolRunLength (le_symbolRunLength_of_scan hscan) hvalue.2 hnext
  exact hfirst.append hmore

/-- A token is passed over when it is what the scan finds, is no comment between angle brackets
and has no structural characters of the alphabet, when what follows the text does not run into it,
and when its interior is passed over if it has one. -/
theorem passesOver_of_scan
    (hscan : scan config (c :: value ++ rest) = .lexeme kind (value.length + 1))
    (hcomment : kind ≠ .cssComment)
    (hsymbol : kind = .symbol → ∀ d ∈ c :: value, isStructural d = false)
    (hrest : rest = [] →
      kind ≠ .comment ∧ (kind = .multilineComment → blockCommentClosing <:+ c :: value))
    (hinterior : ∀ (bracket : Bracket) body, kind.isBracketed →
      c :: value = bracket.opening :: body ++ [bracket.closing] →
        ∀ next, Reader.opensComment ('/' :: next) = false → PassesOver body next)
    (hnext : Reader.opensComment ('/' :: next) = false) :
    PassesOver (c :: value) (rest ++ next) := by
  obtain ⟨reader, hreader, hfound⟩ := Reader.exists_of_firstAnswer (by simp) hscan
  cases hreader using Reader.mem_all_cases with
  | space | literal => exact passesOver_of_ofRun (by decide) hfound
  | cssComment =>
    unfold Reader.cssComment at hfound
    split_ifs at hfound
    exact absurd (Scan.lexeme.inj hfound).1.symm hcomment
  | comment => exact passesOver_of_comment hfound hrest
  | string => exact passesOver_of_string hfound
  | templateString => exact passesOver_of_templateString hfound
  | roundBrackets => exact passesOver_of_bracket config .round hfound (hinterior .round)
  | squareBrackets => exact passesOver_of_bracket config .square hfound (hinterior .square)
  | braces => exact passesOver_of_bracket config .curly hfound (hinterior .curly)
  | comma => exact passesOver_of_comma hfound
  | symbol =>
    have hkind : kind = .symbol := by
      rw [List.cons_append, Reader.symbol] at hfound
      split_ifs at hfound <;> exact (Scan.lexeme.inj hfound).1.symm
    subst hkind
    exact passesOver_of_symbol hscan (hsymbol rfl) hnext

/-- What is between the brackets of a bracketed token is its interior. -/
theorem interior_eq_some {token : Token} {opening closing : Char} {body : Text}
    (hkind : token.kind.isBracketed) (hvalue : token.value = opening :: body ++ [closing]) :
    token.interior = some (body, token.position.advance opening) := by
  rw [Token.interior, if_pos hkind, hvalue]
  cases body with
  | nil => rfl
  | cons c rest =>
    change some ((c :: (rest ++ [closing])).dropLast, _) = _
    rw [← List.cons_append, List.dropLast_concat]

/-- A text whose tokens have interiors that are passed over is passed over itself. -/
theorem passesOver_of_tokensOf {text : Text} {origin : Position} {tokens : List Token}
    (htokens : tokensOf config text origin = .ok tokens)
    (hcomment : ∀ token ∈ tokens, token.kind ≠ .cssComment)
    (hsymbol : ∀ token ∈ tokens, token.kind = .symbol → ∀ c ∈ token.value, isStructural c = false)
    (hlast : ∀ last ∈ tokens.getLast?, last.kind ≠ .comment ∧
      (last.kind = .multilineComment → blockCommentClosing <:+ last.value))
    (hinterior : ∀ token ∈ tokens, ∀ body ∈ token.interior, ∀ next,
      Reader.opensComment ('/' :: next) = false → PassesOver body.1 next)
    (hnext : Reader.opensComment ('/' :: next) = false) : PassesOver text next := by
  induction tokens generalizing text origin with
  | nil =>
    rw [eq_nil_of_tokensOf_eq_nil htokens]
    exact .nil next
  | cons token tokens ih =>
    obtain ⟨rest, rfl, hvalue, hscan, _, hrest⟩ := exists_of_tokensOf_eq_cons htokens
    rw [List.forall_mem_cons] at hcomment hsymbol hinterior
    obtain ⟨kind, value, position⟩ := token
    obtain ⟨c, value, rfl⟩ := List.exists_cons_of_ne_nil hvalue
    have hfirst : PassesOver (c :: value) (rest ++ next) := by
      apply passesOver_of_scan hscan hcomment.1 hsymbol.1 _ _ hnext
      · rintro rfl
        have hnil : tokens = [] := by simpa [tokensOf] using hrest.symm
        subst hnil
        exact hlast _ rfl
      · intro bracket body hkind hbody
        exact hinterior.1 (body, _) (interior_eq_some hkind hbody)
    apply hfirst.append
    apply ih hrest hcomment.2 hsymbol.2 _ hinterior.2
    intro last hmem
    apply hlast
    rw [List.getLast?_cons, hmem]
    rfl

/-- The search for a closing bracket passes over a deeply lexable text. -/
theorem IsDeeplyLexable.passesOver {text : Text} (h : IsDeeplyLexable config text)
    (hnext : Reader.opensComment ('/' :: next) = false) : PassesOver text next := by
  induction h generalizing next with
  | intro _ _ htokens hcomment hsymbol hlast _ ih =>
    exact passesOver_of_tokensOf htokens hcomment hsymbol hlast
      (fun token htoken body hbody next => ih token htoken body hbody) hnext

/-- The reader of brackets of any sort finds the brackets and a deeply lexable text between them,
whatever follows and wherever the text is, and the interior of the token is the text between. -/
theorem read_of_isDeeplyLexable {body : Text} (h : IsDeeplyLexable config body)
    (bracket : Bracket) (rest : Text) (origin : Position) :
    ∃ token, ((Cursor.ofText (bracket.opening :: body ++ bracket.closing :: rest) origin).read
        bracket.reader config).1 = .ok (some token) ∧
      token.value = bracket.opening :: body ++ [bracket.closing] ∧
      token.interior = some (body, origin.advance bracket.opening) := by
  have hnext : Reader.opensComment ('/' :: bracket.closing :: rest) = false := by
    cases bracket <;> rfl
  have hreader := Bracket.reader_of_passesOver (h.passesOver hnext) config
  have htake : (bracket.opening :: body ++ bracket.closing :: rest).take (body.length + 2) =
      bracket.opening :: body ++ [bracket.closing] := by
    simp [List.take_append, List.take_of_length_le]
  refine ⟨⟨bracket.kind config, bracket.opening :: body ++ [bracket.closing], origin⟩, ?_, rfl,
    interior_eq_some (bracket.isBracketed_kind config) rfl⟩
  rw [Cursor.read, Cursor.ofText, hreader]
  simp only [Cursor.take, htake]

/-- A string and a comment with brackets of their own, and a text in square brackets. -/
theorem read_of_isDeeplyLexable_string :
    IsDeeplyLexable {} "'\x7d'/*\x7b*/[b]".toList ∧
      ∃ token, ((Cursor.ofText "\x7b'\x7d'/*\x7b*/[b]\x7d)".toList ⟨2, 5⟩).read
          Bracket.curly.reader {}).1 = .ok (some token) ∧
        token.interior = some ("'\x7d'/*\x7b*/[b]".toList, ⟨2, 6⟩) := by
  have hinner : IsDeeplyLexable {} ['b'] := by
    apply IsDeeplyLexable.intro .start [⟨.literal, ['b'], .start⟩]
    · decide +kernel
    · decide
    · decide
    · decide
    · simp [Token.interior, TokenKind.isBracketed]
  have hbody : IsDeeplyLexable {} "'\x7d'/*\x7b*/[b]".toList := by
    apply IsDeeplyLexable.intro .start [⟨.string, "'\x7d'".toList, ⟨1, 1⟩⟩,
      ⟨.multilineComment, "/*\x7b*/".toList, ⟨1, 4⟩⟩, ⟨.squareBrackets, "[b]".toList, ⟨1, 9⟩⟩]
    · decide +kernel
    · decide
    · decide
    · decide
    · simpa [Token.interior, TokenKind.isBracketed] using hinner
  obtain ⟨token, hread, _, hinterior⟩ := read_of_isDeeplyLexable hbody .curly [')'] ⟨2, 5⟩
  exact ⟨hbody, token, hread, hinterior⟩

end StyleSyntax
