import StyleSyntax.Proofs.Lexer.CommentDelimiters
import StyleSyntax.Proofs.Lexer.DeepLexing
import StyleSyntax.Proofs.Lexer.JoinedSymbols
import StyleSyntax.Proofs.Lexer.Lexemes
import StyleSyntax.Proofs.Lexer.SpanItems

/-!
# Token classes

What the tokens of each class are, told by their text and by the token behind them: runs are the
longest ones of their class, a line comment ends with its line, strings end with their first quote
that is not escaped, and punctuation never stands where a comment opens. This holds for every
alphabet, also for one that shares characters with other classes, since its reader comes last.
-/

namespace StyleSyntax

/-- The token is well formed for its class, and as long as its class allows in front of the tokens
behind it. -/
structure IsProper (config : LexerConfig) (token : Token) (after : List Token) : Prop where
  /-- Whitespace is a run of characters with codes up to 32, the longest one. -/
  space : token.kind = .space →
    (∀ c ∈ token.value, c.toNat ≤ 32) ∧ ∀ next ∈ after.head?, next.kind ≠ .space
  /-- A literal is a run of literal characters, the longest one. -/
  literal : token.kind = .literal →
    (∀ c ∈ token.value, Reader.isLiteralChar c) ∧
      ∀ next ∈ after.head?, ∀ c ∈ next.value.head?, Reader.isLiteralChar c = false
  /-- A line comment ends before a line feed or with the text. -/
  lineComment : token.kind = .comment →
    lineCommentOpening <+: token.value ∧ '\n' ∉ token.value ∧
      ∀ next ∈ after.head?, next.kind = .space ∧ next.value.head? = some '\n'
  /-- A string ends with the first quote of its sort that is not escaped, on its line. -/
  string : token.kind = .string →
    ∃ quote run, (quote = '\x27' ∨ quote = '\x22') ∧ token.value = quote :: run ∧
      IsQuotedRun quote run ∧ '\n' ∉ unescaped run
  /-- A template string ends with the first backtick that is not escaped. -/
  templateString : token.kind = .templateString →
    ∃ run, token.value = '\x60' :: run ∧ IsQuotedRun '\x60' run
  /-- Punctuation is a single character or a run of them in front of something else, and opens no
  comment. -/
  symbol : token.kind = .symbol →
    (∀ c ∈ token.value, config.isSymbol c) ∧
      (config.joinSymbols = false → token.value.length = 1) ∧
      (config.joinSymbols → ∀ next ∈ after.head?, next.kind ≠ .symbol) ∧
      ∀ opening ∈ [lineCommentOpening, blockCommentOpening, Reader.cssCommentOpening],
        ¬ opening <+: token.value ++ spelling after

variable {config : LexerConfig} {kind : TokenKind} {value rest text : Text} {n : Nat} {c : Char}

namespace Reader

/-- Every token that begins with whitespace is whitespace. -/
theorem kind_eq_space_of_scan (hc : isSpace c) (h : scan config (c :: rest) = .lexeme kind n) :
    kind = .space := by
  have hrun : space config (c :: rest) = .lexeme .space (Text.lengthWhile isSpace rest + 1) := by
    simp [space, ofRun, Text.lengthWhile, hc]
  rw [scan, all, firstAnswer, hrun] at h
  exact (Scan.lexeme.inj h).1.symm

/-- A line comment is a run of characters other than line feeds. -/
theorem lengthWhile_of_comment (h : comment config text = .lexeme .comment n) :
    Text.startsWith text lineCommentOpening ∧ Text.lengthWhile (· != '\n') text = n := by
  unfold comment at h
  split_ifs at h with hopening
  · exact ⟨hopening, (Scan.lexeme.inj h).2⟩
  · cases h

/-- A string is a quote and a quoted run on one line. -/
theorem exists_isQuotedRun_of_string
    (h : string config (c :: value ++ rest) = .lexeme kind (value.length + 1)) :
    (c = '\x27' ∨ c = '\x22') ∧ IsQuotedRun c value ∧ '\n' ∉ unescaped value := by
  rw [List.cons_append, string] at h
  split_ifs at h with hc
  split at h
  · next m hclosed =>
    obtain rfl : m = value.length := Nat.succ.inj (Scan.lexeme.inj h).2
    obtain ⟨hrun, hline⟩ := (quotedExtent_append_eq_closed (isQuote_of_eq hc)).mp hclosed
    exact ⟨hc, hrun, hline rfl⟩
  · cases h

/-- A template string is a backtick and a quoted run. -/
theorem isQuotedRun_of_templateString
    (h : templateString config (c :: value ++ rest) = .lexeme kind (value.length + 1)) :
    c = '\x60' ∧ IsQuotedRun '\x60' value := by
  rw [List.cons_append, templateString] at h
  split_ifs at h with hc
  split at h
  · next m hclosed =>
    obtain rfl : m = value.length := Nat.succ.inj (Scan.lexeme.inj h).2
    subst hc
    exact ⟨rfl, ((quotedExtent_append_eq_closed rfl).mp hclosed).1⟩
  · cases h

/-- A run of punctuation that ends within a text leaves no punctuation in front of what follows. -/
theorem symbolRunLength_append_eq_length
    (h : symbolRunLength config (value ++ rest) = value.length) :
    (∀ d ∈ value, config.isSymbol d) ∧ symbolRunLength config rest = 0 := by
  induction value with
  | nil => exact ⟨by simp, h⟩
  | cons d value ih =>
    rw [List.cons_append, symbolRunLength, List.length_cons] at h
    split_ifs at h with hd
    obtain ⟨hmembers, hends⟩ := ih (Nat.succ.inj h)
    rw [Bool.and_eq_true] at hd
    exact ⟨List.forall_mem_cons.mpr ⟨hd.1, hmembers⟩, hends⟩

/-- Punctuation is a run of members of the alphabet. Where it is joined, no run follows it. -/
theorem isSymbol_of_symbol
    (h : symbol config (c :: value ++ rest) = .lexeme kind (value.length + 1)) :
    (∀ d ∈ c :: value, config.isSymbol d) ∧
      (config.joinSymbols → symbolRunLength config rest = 0) := by
  rw [List.cons_append, symbol] at h
  split_ifs at h with hc hjoin
  · obtain ⟨hmembers, hends⟩ :=
      symbolRunLength_append_eq_length (Nat.succ.inj (Scan.lexeme.inj h).2)
    exact ⟨List.forall_mem_cons.mpr ⟨hc, hmembers⟩, fun _ => hends⟩
  · have hvalue : value = [] := by
      have hlength := (Scan.lexeme.inj h).2
      exact List.eq_nil_of_length_eq_zero (by omega)
    rw [hvalue, List.forall_mem_singleton]
    exact ⟨hc, fun hjoined => absurd hjoined hjoin⟩

/-- A text that begins with punctuation begins with a run of it. -/
theorem symbolRunLength_ne_zero_of_scan (h : scan config text = .lexeme .symbol n) :
    symbolRunLength config text ≠ 0 := by
  have hopens := opensComment_of_scan_eq_symbol h
  have hfound := Finds.symbol.of_scan h
  cases text with
  | nil => cases hfound
  | cons c rest =>
    rw [symbol] at hfound
    rw [symbolRunLength]
    split_ifs at hfound with hc <;> simp [hc, hopens]

end Reader

/-- The token behind another one was scanned where its first character stands. -/
theorem exists_scan_of_next {position : Position} {before after : List Token} {token next : Token}
    (h : tokensOf config text position = .ok (before ++ token :: after))
    (hnext : next ∈ after.head?) :
    ∃ c more, spelling after = c :: more ∧ next.value.head? = some c ∧
      scan config (c :: more) = .lexeme next.kind next.value.length := by
  obtain ⟨later, rfl⟩ := List.head?_eq_some_iff.mp hnext
  rw [← List.singleton_append, ← List.append_assoc] at h
  obtain ⟨hvalue, hscan⟩ := scan_of_tokensOf h
  obtain ⟨c, more, hmore⟩ := List.exists_cons_of_ne_nil hvalue
  exact ⟨c, more ++ spelling later, by rw [spelling_cons, hmore]; rfl, by rw [hmore]; rfl,
    by rwa [hmore] at hscan ⊢⟩

/-- Every token of a text is well formed and as long as its class allows. -/
theorem isProper_of_tokensOf {position : Position} {before after : List Token} {token : Token}
    (h : tokensOf config text position = .ok (before ++ token :: after)) :
    IsProper config token after := by
  obtain ⟨hvalue, hscan⟩ := scan_of_tokensOf h
  obtain ⟨first, more, hmore⟩ := List.exists_cons_of_ne_nil hvalue
  refine ⟨?space, ?literal, ?lineComment, ?string, ?templateString, ?symbol⟩ <;> intro hkind <;>
    rw [hkind] at hscan
  case space =>
    obtain ⟨hmembers, hends⟩ := Reader.longest_of_ofRun (Reader.Finds.space.of_scan hscan)
    refine ⟨fun c hc => of_decide_eq_true (hmembers c hc), fun next hnext hspace => ?_⟩
    obtain ⟨c, later, hlater, -, hfound⟩ := exists_scan_of_next h hnext
    rw [hspace] at hfound
    have hc : Reader.isSpace c := TokenKind.begins_of_scan_of_ne (by simp) hfound
    simp [hends c (by rw [hlater]; rfl)] at hc
  case literal =>
    obtain ⟨hmembers, hends⟩ := Reader.longest_of_ofRun (Reader.Finds.literal.of_scan hscan)
    refine ⟨hmembers, fun next hnext d hd => ?_⟩
    obtain ⟨c, later, hlater, hhead, -⟩ := exists_scan_of_next h hnext
    obtain rfl : c = d := Option.some.inj (hhead.symm.trans hd)
    exact hends c (by rw [hlater]; rfl)
  case lineComment =>
    obtain ⟨hopening, hlength⟩ :=
      Reader.lengthWhile_of_comment (Reader.Finds.lineComment.of_scan hscan)
    obtain ⟨hmembers, hends⟩ := Text.lengthWhile_append_eq_length.mp hlength
    have hstarts := Text.startsWith_of_append hopening
      (hlength ▸ Reader.two_le_of_lineCommentOpening hopening)
    refine ⟨List.isPrefixOf_iff_prefix.mp hstarts, fun hmem => ?_, fun next hnext => ?_⟩
    · simpa using hmembers '\n' hmem
    · obtain ⟨c, later, hlater, hhead, hfound⟩ := exists_scan_of_next h hnext
      obtain rfl : c = '\n' := by simpa using hends c (by rw [hlater]; rfl)
      exact ⟨Reader.kind_eq_space_of_scan (by decide) hfound, hhead⟩
  case string =>
    rw [hmore] at hscan
    obtain ⟨hquote, hrun, hline⟩ :=
      Reader.exists_isQuotedRun_of_string (Reader.Finds.string.of_scan hscan)
    exact ⟨first, more, hquote, hmore, hrun, hline⟩
  case templateString =>
    rw [hmore] at hscan
    obtain ⟨rfl, hrun⟩ :=
      Reader.isQuotedRun_of_templateString (Reader.Finds.templateString.of_scan hscan)
    exact ⟨more, hmore, hrun⟩
  case symbol =>
    have hopens := opensComment_of_scan_eq_symbol hscan
    have hlength (hsingle : config.joinSymbols = false) : token.value.length = 1 :=
      length_eq_one_of_scan hsingle hscan
    rw [hmore] at hscan
    obtain ⟨hmembers, hends⟩ := Reader.isSymbol_of_symbol (Reader.Finds.symbol.of_scan hscan)
    refine ⟨by rwa [hmore], hlength, fun hjoin next hnext hsymbol => ?_, ?_⟩
    · obtain ⟨c, later, hlater, -, hfound⟩ := exists_scan_of_next h hnext
      rw [hsymbol, ← hlater] at hfound
      exact Reader.symbolRunLength_ne_zero_of_scan hfound (hends hjoin)
    · rw [← Bool.not_eq_true, Reader.opensComment_iff, not_or, not_or] at hopens
      simp only [List.forall_mem_cons, ← List.isPrefixOf_iff_prefix]
      exact ⟨hopens.2.1, hopens.2.2, hopens.1, by simp⟩

/-- A run of punctuation in front of a comment, the comment, a line feed and a string. -/
theorem isProper_of_tokensOf_run :
    let config : LexerConfig := { joinSymbols := true }
    let comment : Token := ⟨.comment, "//b".toList, ⟨1, 3⟩⟩
    let after : List Token := [⟨.space, ['\n'], ⟨1, 6⟩⟩, ⟨.string, "'\\''".toList, ⟨2, 1⟩⟩]
    tokensOf config "+*//b\n'\\''".toList .start =
        .ok ([⟨.symbol, "+*".toList, ⟨1, 1⟩⟩] ++ comment :: after) ∧
      IsProper config comment after := by
  intro config comment after
  have htokens : tokensOf config "+*//b\n'\\''".toList .start =
      .ok ([⟨.symbol, "+*".toList, ⟨1, 1⟩⟩] ++ comment :: after) := by decide +kernel
  exact ⟨htokens, isProper_of_tokensOf htokens⟩

end StyleSyntax
