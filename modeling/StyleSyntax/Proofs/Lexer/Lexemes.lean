import Mathlib.Data.Bool.AllAny
import StyleSyntax.Proofs.Lexer.Passing

/-!
# Texts made of lexemes

Under the default settings a word, a sign, a comma, a run of whitespace, a closed block comment and
a closed brace region are one token each, as soon as what follows does not run into them. A text
that is put together from such pieces is therefore split into tokens, and the search for a closing
bracket passes over it.
-/

namespace StyleSyntax

/-- Under the default settings the text is split into these tokens, at some place. -/
def Lexes (text : Text) (tokens : List Token) : Prop :=
  ∃ position, tokensOf {} text position = .ok tokens

/-- Under the default settings the text can be split into tokens. -/
def IsLexable (text : Text) : Prop :=
  ∃ tokens, Lexes text tokens

/-- In front of `rest`, the scan finds the text as a token of this kind. -/
structure IsLexeme (kind : TokenKind) (value rest : Text) : Prop where
  ne_nil : value ≠ []
  scan_eq : scan {} (value ++ rest) = .lexeme kind value.length

/-- A token of this kind may begin with this character under the default settings. -/
def TokenKind.begins : TokenKind → Char → Bool
  | space, c => Reader.isSpace c
  | comment, c | multilineComment, c => c == '/'
  | cssComment, c => c == '<'
  | literal, c => Reader.isLiteralChar c
  | string, c => c == '\x27' || c == '\x22'
  | templateString, c => c == '\x60'
  | symbol, c => ({} : LexerConfig).isSymbol c
  | comma, c => c == ','
  | roundBrackets, c => c == '('
  | squareBrackets, c => c == '['
  | lazyBlock, c | block, c => c == '\x7b'

/-- A character that begins no whitespace and no comment. -/
def isSolid (c : Char) : Bool :=
  !Reader.isSpace c && c != '/' && c != '<'

variable {kind : TokenKind} {text value rest : Text} {tokens : List Token} {c : Char}

/-- No literal character is whitespace. -/
theorem Reader.isSpace_of_isLiteralChar (h : isLiteralChar c) : isSpace c = false := by
  have hcodes : ∀ n < 33, isLiteralChar (Char.ofNat n) = false := by decide
  by_contra hspace
  have hcode : c.toNat < 33 := by
    rw [Bool.not_eq_false, isSpace, decide_eq_true_eq] at hspace
    omega
  have hnot := hcodes c.toNat hcode
  rw [Char.ofNat_toNat, h] at hnot
  cases hnot

/-- A literal character is none of the characters that other readers look for. -/
theorem Reader.notMem_of_isLiteralChar (h : isLiteralChar c) :
    c ∉ ['<', '/', ',', '\x27', '\x22', '\x60', '(', '[', '\x7b'] := by
  have hnone : ∀ d ∈ ['<', '/', ',', '\x27', '\x22', '\x60', '(', '[', '\x7b'],
      isLiteralChar d = false := List.all_iff_forall_prop.mp (by decide)
  intro hc
  rw [hnone c hc] at h
  cases h

/-- Under any settings the kind of a token that is no punctuation fits its first character. -/
theorem TokenKind.begins_of_scan_of_ne {config : LexerConfig} {n : Nat} (hkind : kind ≠ .symbol)
    (h : scan config (c :: rest) = .lexeme kind n) : kind.begins c := by
  have hbalanced {opening closing : Char} (hopening : kind.begins opening)
      {kind' : TokenKind} (h : Reader.balanced opening closing kind' (c :: rest) = .lexeme kind n) :
      kind.begins c := by
    rw [Reader.balanced] at h
    split_ifs at h with hc
    rwa [hc]
  have hrun {isMember : Char → Bool} (hmember : kind.begins c = isMember c)
      (h : Reader.ofRun kind (Text.lengthWhile isMember (c :: rest)) = .lexeme kind n) :
      kind.begins c := by
    rw [Reader.ofRun, Text.lengthWhile] at h
    split_ifs at h with hc
    · rwa [hmember]
    · omega
  have hopening {d : Char} {more : Text} (h : Text.startsWith (c :: rest) (d :: more)) : c = d :=
    (List.cons_prefix_cons.mp (List.isPrefixOf_iff_prefix.mp h)).1.symm
  obtain ⟨reader, hfinds, hfound⟩ := exists_finds_of_scan h
  cases hfinds with
  | space | literal => exact hrun rfl hfound
  | roundBrackets | squareBrackets | lazyBraces | braces => exact hbalanced rfl hfound
  | cssComment =>
    unfold Reader.cssComment at hfound
    split_ifs at hfound with hcomment
    exact beq_iff_eq.mpr (hopening hcomment)
  | lineComment | blockComment =>
    unfold Reader.comment at hfound
    split_ifs at hfound with hline hblock
    · exact beq_iff_eq.mpr (hopening hline)
    · exact beq_iff_eq.mpr (hopening hblock)
  | string =>
    rw [Reader.string] at hfound
    split_ifs at hfound with hc
    rcases hc with rfl | rfl <;> rfl
  | templateString =>
    rw [Reader.templateString] at hfound
    split_ifs at hfound with hc
    rw [hc]
    rfl
  | comma =>
    rw [Reader.comma, List.head?_cons] at hfound
    split_ifs at hfound with hc
    rw [Option.some.inj hc]
    rfl
  | symbol => exact absurd rfl hkind

/-- The kind of a token fits its first character. -/
theorem TokenKind.begins_of_scan {n : Nat} (h : scan {} (c :: rest) = .lexeme kind n) :
    kind.begins c := by
  by_cases hkind : kind = .symbol
  · subst hkind
    have hfound := Reader.Finds.symbol.of_scan h
    rw [Reader.symbol] at hfound
    split_ifs at hfound with hc hjoin
    · exact hc
    · exact hc
  · exact begins_of_scan_of_ne hkind h

namespace Lexes

/-- Tokens of a text spell it. -/
theorem spelling_eq (h : Lexes text tokens) : spelling tokens = text := by
  obtain ⟨position, htokens⟩ := h
  exact (spelling_and_contiguous_of_tokensOf htokens).1

/-- Only an empty text has no tokens. -/
theorem nil_iff : Lexes [] tokens ↔ tokens = [] := by
  constructor
  · rintro ⟨position, htokens⟩
    simpa [tokensOf, eq_comm] using htokens
  · rintro rfl
    exact ⟨.start, by simp [tokensOf]⟩

/-- A text that is split at one place is split at every other place. -/
theorem exists_tokensOf (h : Lexes text tokens) (position : Position) :
    ∃ tokens, tokensOf {} text position = .ok tokens := by
  obtain ⟨origin, htokens⟩ := h
  induction tokens generalizing text origin position with
  | nil =>
    rw [eq_nil_of_tokensOf_eq_nil htokens]
    exact ⟨[], by simp [tokensOf]⟩
  | cons token tokens ih =>
    obtain ⟨rest, rfl, hvalue, hscan, _, hrest⟩ := exists_of_tokensOf_eq_cons htokens
    obtain ⟨later, hlater⟩ := ih (position.advanceText token.value) _ hrest
    exact ⟨_, tokensOf_append hvalue hscan hlater⟩

/-- Under the default settings every sign is a token of its own. -/
theorem splitSymbolRuns_eq (h : Lexes text tokens) : splitSymbolRuns tokens = tokens := by
  refine splitSymbolRuns_eq_self ?_
  induction tokens generalizing text with
  | nil => simp
  | cons token tokens ih =>
    obtain ⟨position, htokens⟩ := h
    obtain ⟨rest, _, _, hscan, _, hrest⟩ := exists_of_tokensOf_eq_cons htokens
    refine List.forall_mem_cons.mpr ⟨?_, ih ⟨_, hrest⟩⟩
    by_contra hrun
    rw [Bool.not_eq_false, Token.isSymbolRun, Bool.and_eq_true, beq_iff_eq] at hrun
    obtain ⟨hkind, hlength⟩ := hrun
    rw [hkind] at hscan
    have hsymbol := Reader.Finds.symbol.of_scan hscan
    cases text with
    | nil => cases hsymbol
    | cons c text =>
      rw [Reader.symbol] at hsymbol
      split_ifs at hsymbol with hc hjoin
      · cases hjoin
      · have hone : 1 = token.value.length := (Scan.lexeme.inj hsymbol).2
        simp [← hone] at hlength

/-- The first token of a text begins with its first character, and its kind fits it. -/
theorem exists_first (h : Lexes (c :: rest) tokens) :
    ∃ token later, tokens = token :: later ∧ token.value.head? = some c ∧ token.kind.begins c := by
  obtain ⟨position, htokens⟩ := h
  cases tokens with
  | nil => cases eq_nil_of_tokensOf_eq_nil htokens
  | cons token later =>
    obtain ⟨following, htext, hvalue, hscan, _, _⟩ := exists_of_tokensOf_eq_cons htokens
    obtain ⟨d, more, hmore⟩ := List.exists_cons_of_ne_nil hvalue
    rw [hmore, List.cons_append, List.cons.injEq] at htext
    obtain ⟨rfl, -⟩ := htext
    exact ⟨token, later, rfl, by rw [hmore]; rfl, TokenKind.begins_of_scan hscan⟩

/-- A text that begins with neither whitespace nor a comment begins with a significant token. -/
theorem exists_significant (h : Lexes (c :: rest) tokens) (hc : isSolid c) :
    ∃ token later, tokens = token :: later ∧ token.isSignificant ∧ token.value.head? = some c ∧
      token.kind.begins c := by
  obtain ⟨token, later, rfl, hvalue, hbegins⟩ := h.exists_first
  refine ⟨token, later, rfl, isSignificant_of_kind ?_, hvalue, hbegins⟩
  simp only [isSolid, Bool.and_eq_true, Bool.not_eq_true', bne_iff_ne] at hc
  obtain ⟨kind, value, position⟩ := token
  cases kind <;> first | rfl | simp [TokenKind.begins, hc] at hbegins

end Lexes

namespace IsLexeme

/-- A text that begins with a lexeme has its token first, and then the tokens of what follows. -/
theorem exists_of_tokensOf (h : IsLexeme kind value rest) {position : Position}
    (htokens : tokensOf {} (value ++ rest) position = .ok tokens) :
    ∃ later, tokens = ⟨kind, value, position⟩ :: later ∧
      tokensOf {} rest (position.advanceText value) = .ok later := by
  cases tokens with
  | nil =>
    have hnil := eq_nil_of_tokensOf_eq_nil htokens
    exact absurd (List.append_eq_nil_iff.mp hnil).1 h.ne_nil
  | cons token later =>
    obtain ⟨following, htext, _, hscan, hposition, hlater⟩ := exists_of_tokensOf_eq_cons htokens
    rw [h.scan_eq, Scan.lexeme.injEq] at hscan
    obtain ⟨hvalue, rfl⟩ := List.append_inj htext hscan.2
    obtain ⟨kind', value', position'⟩ := token
    cases hscan.1
    cases hvalue
    cases hposition
    exact ⟨later, rfl, hlater⟩

/-- A text that begins with a lexeme has its token first, wherever it stands. -/
theorem exists_of_lexes (h : IsLexeme kind value rest) (htokens : Lexes (value ++ rest) tokens) :
    ∃ position later, tokens = ⟨kind, value, position⟩ :: later ∧ Lexes rest later := by
  obtain ⟨position, htokens⟩ := htokens
  obtain ⟨later, rfl, hlater⟩ := h.exists_of_tokensOf htokens
  exact ⟨position, later, rfl, _, hlater⟩

/-- In front of a text that can be split, a lexeme makes another one. -/
theorem isLexable (h : IsLexeme kind value rest) (hrest : IsLexable rest) :
    IsLexable (value ++ rest) := by
  obtain ⟨tokens, htokens⟩ := hrest
  obtain ⟨later, hlater⟩ := htokens.exists_tokensOf (Position.start.advanceText value)
  exact ⟨_, .start, tokensOf_append h.ne_nil h.scan_eq hlater⟩

/-- What follows a lexeme can be split when the whole can. -/
theorem isLexable_rest (h : IsLexeme kind value rest) (htext : IsLexable (value ++ rest)) :
    IsLexable rest := by
  obtain ⟨tokens, htokens⟩ := htext
  obtain ⟨position, later, _, hlater⟩ := h.exists_of_lexes htokens
  exact ⟨later, hlater⟩

/-- A character of punctuation that may not open a comment is a lexeme. -/
theorem sign (hc : ({} : LexerConfig).isSymbol c) (hsolid : isSolid c) (rest : Text) :
    IsLexeme .symbol [c] rest := by
  simp only [isSolid, Bool.and_eq_true, Bool.not_eq_true', bne_iff_ne] at hsolid
  have hcomment : Reader.opensComment (c :: rest) = false := by
    simp [Reader.opensComment, Text.startsWith, lineCommentOpening, blockCommentOpening,
      Reader.cssCommentOpening, List.isPrefixOf, Ne.symm hsolid.1.2, Ne.symm hsolid.2]
  have hscan : scan ({} : LexerConfig).settled (c :: rest) = .lexeme .symbol 1 :=
    Reader.scan_settled_of_isSymbol (by decide) hc hcomment
  exact ⟨List.cons_ne_nil c [], hscan⟩

/-- A comma is a lexeme. -/
theorem comma (rest : Text) : IsLexeme .comma [','] rest := by
  refine ⟨by simp, ?_⟩
  have hspace : Reader.isSpace ',' = false := by decide
  simp [scan, Reader.all, Reader.firstAnswer, Reader.space, Reader.ofRun, Text.lengthWhile,
    Reader.cssComment, Reader.comment, Reader.string, Reader.templateString, Reader.roundBrackets,
    Reader.squareBrackets, Reader.braces, Reader.balanced, Reader.comma, Text.startsWith,
    Reader.cssCommentOpening, lineCommentOpening, blockCommentOpening, hspace]

/-- A run of whitespace before something else is a lexeme. -/
theorem spaces (hne : value ≠ []) (hvalue : ∀ d ∈ value, Reader.isSpace d)
    (hrest : ∀ d ∈ rest.head?, Reader.isSpace d = false) : IsLexeme .space value rest := by
  have hpos := List.length_pos_of_ne_nil hne
  refine ⟨hne, ?_⟩
  rw [scan, Reader.all, Reader.firstAnswer, Reader.space, Reader.ofRun,
    Text.lengthWhile_append_eq_length.mpr ⟨hvalue, hrest⟩, if_neg (by omega)]

/-- A run of literal characters before something else is a lexeme. -/
theorem word (hne : value ≠ []) (hvalue : ∀ d ∈ value, Reader.isLiteralChar d)
    (hrest : ∀ d ∈ rest.head?, Reader.isLiteralChar d = false) : IsLexeme .literal value rest := by
  refine ⟨hne, ?_⟩
  have hlength := Text.lengthWhile_append_eq_length.mpr ⟨hvalue, hrest⟩
  obtain ⟨d, more, rfl⟩ := List.exists_cons_of_ne_nil hne
  have hd := hvalue d List.mem_cons_self
  have hspace := Reader.isSpace_of_isLiteralChar hd
  have hnone := Reader.notMem_of_isLiteralChar hd
  simp only [List.mem_cons, List.not_mem_nil, or_false, not_or] at hnone
  have hliteral : Reader.literal {} (d :: more ++ rest) =
      .lexeme .literal (d :: more).length := by
    rw [Reader.literal, Reader.ofRun, hlength, if_neg (by simp)]
  rw [List.cons_append] at hliteral ⊢
  generalize ({} : LexerConfig) = config at hliteral ⊢
  simp [scan, Reader.all, Reader.firstAnswer, Reader.space, Reader.ofRun, Text.lengthWhile,
    Reader.cssComment, Reader.comment, Reader.string, Reader.templateString, Reader.roundBrackets,
    Reader.squareBrackets, Reader.braces, Reader.balanced, Reader.comma, Text.startsWith,
    Reader.cssCommentOpening, lineCommentOpening, blockCommentOpening, hspace, hnone,
    Ne.symm hnone.1, Ne.symm hnone.2.1, hliteral]

/-- A brace region is a lexeme when what is between the braces is passed over. -/
theorem braces (h : PassesOver text ('\x7d' :: rest)) :
    IsLexeme .lazyBlock ('\x7b' :: text ++ ['\x7d']) rest := by
  refine ⟨by simp, ?_⟩
  have hreader : Reader.braces {} ('\x7b' :: text ++ '\x7d' :: rest) =
      .lexeme .lazyBlock (text.length + 2) :=
    @Bracket.reader_of_passesOver .curly _ _ h {}
  rw [List.append_assoc, List.singleton_append, List.cons_append, scan_brace, ← List.cons_append,
    hreader]
  simp

end IsLexeme

/-- The end of a block comment is found behind a text that does not hold it. -/
theorem Text.lengthThrough_comment {body : Text} (h : ¬ blockCommentClosing <:+: body) :
    lengthThrough blockCommentClosing (body ++ blockCommentClosing) = body.length + 2 := by
  induction body with
  | nil => rfl
  | cons d body ih =>
    rw [List.infix_cons_iff, not_or] at h
    have hnot : ¬ startsWith (d :: body ++ blockCommentClosing) blockCommentClosing := by
      intro hprefix
      rw [startsWith, List.isPrefixOf_iff_prefix] at hprefix
      cases body with
      | nil => simp [blockCommentClosing] at hprefix
      | cons e body => exact h.1 (by simpa [blockCommentClosing] using hprefix)
    rw [List.cons_append] at hnot ⊢
    rw [lengthThrough, if_neg hnot, ih h.2, List.length_cons]

/-- A block comment whose body neither holds the end of a comment nor begins with a slash reaches
through its end. -/
theorem Text.lengthThrough_blockComment {body : Text} (hbody : ¬ blockCommentClosing <:+: body)
    (hslash : body.head? ≠ some '/') (rest : Text) :
    lengthThrough blockCommentClosing
        (blockCommentOpening ++ body ++ blockCommentClosing ++ rest) = body.length + 4 := by
  have hinfix : blockCommentClosing <:+: blockCommentOpening ++ body ++ blockCommentClosing :=
    (List.suffix_append _ _).isInfix
  have hstar : ¬ startsWith ('*' :: (body ++ blockCommentClosing)) blockCommentClosing := by
    cases body with
    | nil => simp [startsWith, blockCommentClosing]
    | cons d body =>
      simp only [List.head?_cons, ne_eq, Option.some.injEq] at hslash
      simp [startsWith, blockCommentClosing, List.isPrefixOf, Ne.symm hslash]
  rw [lengthThrough_append_of_isInfix hinfix, List.append_assoc]
  change lengthThrough blockCommentClosing ('/' :: '*' :: (body ++ blockCommentClosing)) = _
  rw [lengthThrough, if_neg (by simp [startsWith, blockCommentClosing]), lengthThrough,
    if_neg hstar, lengthThrough_comment hbody]

/-- Such a comment is a lexeme. -/
theorem IsLexeme.blockComment {body : Text} (hbody : ¬ blockCommentClosing <:+: body)
    (hslash : body.head? ≠ some '/') (rest : Text) :
    IsLexeme .multilineComment (blockCommentOpening ++ body ++ blockCommentClosing) rest := by
  refine ⟨by simp [blockCommentOpening], ?_⟩
  have hspace : Reader.isSpace '/' = false := by decide
  have hlength := Text.lengthThrough_blockComment hbody hslash rest
  have hcomment : Reader.comment {}
      (blockCommentOpening ++ body ++ blockCommentClosing ++ rest) =
      .lexeme .multilineComment (blockCommentOpening ++ body ++ blockCommentClosing).length := by
    rw [Reader.comment, if_neg (by simp [Text.startsWith, lineCommentOpening, blockCommentOpening]),
      if_pos (by simp [Text.startsWith, blockCommentOpening]), hlength]
    simp [blockCommentOpening, blockCommentClosing]
  simp only [blockCommentOpening, List.cons_append, List.nil_append] at hcomment ⊢
  rw [scan, Reader.all, Reader.firstAnswer, Reader.space, Reader.ofRun, Text.lengthWhile, hspace]
  simp only [Bool.false_eq_true, if_false, if_true]
  rw [Reader.firstAnswer, Reader.cssComment,
    if_neg (by simp [Text.startsWith, Reader.cssCommentOpening])]
  simp only
  rw [Reader.firstAnswer, hcomment]

/-- A text of lexemes: it can be put in front of every text that can be split, and the search for a
closing bracket passes over it. -/
structure IsRegular (text : Text) : Prop where
  passesOver (next : Text) : PassesOver text next
  isLexable {next : Text} (h : IsLexable next) : IsLexable (text ++ next)

/-- A character that is a lexeme, or a part of one, whatever follows it. -/
def isRegularChar (c : Char) : Bool :=
  Reader.isSpace c || Reader.isLiteralChar c || c == ',' ||
    ({} : LexerConfig).isSymbol c && isSolid c && !isStructural c

/-- A text is a run of members and a rest that does not begin with one. -/
theorem exists_run (isMember : Char → Bool) (text : Text) :
    ∃ run rest, text = run ++ rest ∧ (∀ d ∈ run, isMember d) ∧
      ∀ d ∈ rest.head?, isMember d = false := by
  refine ⟨text.takeWhile isMember, text.dropWhile isMember,
    List.takeWhile_append_dropWhile.symm, fun d hd => List.mem_takeWhile_imp hd, ?_⟩
  intro d hd
  have hnot := List.head?_dropWhile_not isMember text
  rw [hd] at hnot
  simpa using hnot

/-- One more character in front of a text lengthens its run or begins one. -/
theorem IsLexable.cons_of_run {isMember : Char → Bool} {next : Text}
    (hlexeme : ∀ value rest, value ≠ [] → (∀ d ∈ value, isMember d) →
      (∀ d ∈ rest.head?, isMember d = false) → IsLexeme kind value rest)
    (hc : isMember c) (h : IsLexable next) : IsLexable (c :: next) := by
  obtain ⟨run, rest, rfl, hrun, hhead⟩ := exists_run isMember next
  have hrest : IsLexable rest := by
    cases run with
    | nil => exact h
    | cons d run => exact (hlexeme _ _ (List.cons_ne_nil d run) hrun hhead).isLexable_rest h
  exact (hlexeme (c :: run) rest (List.cons_ne_nil _ _) (List.forall_mem_cons.mpr ⟨hc, hrun⟩)
    hhead).isLexable hrest

/-- A whitespace character in front of a text changes its leading trivia alone. -/
theorem Lexes.exists_of_space {next : Text} (h : Lexes (c :: next) tokens)
    (hc : Reader.isSpace c) : ∃ later, Lexes next later ∧ dropTrivia tokens = dropTrivia later := by
  obtain ⟨run, rest, rfl, hrun, hhead⟩ := exists_run Reader.isSpace next
  have hcons : IsLexeme .space (c :: run) rest :=
    .spaces (List.cons_ne_nil _ _) (List.forall_mem_cons.mpr ⟨hc, hrun⟩) hhead
  obtain ⟨position, htokens⟩ := h
  obtain ⟨later, rfl, hlater⟩ := hcons.exists_of_tokensOf htokens
  rw [Position.advanceText_cons] at hlater
  cases run with
  | nil => exact ⟨later, ⟨_, hlater⟩, rfl⟩
  | cons d run =>
    have hrest : IsLexeme .space (d :: run) rest := .spaces (List.cons_ne_nil _ _) hrun hhead
    exact ⟨_, ⟨_, tokensOf_append hrest.ne_nil hrest.scan_eq hlater⟩, rfl⟩

namespace IsRegular

variable {a b : Text}

/-- The empty text is made of no lexemes. -/
theorem nil : IsRegular [] :=
  ⟨PassesOver.nil, id⟩

/-- Lexemes behind lexemes. -/
theorem append (ha : IsRegular a) (hb : IsRegular b) : IsRegular (a ++ b) := by
  refine ⟨fun next => (ha.passesOver _).append (hb.passesOver next), fun h => ?_⟩
  rw [List.append_assoc]
  exact ha.isLexable (hb.isLexable h)

/-- A lexeme that is passed over. -/
theorem of_isLexeme (hpasses : ∀ next, PassesOver value next)
    (hlexeme : ∀ next, IsLexeme kind value next) : IsRegular value :=
  ⟨hpasses, fun h => (hlexeme _).isLexable h⟩

/-- A regular character is regular as a text. -/
theorem char (hc : isRegularChar c) : IsRegular [c] := by
  rw [isRegularChar, Bool.or_eq_true, Bool.or_eq_true, Bool.or_eq_true, beq_iff_eq] at hc
  rcases hc with ((hspace | hliteral) | rfl) | hsign
  · obtain ⟨hstructural, hslash⟩ := isStructural_eq_false (by decide) hspace
    refine ⟨fun next => .char hstructural fun h => absurd h hslash, fun h => ?_⟩
    exact h.cons_of_run (fun _ _ => IsLexeme.spaces) hspace
  · obtain ⟨hstructural, hslash⟩ := isStructural_eq_false (by decide) hliteral
    refine ⟨fun next => .char hstructural fun h => absurd h hslash, fun h => ?_⟩
    exact h.cons_of_run (fun _ _ => IsLexeme.word) hliteral
  · exact of_isLexeme (fun next => .char (by decide) fun h => absurd h (by decide)) IsLexeme.comma
  · rw [Bool.and_eq_true, Bool.and_eq_true, Bool.not_eq_true'] at hsign
    obtain ⟨⟨hsymbol, hsolid⟩, hstructural⟩ := hsign
    have hslash : c ≠ '/' := by
      rintro rfl
      cases hsolid
    exact of_isLexeme (fun next => .char hstructural fun h => absurd h hslash)
      (IsLexeme.sign hsymbol hsolid)

/-- A text of regular characters is regular. -/
theorem of_forall (h : ∀ c ∈ text, isRegularChar c) : IsRegular text := by
  induction text with
  | nil => exact nil
  | cons c rest ih =>
    rw [List.forall_mem_cons] at h
    exact (char h.1).append (ih h.2)

/-- Regular texts one after another. -/
theorem flatMap {α : Type} {items : List α} {f : α → Text}
    (h : ∀ item ∈ items, IsRegular (f item)) : IsRegular (items.flatMap f) := by
  induction items with
  | nil => exact nil
  | cons item items ih =>
    rw [List.forall_mem_cons] at h
    rw [List.flatMap_cons]
    exact h.1.append (ih h.2)

/-- A closed block comment is regular unless its body begins with a slash. -/
theorem blockComment {body : Text} (hbody : ¬ blockCommentClosing <:+: body)
    (hslash : body.head? ≠ some '/') :
    IsRegular (blockCommentOpening ++ body ++ blockCommentClosing) := by
  refine of_isLexeme (fun next => ?_) (IsLexeme.blockComment hbody hslash)
  apply PassesOver.blockComment
  · simp [Text.startsWith, blockCommentOpening]
  · rw [Text.lengthThrough_blockComment hbody hslash]
    simp [blockCommentOpening, blockCommentClosing]

/-- A regular text between braces is regular. -/
theorem braces (h : IsRegular text) : IsRegular ('\x7b' :: text ++ ['\x7d']) :=
  of_isLexeme (fun _ => (h.passesOver _).bracketed .curly) fun _ => .braces (h.passesOver _)

/-- A regular text can be split. -/
theorem exists_tokensOf (h : IsRegular text) (position : Position) :
    ∃ tokens, tokensOf {} text position = .ok tokens := by
  obtain ⟨tokens, htokens⟩ := h.isLexable (⟨[], Lexes.nil_iff.mpr rfl⟩ : IsLexable [])
  rw [List.append_nil] at htokens
  exact htokens.exists_tokensOf position

end IsRegular

end StyleSyntax
