import Mathlib.Tactic.SplitIfs
import StyleSyntax.Proofs.Lexer.Trivia

/-!
# Settled tokens

Joining punctuation and marking braces are choices about tokens, not about text. Settled tokens are
those of the choice of single punctuation and marked braces. When no punctuation is a character that
another reader would take, every choice gives the settled tokens as soon as runs are split and both
kinds of braces are taken for one, and the same texts have no tokens.
-/

namespace StyleSyntax

/-- No punctuation is whitespace, a quote, an opening bracket, the comma or a literal character. -/
def LexerConfig.IsPlain (config : LexerConfig) : Prop :=
  ∀ c ∈ config.symbols, Reader.isSpace c = false ∧ isQuote c = false ∧
    c ∉ ['(', '[', '\x7b', ','] ∧ Reader.isLiteralChar c = false

-- The characters of the alphabet are tested one by one, and not all characters that there are.
instance (config : LexerConfig) : Decidable config.IsPlain :=
  List.decidableBAll _ config.symbols

/-- The same alphabet with single punctuation and marked braces. -/
def LexerConfig.settled (config : LexerConfig) : LexerConfig :=
  { config with joinSymbols := false, lazyBraces := true }

/-- The kind with marked braces for braces. -/
def TokenKind.settled (kind : TokenKind) : TokenKind :=
  if kind.isBraces then .lazyBlock else kind

/-- The token with marked braces for braces. -/
def Token.settled (token : Token) : Token :=
  { token with kind := token.kind.settled }

/-- The answer with marked braces for braces and the first character for a run of punctuation. -/
def Scan.settled : Scan → Scan
  | declined => declined
  | lexeme kind n => lexeme kind.settled (if kind = .symbol then min n 1 else n)
  | failed fault blame stop => failed fault blame stop

variable {config : LexerConfig}

namespace Reader

/-- An answer that is no lexeme of punctuation or braces is settled. -/
theorem settled_ofRun {kind : TokenKind} (hkind : kind ≠ .symbol) (hbraces : kind.isBraces = false)
    (n : Nat) : (ofRun kind n).settled = ofRun kind n := by
  unfold ofRun
  split_ifs
  · rfl
  · simp [Scan.settled, hkind, TokenKind.settled, hbraces]

/-- The answer of a bracket reader is settled by its kind. -/
theorem settled_balanced {kind : TokenKind} (hkind : kind ≠ .symbol) (opening closing : Char)
    (text : Text) :
    (balanced opening closing kind text).settled = balanced opening closing kind.settled text := by
  unfold balanced
  split
  · rfl
  · split_ifs
    · split <;> simp [Scan.settled, hkind]
    · rfl

/-- Every reader answers under settled settings with its settled answer. -/
theorem settled_of_mem_all {reader : Reader} (h : reader ∈ all) (text : Text) :
    reader config.settled text = (reader config text).settled := by
  cases h using mem_all_cases with
  | space | literal => exact (settled_ofRun (by simp) rfl _).symm
  | cssComment =>
    unfold cssComment
    split_ifs <;> rfl
  | comment =>
    unfold comment
    split_ifs <;> rfl
  | string =>
    unfold string
    split
    · rfl
    · split_ifs
      · split <;> rfl
      · rfl
  | templateString =>
    unfold templateString
    split
    · rfl
    · split_ifs
      · split <;> rfl
      · rfl
  | roundBrackets =>
    have hkind : TokenKind.roundBrackets ≠ .symbol := by simp
    exact (settled_balanced hkind _ _ _).symm
  | squareBrackets =>
    have hkind : TokenKind.squareBrackets ≠ .symbol := by simp
    exact (settled_balanced hkind _ _ _).symm
  | braces =>
    unfold braces
    rw [settled_balanced (by split_ifs <;> simp)]
    congr 1
    cases config.lazyBraces <;> rfl
  | comma =>
    unfold comma
    split_ifs <;> rfl
  | symbol =>
    unfold symbol
    split
    · rfl
    · next c rest =>
      change (if config.isSymbol c then Scan.lexeme .symbol 1 else Scan.declined) = _
      by_cases hc : config.isSymbol c
      · rw [if_pos hc, if_pos hc]
        split_ifs <;> simp [Scan.settled, TokenKind.settled, TokenKind.isBraces]
      · simp [hc, Scan.settled]

/-- The first answer under settled settings is the settled first answer. -/
theorem firstAnswer_settled {readers : List Reader} {text : Text}
    (h : ∀ reader ∈ readers, reader config.settled text = (reader config text).settled) :
    firstAnswer config.settled text readers = (firstAnswer config text readers).settled := by
  induction readers with
  | nil => rfl
  | cons reader rest ih =>
    rw [List.forall_mem_cons] at h
    rw [firstAnswer, firstAnswer, h.1, ih h.2]
    cases reader config text with
    | declined => rfl
    | lexeme => rfl
    | failed => rfl

/-- Punctuation is a lexeme of one character under settled settings when no comment opens. -/
theorem scan_settled_of_isSymbol (hplain : config.IsPlain) {c : Char} {rest : Text}
    (hc : config.isSymbol c) (hcomment : opensComment (c :: rest) = false) :
    scan config.settled (c :: rest) = .lexeme .symbol 1 := by
  obtain ⟨hspace, hquote, hbracket, hliteral⟩ := hplain c (by simpa [LexerConfig.isSymbol] using hc)
  simp only [isQuote, Bool.or_eq_false_iff, beq_eq_false_iff_ne] at hquote
  simp only [List.mem_cons, List.not_mem_nil, or_false, not_or] at hbracket
  simp only [opensComment, Bool.or_eq_false_iff] at hcomment
  have hsymbol : config.settled.isSymbol c := hc
  have hsingle : config.settled.joinSymbols = false := rfl
  simp [scan, all, firstAnswer, space, cssComment, comment, string, templateString, roundBrackets,
    squareBrackets, braces, balanced, comma, literal, symbol, ofRun, Text.lengthWhile, hspace,
    hquote, hbracket, hliteral, hcomment, hsymbol, hsingle]

end Reader

open Reader

/-- The scan under settled settings gives the settled answer. -/
theorem scan_settled (config : LexerConfig) (text : Text) :
    scan config.settled text = (scan config text).settled :=
  firstAnswer_settled fun _ hreader => settled_of_mem_all hreader text

namespace Reader

/-- The kinds of the lexemes that each reader finds. -/
inductive Finds (config : LexerConfig) : Reader → TokenKind → Prop where
  | space : Finds config space .space
  | cssComment : Finds config cssComment .cssComment
  | lineComment : Finds config comment .comment
  | blockComment : Finds config comment .multilineComment
  | string : Finds config string .string
  | templateString : Finds config templateString .templateString
  | roundBrackets : Finds config roundBrackets .roundBrackets
  | squareBrackets : Finds config squareBrackets .squareBrackets
  | lazyBraces : config.lazyBraces → Finds config braces .lazyBlock
  | braces : config.lazyBraces = false → Finds config braces .block
  | comma : Finds config comma .comma
  | literal : Finds config literal .literal
  | symbol : Finds config symbol .symbol

/-- A lexeme is of a kind that its reader finds. -/
theorem finds_of_mem_all {reader : Reader} {text : Text} {kind : TokenKind} {n : Nat}
    (hreader : reader ∈ all) (h : reader config text = .lexeme kind n) :
    Finds config reader kind := by
  cases hreader using mem_all_cases with
  | space =>
    unfold space ofRun at h
    split_ifs at h
    cases h
    exact .space
  | cssComment =>
    unfold cssComment at h
    split_ifs at h
    cases h
    exact .cssComment
  | comment =>
    unfold comment at h
    split_ifs at h
    · cases h
      exact .lineComment
    · cases h
      exact .blockComment
  | string =>
    unfold string at h
    split at h
    · cases h
    · split_ifs at h
      split at h <;> cases h
      exact .string
  | templateString =>
    unfold templateString at h
    split at h
    · cases h
    · split_ifs at h
      split at h <;> cases h
      exact .templateString
  | roundBrackets =>
    rw [(balanced_eq_lexeme text h).1]
    exact .roundBrackets
  | squareBrackets =>
    rw [(balanced_eq_lexeme text h).1]
    exact .squareBrackets
  | braces =>
    rw [(balanced_eq_lexeme text h).1]
    split_ifs with hlazy
    · exact .lazyBraces hlazy
    · exact .braces (by simpa using hlazy)
  | comma =>
    unfold comma at h
    split_ifs at h
    cases h
    exact .comma
  | literal =>
    unfold literal ofRun at h
    split_ifs at h
    cases h
    exact .literal
  | symbol =>
    unfold symbol at h
    split at h
    · cases h
    · split_ifs at h <;> cases h <;> exact .symbol

end Reader

/-- A lexeme is found by one of the readers that find its kind. -/
theorem exists_finds_of_scan {text : Text} {kind : TokenKind} {n : Nat}
    (h : scan config text = .lexeme kind n) :
    ∃ reader, Finds config reader kind ∧ reader config text = .lexeme kind n := by
  obtain ⟨reader, hreader, hfound⟩ := exists_of_firstAnswer (by simp) h
  exact ⟨reader, finds_of_mem_all hreader hfound, hfound⟩

/-- A lexeme is found by the reader of its kind, for no two readers find the same kind. -/
theorem Reader.Finds.of_scan {reader : Reader} {text : Text} {kind : TokenKind} {n : Nat}
    (hfinds : Finds config reader kind) (h : scan config text = .lexeme kind n) :
    reader config text = .lexeme kind n := by
  obtain ⟨found, hfound, hanswer⟩ := exists_finds_of_scan h
  cases hfinds <;> cases hfound <;> exact hanswer

/-- A lexeme of punctuation reaches no further than the run of it. -/
theorem le_symbolRunLength_of_scan {c : Char} {rest : Text} {n : Nat}
    (h : scan config (c :: rest) = .lexeme .symbol (n + 1)) : n ≤ symbolRunLength config rest := by
  have hfound := Finds.symbol.of_scan h
  rw [symbol] at hfound
  split_ifs at hfound <;> cases hfound <;> omega

/-- A text that begins with one character of punctuation splits into it and what follows. -/
theorem tokensOf_of_scan_eq_symbol {c : Char} {rest : Text}
    (h : scan config (c :: rest) = .lexeme .symbol 1) (position : Position) :
    tokensOf config (c :: rest) position =
      (tokensOf config rest (position.advance c)).map (⟨.symbol, [c], position⟩ :: ·) := by
  rw [tokensOf, h]
  simp only [List.take_zero, List.drop_zero, Position.advanceText_cons, Position.advanceText_nil]
  cases tokensOf config rest (position.advance c) <;> rfl

/-- A run of punctuation splits into its characters under settled settings. -/
theorem tokensOf_settled_of_run (hplain : config.IsPlain) {n : Nat} {text : Text}
    (hn : n ≤ symbolRunLength config text) (position : Position) :
    tokensOf config.settled text position =
      (tokensOf config.settled (text.drop n) (position.advanceText (text.take n))).map
        (symbolsOf position (text.take n) ++ ·) := by
  induction n generalizing text position with
  | zero =>
    simp only [List.take_zero, List.drop_zero, Position.advanceText_nil, symbolsOf,
      List.nil_append]
    cases tokensOf config.settled text position <;> rfl
  | succ n ih =>
    cases text with
    | nil => simp [symbolRunLength] at hn
    | cons c rest =>
      rw [symbolRunLength] at hn
      split_ifs at hn with hc
      swap
      · omega
      rw [Bool.and_eq_true, Bool.not_eq_true'] at hc
      rw [tokensOf_of_scan_eq_symbol (scan_settled_of_isSymbol hplain hc.1 hc.2),
        ih (Nat.le_of_succ_le_succ hn)]
      simp only [List.take_succ_cons, List.drop_succ_cons, Position.advanceText_cons, symbolsOf]
      cases tokensOf config.settled (rest.drop n) _ <;> rfl

/-- The pieces of punctuation are settled. -/
theorem map_settled_symbolsOf (position : Position) (text : Text) :
    (symbolsOf position text).map Token.settled = symbolsOf position text := by
  induction text generalizing position with
  | nil => rfl
  | cons c rest ih =>
    rw [symbolsOf, List.map_cons, ih]
    rfl

/-- A token of punctuation is split into its characters, be it a run or not. -/
theorem splitSymbolRuns_cons_symbol {value : Text} (hvalue : value ≠ []) (position : Position)
    (tokens : List Token) :
    splitSymbolRuns (⟨.symbol, value, position⟩ :: tokens) =
      symbolsOf position value ++ splitSymbolRuns tokens := by
  rw [splitSymbolRuns_cons]
  split_ifs with hrun
  · rfl
  · obtain ⟨c, rest, rfl⟩ := List.exists_cons_of_ne_nil hvalue
    have hrest : rest = [] := by simpa [Token.isSymbolRun] using hrun
    rw [hrest]
    rfl

/-- What the first lexeme of a text contributes to its settled tokens. -/
theorem tokensOf_settled_cons (hplain : config.IsPlain) {c : Char} {rest : Text} {kind : TokenKind}
    {n : Nat} (hscan : scan config (c :: rest) = .lexeme kind (n + 1)) (position : Position) :
    tokensOf config.settled (c :: rest) position =
      (tokensOf config.settled (rest.drop n) (position.advanceText (c :: rest.take n))).map
        ((splitSymbolRuns [⟨kind, c :: rest.take n, position⟩]).map Token.settled ++ ·) := by
  have hsettled := scan_settled config (c :: rest)
  rw [hscan] at hsettled
  by_cases hkind : kind = .symbol
  · subst hkind
    rw [Scan.settled, if_pos rfl, Nat.min_eq_right (Nat.succ_pos n)] at hsettled
    rw [tokensOf_of_scan_eq_symbol hsettled,
      tokensOf_settled_of_run hplain (le_symbolRunLength_of_scan hscan),
      splitSymbolRuns_cons_symbol (List.cons_ne_nil _ _), splitSymbolRuns_nil, List.append_nil,
      map_settled_symbolsOf]
    simp only [symbolsOf, Position.advanceText_cons]
    cases tokensOf config.settled (rest.drop n) _ <;> rfl
  · have hsplit : splitSymbolRuns [⟨kind, c :: rest.take n, position⟩] =
        [⟨kind, c :: rest.take n, position⟩] := by
      simp [splitSymbolRuns, Token.isSymbolRun, hkind]
    rw [Scan.settled, if_neg hkind] at hsettled
    rw [tokensOf, hsettled, hsplit]
    dsimp only
    cases tokensOf config.settled (rest.drop n) _ <;> rfl

/-- The settled tokens of a text are its tokens, split and settled. -/
theorem tokensOf_settled (hplain : config.IsPlain) (text : Text) (position : Position) :
    tokensOf config.settled text position =
      (tokensOf config text position).map fun tokens =>
        (splitSymbolRuns tokens).map Token.settled := by
  fun_induction tokensOf config text position with
  | case1 => simp [tokensOf, Except.map]
  | case2 position c rest kind n hscan value tokens htokens ih =>
    rw [tokensOf_settled_cons hplain hscan, ih, htokens]
    simp only [Except.map, ← List.map_append, splitSymbolRuns]
    simp [value]
  | case3 position c rest kind n hscan value error herror ih =>
    rw [tokensOf_settled_cons hplain hscan, ih, herror]
    rfl
  | case4 position c rest fault blame stop hscan =>
    rw [tokensOf, scan_settled, hscan]
    rfl
  | case5 position c rest hlexeme hfailed =>
    rw [tokensOf, scan_settled]
    cases hscan : scan config (c :: rest) with
    | declined => rfl
    | lexeme kind n =>
      cases n with
      | zero => cases kind <;> rfl
      | succ n => exact absurd hscan (hlexeme kind n)
    | failed fault blame stop => exact absurd hscan (hfailed fault blame stop)

/-- A piece of a run is one character. -/
theorem exists_value_of_mem_symbolsOf {position : Position} {text : Text} {token : Token}
    (h : token ∈ symbolsOf position text) : ∃ c, token.value = [c] := by
  induction text generalizing position with
  | nil => cases h
  | cons c rest ih =>
    rcases List.mem_cons.mp h with rfl | h
    · exact ⟨c, rfl⟩
    · exact ih h

/-- No run is left among split tokens. -/
theorem isSymbolRun_of_mem_splitSymbolRuns {token : Token} {tokens : List Token}
    (h : token ∈ splitSymbolRuns tokens) : token.isSymbolRun = false := by
  obtain ⟨origin, _, htoken⟩ := List.mem_flatMap.mp h
  split_ifs at htoken with hrun
  · obtain ⟨c, hvalue⟩ := exists_value_of_mem_symbolsOf htoken
    simp [Token.isSymbolRun, hvalue]
  · rw [List.mem_singleton.mp htoken]
    simpa using hrun

/-- Splitting changes nothing where there are no runs. -/
theorem splitSymbolRuns_eq_self {tokens : List Token}
    (h : ∀ token ∈ tokens, token.isSymbolRun = false) : splitSymbolRuns tokens = tokens := by
  induction tokens with
  | nil => rfl
  | cons token tokens ih =>
    rw [List.forall_mem_cons] at h
    rw [splitSymbolRuns_cons, ih h.2, h.1]
    rfl

/-- Marking braces makes no runs and ends none. -/
theorem isSymbolRun_settled (token : Token) : token.settled.isSymbolRun = token.isSymbolRun := by
  obtain ⟨kind, value, position⟩ := token
  cases kind <;> rfl

/-- Settled tokens that are split stay as they are. -/
theorem splitSymbolRuns_map_settled (tokens : List Token) :
    splitSymbolRuns ((splitSymbolRuns tokens).map Token.settled) =
      (splitSymbolRuns tokens).map Token.settled := by
  refine splitSymbolRuns_eq_self ?_
  rw [List.forall_mem_map]
  intro token htoken
  rw [isSymbolRun_settled]
  exact isSymbolRun_of_mem_splitSymbolRuns htoken

end StyleSyntax
