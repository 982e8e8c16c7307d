import StyleSyntax.Proofs.Lexer.SymbolRuns

/-!
# Joined punctuation

A run of punctuation that is read at once and then broken up gives the tokens that are read one by
one. Both choices have the same settled tokens, and settled tokens forget of the braces only how
they are marked, which is the same throughout a text. So the tokens of a plain alphabet are known
from the settled ones, and whether punctuation was joined cannot be seen any more.
-/

namespace StyleSyntax

/-- The kind of the braces that the settings ask for. -/
def LexerConfig.bracesKind (config : LexerConfig) : TokenKind :=
  if config.lazyBraces then .lazyBlock else .block

/-- The token with braces of the given kind for braces. -/
def Token.withBraces (kind : TokenKind) (token : Token) : Token :=
  if token.isBraces then { token with kind } else token

variable {config : LexerConfig} {text : Text} {kind : TokenKind}

/-- Braces that the scan finds are of the kind that the settings ask for. -/
theorem kind_eq_of_scan {n : Nat} (h : scan config text = .lexeme kind n) (hkind : kind.isBraces) :
    kind = config.bracesKind := by
  obtain ⟨reader, hfinds, -⟩ := exists_finds_of_scan h
  cases hfinds with
  | lazyBraces hlazy => exact (if_pos hlazy).symm
  | braces hlazy => simp [LexerConfig.bracesKind, hlazy]
  | _ => cases hkind

/-- Single punctuation is a lexeme of one character. -/
theorem length_eq_one_of_scan {n : Nat} (hsingle : config.joinSymbols = false)
    (h : scan config text = .lexeme .symbol n) : n = 1 := by
  have hfound := Reader.Finds.symbol.of_scan h
  unfold Reader.symbol at hfound
  split at hfound
  · cases hfound
  · simp only [hsingle, Bool.false_eq_true, if_false] at hfound
    split_ifs at hfound
    cases hfound
    rfl

/-- Braces that are all of one kind are known from their settled form. -/
theorem map_withBraces_settled {tokens : List Token}
    (h : ∀ token ∈ tokens, token.isBraces → token.kind = kind) :
    (tokens.map Token.settled).map (Token.withBraces kind) = tokens := by
  rw [List.map_map, List.map_congr_left, List.map_id]
  intro token htoken
  have hkind := h token htoken
  obtain ⟨found, value, position⟩ := token
  cases hbraces : found.isBraces with
  | true =>
    obtain rfl : found = kind := hkind hbraces
    cases found <;> cases hbraces <;> rfl
  | false =>
    simp [Token.withBraces, Token.settled, TokenKind.settled, Token.isBraces, hbraces]

/-- The split tokens of a text are its settled tokens with the braces that the settings ask for. -/
theorem map_splitSymbolRuns_tokensOf (hplain : config.IsPlain) (text : Text) (origin : Position) :
    (tokensOf config text origin).map splitSymbolRuns =
      (tokensOf config.settled text origin).map
        (List.map (Token.withBraces config.bracesKind)) := by
  rw [tokensOf_settled hplain]
  cases htokens : tokensOf config text origin with
  | error error => rfl
  | ok tokens =>
    refine congrArg Except.ok (map_withBraces_settled fun token htoken hbraces => ?_).symm
    have hkind : token.kind ≠ .symbol := by
      intro hkind
      rw [Token.isBraces, hkind] at hbraces
      cases hbraces
    obtain ⟨-, rest, hscan⟩ :=
      exists_scan_of_mem_tokensOf htokens (mem_of_mem_splitSymbolRuns htoken hkind)
    exact kind_eq_of_scan hscan hbraces

/-- Nothing is left to split among tokens of single punctuation. -/
theorem map_splitSymbolRuns_of_single (hsingle : config.joinSymbols = false) (text : Text)
    (origin : Position) :
    (tokensOf config text origin).map splitSymbolRuns = tokensOf config text origin := by
  cases htokens : tokensOf config text origin with
  | error error => rfl
  | ok tokens =>
    refine congrArg Except.ok (splitSymbolRuns_eq_self fun token htoken => ?_)
    obtain ⟨-, rest, hscan⟩ := exists_scan_of_mem_tokensOf htokens htoken
    by_cases hkind : token.kind = .symbol
    · rw [hkind] at hscan
      simp [Token.isSymbolRun, length_eq_one_of_scan hsingle hscan]
    · simp [Token.isSymbolRun, hkind]

/-- Joined punctuation that is split again gives the tokens of single punctuation, each at its
position, and where one choice has no tokens the other one fails with the same error. -/
theorem splitSymbolRuns_tokensOf_joined (hplain : config.IsPlain) (text : Text)
    (origin : Position) :
    (tokensOf { config with joinSymbols := true } text origin).map splitSymbolRuns =
      tokensOf { config with joinSymbols := false } text origin := by
  have hjoined := @map_splitSymbolRuns_tokensOf { config with joinSymbols := true } hplain
    text origin
  have hsingle := @map_splitSymbolRuns_tokensOf { config with joinSymbols := false } hplain
    text origin
  calc (tokensOf { config with joinSymbols := true } text origin).map splitSymbolRuns
    _ = (tokensOf config.settled text origin).map
          (List.map (Token.withBraces config.bracesKind)) := hjoined
    _ = (tokensOf { config with joinSymbols := false } text origin).map splitSymbolRuns :=
        hsingle.symm
    _ = tokensOf { config with joinSymbols := false } text origin :=
        map_splitSymbolRuns_of_single rfl text origin

/-- A slash before a comment, a comment that only looks closed, and braces that are not marked. -/
theorem splitSymbolRuns_tokensOf_joined_slashes :
    let config : LexerConfig := { lazyBraces := false }
    let text := "+*/*/\x7b\x7d<!".toList
    config.IsPlain ∧
      (tokensOf { config with joinSymbols := true } text ⟨2, 7⟩).map splitSymbolRuns =
        tokensOf { config with joinSymbols := false } text ⟨2, 7⟩ ∧
      tokensOf { config with joinSymbols := false } text ⟨2, 7⟩ =
        .ok [⟨.symbol, ['+'], ⟨2, 7⟩⟩, ⟨.symbol, ['*'], ⟨2, 8⟩⟩,
          ⟨.multilineComment, "/*/".toList, ⟨2, 9⟩⟩, ⟨.block, "\x7b\x7d".toList, ⟨2, 12⟩⟩,
          ⟨.symbol, ['<'], ⟨2, 14⟩⟩, ⟨.symbol, ['!'], ⟨2, 15⟩⟩] := by
  have hplain : LexerConfig.IsPlain { lazyBraces := false } := by decide
  exact ⟨hplain, splitSymbolRuns_tokensOf_joined hplain _ _, by decide +kernel⟩

end StyleSyntax
