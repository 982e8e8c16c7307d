import StyleSyntax.Proofs.Lexer.Scan
import StyleSyntax.Proofs.Token.Placement

/-!
# Splitting loses nothing

The tokens of a text spell the text and stand right after one another from its position on, and
breaking runs of punctuation up keeps both. A text that cannot be split is blamed at a true
position, where the character that is reported as found stands. Every brace region has its braces.
-/

namespace StyleSyntax

variable {config : LexerConfig}

/-- No tokens are the tokens of no text. -/
theorem eq_nil_of_tokensOf_eq_nil {text : Text} {position : Position}
    (h : tokensOf config text position = .ok []) : text = [] := by
  unfold tokensOf at h
  split at h
  · rfl
  · split at h
    · dsimp only at h
      split at h <;> cases h
    · cases h
    · cases h

/-- The first token is what the scan finds at the beginning, and the others are the tokens of what
is left. -/
theorem exists_of_tokensOf_eq_cons {text : Text} {position : Position} {token : Token}
    {tokens : List Token} (h : tokensOf config text position = .ok (token :: tokens)) :
    ∃ rest, text = token.value ++ rest ∧ token.value ≠ [] ∧
      scan config text = .lexeme token.kind token.value.length ∧ token.position = position ∧
      tokensOf config rest token.endPosition = .ok tokens := by
  unfold tokensOf at h
  split at h
  · cases h
  · next c rest =>
    split at h
    · next kind n hscan =>
      have hlength : n + 1 ≤ (c :: rest).length := by
        have hsound := scan_isSound config (c :: rest)
        rw [hscan] at hsound
        exact hsound.1
      dsimp only at h
      split at h
      · next others hothers =>
        cases h
        refine ⟨rest.drop n, by simp, by simp, ?_, rfl, hothers⟩
        rw [hscan]
        simp only [List.length_cons] at hlength
        simp only [List.length_cons, List.length_take,
          Nat.min_eq_left (Nat.le_of_succ_le_succ hlength)]
      · cases h
    · cases h
    · cases h

/-- The tokens of a text spell it and stand right after one another. -/
theorem spelling_and_contiguous_of_tokensOf {text : Text} {position : Position}
    {tokens : List Token} (h : tokensOf config text position = .ok tokens) :
    spelling tokens = text ∧ Contiguous position tokens := by
  induction tokens generalizing text position with
  | nil => exact ⟨(eq_nil_of_tokensOf_eq_nil h).symm, trivial⟩
  | cons token tokens ih =>
    obtain ⟨rest, rfl, _, _, hposition, hrest⟩ := exists_of_tokensOf_eq_cons h
    obtain ⟨hspelling, hcontiguous⟩ := ih hrest
    exact ⟨by rw [spelling_cons, hspelling], hposition, hcontiguous⟩

/-- What is left behind some tokens splits into the tokens that follow. -/
theorem exists_tokensOf_of_append {text : Text} {position : Position} {front rest : List Token}
    (h : tokensOf config text position = .ok (front ++ rest)) :
    ∃ later origin, tokensOf config later origin = .ok rest := by
  induction front generalizing text position with
  | nil => exact ⟨text, position, h⟩
  | cons token front ih =>
    obtain ⟨more, _, _, _, _, hmore⟩ := exists_of_tokensOf_eq_cons h
    exact ih hmore

/-- Each token of a text was found in front of what the tokens behind it spell. -/
theorem scan_of_tokensOf {text : Text} {position : Position} {before after : List Token}
    {token : Token} (h : tokensOf config text position = .ok (before ++ token :: after)) :
    token.value ≠ [] ∧
      scan config (token.value ++ spelling after) = .lexeme token.kind token.value.length := by
  obtain ⟨later, origin, hlater⟩ := exists_tokensOf_of_append h
  obtain ⟨rest, rfl, hvalue, hscan, -, hrest⟩ := exists_of_tokensOf_eq_cons hlater
  rw [← (spelling_and_contiguous_of_tokensOf hrest).1] at hscan
  exact ⟨hvalue, hscan⟩

/-- Each token of a text was found by a scan where it stands, and none is empty. -/
theorem exists_scan_of_mem_tokensOf {text : Text} {position : Position} {token : Token}
    {tokens : List Token} (h : tokensOf config text position = .ok tokens)
    (htoken : token ∈ tokens) :
    token.value ≠ [] ∧
      ∃ rest, scan config (token.value ++ rest) = .lexeme token.kind token.value.length := by
  obtain ⟨before, after, rfl⟩ := List.append_of_mem htoken
  obtain ⟨hvalue, hscan⟩ := scan_of_tokensOf h
  exact ⟨hvalue, _, hscan⟩

/-- No token of a text is empty. -/
theorem ne_nil_of_mem_tokensOf {text : Text} {position : Position} {token : Token}
    {tokens : List Token} (h : tokensOf config text position = .ok tokens)
    (htoken : token ∈ tokens) : token.value ≠ [] :=
  (exists_scan_of_mem_tokensOf h htoken).1

/-- A text without tokens is blamed at a true position, where the text reported as found stands. -/
theorem exists_of_tokensOf_eq_error {text : Text} {position : Position} {error : LexError}
    (h : tokensOf config text position = .error error) :
    ∃ before after, text = before ++ after ∧ error.position = position.advanceText before ∧
      ∀ found, error.fault.found? = some found → found <+: after := by
  fun_induction tokensOf config text position with
  | case1 => cases h
  | case2 => cases h
  | case3 position c rest kind n hscan value fault hfault ih =>
    cases h
    obtain ⟨before, after, hrest, hposition, hfound⟩ := ih hfault
    refine ⟨value ++ before, after, ?_, ?_, hfound⟩
    · rw [List.append_assoc, ← hrest]
      simp [value]
    · rw [hposition, Position.advanceText_append]
  | case4 position c rest fault blame stop hscan =>
    cases h
    refine ⟨(c :: rest).take blame, (c :: rest).drop blame, by simp, rfl, ?_⟩
    have hsound := scan_isSound config (c :: rest)
    rw [hscan] at hsound
    intro found hfound
    rw [hsound] at hfound
    cases hfound
  | case5 position c rest _ _ =>
    cases h
    refine ⟨[], c :: rest, rfl, rfl, ?_⟩
    intro found hfound
    cases hfound
    exact ⟨rest, rfl⟩

/-- Brace regions among the tokens of a text have both of their braces. -/
theorem exists_body_of_tokensOf {text : Text} {position : Position} {tokens : List Token}
    (h : tokensOf config text position = .ok tokens) {token : Token} (htoken : token ∈ tokens)
    (hbraces : token.isBraces) : ∃ body, token.value = '\x7b' :: body ++ ['\x7d'] := by
  obtain ⟨-, rest, hscan⟩ := exists_scan_of_mem_tokensOf h htoken
  have hsound := scan_isSound config (token.value ++ rest)
  rw [hscan] at hsound
  obtain ⟨body, hbody⟩ := hsound.2 hbraces
  rw [List.take_left] at hbody
  exact ⟨body, hbody⟩

/-- Pieces of a run of punctuation stand right after one another. -/
theorem contiguous_symbolsOf (position : Position) (text : Text) :
    Contiguous position (symbolsOf position text) := by
  induction text generalizing position with
  | nil => trivial
  | cons c rest ih => exact ⟨rfl, ih (position.advance c)⟩

/-- Splitting runs takes the tokens one at a time. -/
theorem splitSymbolRuns_cons (token : Token) (tokens : List Token) :
    splitSymbolRuns (token :: tokens) =
      (if token.isSymbolRun then symbolsOf token.position token.value else [token]) ++
        splitSymbolRuns tokens := by
  simp [splitSymbolRuns]

/-- Splitting runs keeps every piece at its place. -/
theorem contiguous_splitSymbolRuns {position : Position} {tokens : List Token}
    (h : Contiguous position tokens) : Contiguous position (splitSymbolRuns tokens) := by
  induction tokens generalizing position with
  | nil => trivial
  | cons token tokens ih =>
    obtain ⟨rfl, hrest⟩ := h
    rw [splitSymbolRuns_cons, contiguous_append]
    split_ifs
    · rw [spelling_symbolsOf]
      exact ⟨contiguous_symbolsOf _ _, ih hrest⟩
    · rw [spelling_cons, spelling_nil, List.append_nil]
      exact ⟨⟨rfl, trivial⟩, ih hrest⟩

/-- Pieces of a run of punctuation are symbols. -/
theorem kind_of_mem_symbolsOf {position : Position} {text : Text} {token : Token}
    (h : token ∈ symbolsOf position text) : token.kind = .symbol := by
  induction text generalizing position with
  | nil => cases h
  | cons c rest ih =>
    rcases List.mem_cons.mp h with rfl | h
    · rfl
    · exact ih h

/-- Pieces that are no symbols were tokens before runs were split. -/
theorem mem_of_mem_splitSymbolRuns {token : Token} {tokens : List Token}
    (h : token ∈ splitSymbolRuns tokens) (hkind : token.kind ≠ .symbol) : token ∈ tokens := by
  obtain ⟨origin, horigin, htoken⟩ := List.mem_flatMap.mp h
  split_ifs at htoken
  · exact absurd (kind_of_mem_symbolsOf htoken) hkind
  · rw [List.mem_singleton.mp htoken]
    exact horigin

/-- The split tokens of a placed text are placed. -/
theorem PlacedIn.of_tokensOf {source text : Text} {origin : Position} {tokens : List Token}
    (hplaced : Excerpt.IsPlacedIn source ⟨text, origin⟩)
    (h : tokensOf config text origin = .ok tokens) : PlacedIn source (splitSymbolRuns tokens) := by
  obtain ⟨before, after, rfl, rfl⟩ := hplaced
  obtain ⟨hspelling, hcontiguous⟩ := spelling_and_contiguous_of_tokensOf h
  refine ⟨before, after, ?_, contiguous_splitSymbolRuns hcontiguous⟩
  rw [spelling_splitSymbolRuns, hspelling]

/-- The tokens between the brackets of a token spell two characters less than the token. -/
theorem length_spelling_of_interior {config : LexerConfig} {token : Token} {text : Text}
    {origin : Position} {tokens : List Token} (hinterior : token.interior = some (text, origin))
    (htokens : tokensOf config text origin = .ok tokens) :
    (spelling (splitSymbolRuns tokens)).length + 2 = token.value.length := by
  obtain ⟨opening, closing, hvalue, -⟩ := exists_brackets_of_interior hinterior
  rw [spelling_splitSymbolRuns, (spelling_and_contiguous_of_tokensOf htokens).1, hvalue]
  simp

end StyleSyntax
