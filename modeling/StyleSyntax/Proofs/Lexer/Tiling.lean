import StyleSyntax.Proofs.Lexer.Tokenizing

/-!
# Tokens tile their text

The tokens of a text take it up piece by piece: no piece is empty, the pieces spell the text, the
first one sits at the position of the text and each next one where the piece before it ends. A
character moves the position on, by a line or by a column, so later tokens have later positions.
-/

namespace StyleSyntax

namespace Position

/-- One position comes before another on an earlier line or on the same line. -/
theorem order_eq_lt {a b : Position} :
    order a b = .lt ↔ a.line < b.line ∨ a.line = b.line ∧ a.col < b.col := by
  rw [order, Ordering.then_eq_lt, Nat.compare_eq_lt, Nat.compare_eq_eq, Nat.compare_eq_lt]

/-- Being before another position is transitive. -/
theorem order_trans {a b c : Position} (hab : order a b = .lt) (hbc : order b c = .lt) :
    order a c = .lt := by
  rw [order_eq_lt] at hab hbc ⊢
  omega

/-- A character moves the position on. -/
theorem order_advance (position : Position) (c : Char) :
    order position (position.advance c) = .lt := by
  rw [order_eq_lt, advance]
  split_ifs
  · left
    exact Nat.lt_succ_self _
  · right
    exact ⟨rfl, Nat.lt_succ_self _⟩

/-- A text that is not empty moves the position on. -/
theorem order_advanceText (position : Position) {text : Text} (h : text ≠ []) :
    order position (position.advanceText text) = .lt := by
  induction text generalizing position with
  | nil => exact absurd rfl h
  | cons c rest ih =>
    rw [advanceText_cons]
    cases rest with
    | nil => exact order_advance position c
    | cons next rest =>
      apply order_trans (order_advance position c)
      exact ih (position.advance c) (List.cons_ne_nil next rest)

end Position

variable {config : LexerConfig} {text : Text} {position : Position} {tokens : List Token}

/-- Contiguous tokens follow each other: each next one is where the one before it ends. -/
theorem Contiguous.isChain (h : Contiguous position tokens) :
    tokens.IsChain fun token next => next.position = token.position.advanceText token.value := by
  induction tokens generalizing position with
  | nil => exact .nil
  | cons token tokens ih =>
    cases tokens with
    | nil => exact .singleton token
    | cons next tokens => exact .cons_cons h.2.1 (ih h.2)

/-- Positions increase along contiguous tokens when none of them is empty. -/
theorem Contiguous.pairwise_order (h : Contiguous position tokens)
    (hvalue : ∀ token ∈ tokens, token.value ≠ []) :
    tokens.Pairwise fun token later => Position.order token.position later.position = .lt := by
  induction tokens generalizing position with
  | nil => exact .nil
  | cons token tokens ih =>
    obtain ⟨htoken, htokens⟩ := List.forall_mem_cons.mp hvalue
    have hlater := ih h.2 htokens
    apply List.pairwise_cons.mpr
    refine ⟨?_, hlater⟩
    cases tokens with
    | nil => simp
    | cons next tokens =>
      have hnext : Position.order token.position next.position = .lt := by
        rw [h.2.1]
        exact Position.order_advanceText token.position htoken
      intro later hmem
      rcases List.mem_cons.mp hmem with rfl | hmem
      · exact hnext
      · exact Position.order_trans hnext ((List.pairwise_cons.mp hlater).1 later hmem)

/-- Whenever a text has tokens, under any settings and from any position on, none of them is empty,
they spell the text, the first one is at the position of the text, each next one at the position of
the one before it advanced over its characters, and so positions strictly increase. -/
theorem tiles_of_tokensOf (h : tokensOf config text position = .ok tokens) :
    (∀ token ∈ tokens, token.value ≠ []) ∧ spelling tokens = text ∧
      (∀ first ∈ tokens.head?, first.position = position) ∧
      tokens.IsChain (fun token next => next.position = token.position.advanceText token.value) ∧
      tokens.Pairwise fun token later =>
        Position.order token.position later.position = .lt := by
  have hvalue : ∀ token ∈ tokens, token.value ≠ [] := fun _ => ne_nil_of_mem_tokensOf h
  obtain ⟨hspelling, hcontiguous⟩ := spelling_and_contiguous_of_tokensOf h
  refine ⟨hvalue, hspelling, ?_, hcontiguous.isChain, hcontiguous.pairwise_order hvalue⟩
  cases tokens with
  | nil => simp
  | cons first tokens =>
    intro token htoken
    cases htoken
    exact hcontiguous.1

/-- Whenever the readers split a text, under any settings and from any position on, the tokens that
they have built are not empty, they spell the text, the first one is at the position of the text,
each next one at the position of the one before it advanced over its characters, and so positions
strictly increase. -/
theorem tiles_of_tokenize {origin : Position} (h : tokenize config text origin = .ok tokens) :
    (∀ token ∈ tokens, token.value ≠ []) ∧ spelling tokens = text ∧
      (∀ first ∈ tokens.head?, first.position = origin) ∧
      tokens.IsChain (fun token next => next.position = token.position.advanceText token.value) ∧
      tokens.Pairwise fun token later =>
        Position.order token.position later.position = .lt := by
  rw [tokenize_eq_tokensOf] at h
  exact tiles_of_tokensOf h

/-- Joined punctuation, a letter of two bytes and a line feed, from a position inside a text. -/
theorem tiles_of_tokenize_two_lines :
    ∃ tokens, tokenize { joinSymbols := true } "é::\n\x7bb\x7d".toList ⟨4, 10⟩ = .ok tokens ∧
      tokens.map Token.position = [⟨4, 10⟩, ⟨4, 11⟩, ⟨4, 13⟩, ⟨5, 1⟩] ∧
      spelling tokens = "é::\n\x7bb\x7d".toList ∧
      tokens.Pairwise fun token later =>
        Position.order token.position later.position = .lt := by
  let tokens : List Token := [⟨.literal, ['é'], ⟨4, 10⟩⟩, ⟨.symbol, [':', ':'], ⟨4, 11⟩⟩,
    ⟨.space, ['\n'], ⟨4, 13⟩⟩, ⟨.lazyBlock, ['\x7b', 'b', '\x7d'], ⟨5, 1⟩⟩]
  have htokens : tokenize { joinSymbols := true } "é::\n\x7bb\x7d".toList ⟨4, 10⟩ = .ok tokens := by
    rw [tokenize_eq_tokensOf]
    decide +kernel
  obtain ⟨_, hspelling, _, _, hincreasing⟩ := tiles_of_tokenize htokens
  exact ⟨tokens, htokens, rfl, hspelling, hincreasing⟩

end StyleSyntax
