import StyleSyntax.Proofs.Lexer.Lossless

/-!
# Texts in other places

A movement takes positions to others and keeps pace with the characters of a text. The readers see
no positions, so the tokens of a text that is moved are its tokens moved, and a fault is found at
the moved position. A text may be moved from the start of a document to any place, and what stands
at a place or behind it may be moved to the start.
-/

namespace StyleSyntax

/-- A map of positions that agrees with advancing over text. -/
structure Movement where
  apply : Position → Position
  /-- The positions that are moved along. -/
  covers : Position → Prop
  covers_advance {position : Position} (c : Char) :
    covers position → covers (position.advance c)
  apply_advance {position : Position} (c : Char) :
    covers position → apply (position.advance c) = (apply position).advance c

/-- The position in a text that sits at `origin` instead of the start. On the first line columns
are counted from the column of the origin, and on all lines the lines from its line. -/
def Position.shifted (position origin : Position) : Position :=
  if position.line = 1 then ⟨origin.line, origin.col + position.col - 1⟩
  else ⟨origin.line + position.line - 1, position.col⟩

/-- The position as it is counted from `origin`, which becomes the start. -/
def Position.rebased (position origin : Position) : Position :=
  if position.line = origin.line then ⟨1, position.col + 1 - origin.col⟩
  else ⟨position.line + 1 - origin.line, position.col⟩

namespace Movement

/-- Moves the start of a document to a place. -/
def toOrigin (origin : Position) : Movement where
  apply position := position.shifted origin
  covers position := 1 ≤ position.line ∧ 1 ≤ position.col
  covers_advance c h := by
    unfold Position.advance
    split_ifs
    · exact ⟨Nat.le_add_left 1 _, Nat.le_refl 1⟩
    · exact ⟨h.1, Nat.le_add_left 1 _⟩
  apply_advance {position} c h := by
    have hline := h.1
    have hcol := h.2
    unfold Position.advance Position.shifted
    split_ifs <;> simp only [Position.mk.injEq] <;> grind

/-- Moves a place to the start of a document, with all that stands behind it. -/
def toStart (origin : Position) : Movement where
  apply position := position.rebased origin
  covers position :=
    origin.line < position.line ∨ origin.line = position.line ∧ origin.col ≤ position.col
  covers_advance {position} c h := by
    unfold Position.advance
    split_ifs <;> dsimp only <;> omega
  apply_advance {position} c h := by
    unfold Position.advance Position.rebased
    split_ifs <;> simp only [Position.mk.injEq] <;> grind

variable (m : Movement)

/-- The token at the moved position. -/
def token (token : Token) : Token :=
  ⟨token.kind, token.value, m.apply token.position⟩

/-- The fault at the moved position. -/
def lexError (error : LexError) : LexError :=
  ⟨error.fault, m.apply error.position⟩

variable {m} {config : LexerConfig} {position : Position}

/-- What stands behind a text is moved along with it. -/
theorem covers_advanceText (h : m.covers position) (text : Text) :
    m.covers (position.advanceText text) := by
  induction text generalizing position with
  | nil => exact h
  | cons c rest ih => exact ih (m.covers_advance c h)

/-- Advancing over a text and moving may be exchanged. -/
theorem apply_advanceText (h : m.covers position) (text : Text) :
    m.apply (position.advanceText text) = (m.apply position).advanceText text := by
  induction text generalizing position with
  | nil => rfl
  | cons c rest ih =>
    rw [Position.advanceText_cons, ih (m.covers_advance c h), m.apply_advance c h,
      Position.advanceText_cons]

/-- Tokens that stand one after another from a covered position on are covered. -/
theorem covers_of_contiguous {tokens : List Token} (h : m.covers position)
    (htokens : Contiguous position tokens) : ∀ token ∈ tokens, m.covers token.position := by
  induction tokens generalizing position with
  | nil => simp
  | cons token tokens ih =>
    obtain ⟨rfl, htokens⟩ := htokens
    exact List.forall_mem_cons.mpr ⟨h, ih (covers_advanceText h token.value) htokens⟩

/-- A moved text has its tokens moved, or its fault at the moved position. -/
theorem tokensOf_apply (h : m.covers position) (config : LexerConfig) (text : Text) :
    tokensOf config text (m.apply position) =
      ((tokensOf config text position).map (List.map m.token)).mapError m.lexError := by
  fun_induction tokensOf config text position with
  | case1 => rw [tokensOf]; rfl
  | case2 position c rest kind n hscan value tokens htokens ih =>
    have hrest := ih (covers_advanceText h value)
    rw [apply_advanceText h value, htokens] at hrest
    rw [tokensOf, hscan]
    dsimp only
    rw [hrest]
    rfl
  | case3 position c rest kind n hscan value error herror ih =>
    have hrest := ih (covers_advanceText h value)
    rw [apply_advanceText h value, herror] at hrest
    rw [tokensOf, hscan]
    dsimp only
    rw [hrest]
    rfl
  | case4 position c rest fault blame stop hscan =>
    rw [tokensOf, hscan]
    dsimp only
    rw [← apply_advanceText h]
    rfl
  | case5 position c rest hlexeme hfailed =>
    unfold tokensOf
    split
    · next kind n hscan => exact absurd hscan (hlexeme kind n)
    · next fault blame stop hscan => exact absurd hscan (hfailed fault blame stop)
    · rfl

/-- The pieces of a moved run are its pieces moved. -/
theorem symbolsOf_apply (h : m.covers position) (text : Text) :
    symbolsOf (m.apply position) text = (symbolsOf position text).map m.token := by
  induction text generalizing position with
  | nil => rfl
  | cons c rest ih =>
    rw [symbolsOf, symbolsOf, List.map_cons, ← ih (m.covers_advance c h), m.apply_advance c h]
    rfl

/-- Moved tokens split into the moved pieces. -/
theorem splitSymbolRuns_map {tokens : List Token} (h : ∀ token ∈ tokens, m.covers token.position) :
    splitSymbolRuns (tokens.map m.token) = (splitSymbolRuns tokens).map m.token := by
  induction tokens with
  | nil => rfl
  | cons token tokens ih =>
    rw [List.forall_mem_cons] at h
    have hrun : (m.token token).isSymbolRun = token.isSymbolRun := rfl
    rw [List.map_cons, splitSymbolRuns_cons, splitSymbolRuns_cons, List.map_append, ih h.2, hrun]
    split_ifs
    · exact congrArg (· ++ _) (symbolsOf_apply h.1 token.value)
    · rfl

end Movement

end StyleSyntax
