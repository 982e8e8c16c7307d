import StyleSyntax.Document.Basic
import StyleSyntax.Proofs.Grammar.RecastStylesheet
import StyleSyntax.Proofs.Lexer.Movement

/-!
# Stylesheets at other origins

No rule of the grammar looks at a position, so a text that sits elsewhere is read alike: to the same
tree with its positions moved, or to the same error at the moved position, and with as many tokens
left. Interiors of brackets follow the brackets, since a movement keeps pace with their text.
-/

namespace StyleSyntax

/-- Tokens are seen at the positions to which they are moved. -/
def Recasting.moved (m : Movement) : Recasting where
  kind := id
  position := m.apply
  config := id
  scope _ rest := ∀ token ∈ rest, m.covers token.position
  kind_eq := @TokenKind.id_eq
  isBraces_kind := TokenKind.isBraces_id
  scope_tail hscope _ := (List.forall_mem_cons.mp hscope).2

/-- The interior of a covered token is covered from its beginning. -/
theorem Movement.covers_interior {m : Movement} {token : Token} {text : Text} {origin : Position}
    (h : m.covers token.position) (hinterior : token.interior = some (text, origin)) :
    m.covers origin := by
  obtain ⟨opening, closing, _, rfl⟩ := exists_brackets_of_interior hinterior
  exact m.covers_advance opening h

/-- The split tokens of a covered text are covered. -/
theorem Movement.covers_of_tokensOf {m : Movement} {config : LexerConfig} {text : Text}
    {origin : Position} {tokens : List Token} (h : m.covers origin)
    (htokens : tokensOf config text origin = .ok tokens) :
    ∀ token ∈ splitSymbolRuns tokens, m.covers token.position :=
  covers_of_contiguous h
    (contiguous_splitSymbolRuns (spelling_and_contiguous_of_tokensOf htokens).2)

/-- The split tokens of a moved text are those of the text moved. -/
theorem Movement.exists_tokensOf_apply {m : Movement} {config : LexerConfig} {text : Text}
    {origin : Position} {tokens : List Token} (h : m.covers origin)
    (htokens : tokensOf config text origin = .ok tokens) :
    ∃ others, tokensOf config text (m.apply origin) = .ok others ∧
      splitSymbolRuns others = (splitSymbolRuns tokens).map m.token := by
  refine ⟨tokens.map m.token, ?_, splitSymbolRuns_map ?_⟩
  · rw [tokensOf_apply h, htokens]
    rfl
  · exact covers_of_contiguous h (spelling_and_contiguous_of_tokensOf htokens).2

/-- A text without tokens has none either where it is moved. -/
theorem Movement.tokensOf_apply_eq_error {m : Movement} {config : LexerConfig} {text : Text}
    {origin : Position} {error : LexError} (h : m.covers origin)
    (herror : tokensOf config text origin = .error error) :
    tokensOf config text (m.apply origin) = .error (m.lexError error) := by
  rw [tokensOf_apply h, herror]
  rfl

/-- A movement takes the interior of a token along with it. -/
theorem Recasting.moved_enters (m : Movement) : (Recasting.moved m).Enters where
  scope_append hscope := (List.forall_mem_append.mp hscope).2
  position_advanceText text hscope :=
    Movement.apply_advanceText (List.forall_mem_cons.mp hscope).1 text
  scope_interior hscope hinterior htokens :=
    Movement.covers_of_tokensOf
      (Movement.covers_interior (List.forall_mem_cons.mp hscope).1 hinterior) htokens
  tokens_interior hscope hinterior htokens :=
    Movement.exists_tokensOf_apply
      (Movement.covers_interior (List.forall_mem_cons.mp hscope).1 hinterior) htokens
  error_interior hscope hinterior herror :=
    Movement.tokensOf_apply_eq_error
      (Movement.covers_interior (List.forall_mem_cons.mp hscope).1 hinterior) herror

/-- The reply of a stylesheet to the split tokens of a text that sits at `origin`. -/
def readAt (config : LexerConfig) (dialect : Dialect) (text : Text) (origin : Position) :
    Except LexError (Reply (List Node)) :=
  (tokensOf config text origin).map fun tokens =>
    let pieces := splitSymbolRuns tokens
    (Grammar.stylesheet dialect).run (.ofTokens config pieces origin) pieces

/-- A document is its text without the mark, read at the start. -/
theorem parseDocument_eq_readAt (text : Text) (config : LexerConfig) (dialect : Dialect) :
    parseDocument text config dialect =
      match readAt config dialect (withoutMark text) .start with
      | .ok reply => reply.outcome.mapError .grammatical
      | .error error => .failed (.lexical error) := by
  unfold parseDocument documentTokens readAt
  cases tokensOf config (withoutMark text) .start <;> rfl

/-- A moved text is read to the moved reply, or has its fault at the moved position. -/
theorem readAt_apply {m : Movement} {origin : Position} (h : m.covers origin)
    (config : LexerConfig) (dialect : Dialect) (text : Text) :
    readAt config dialect text (m.apply origin) =
      ((readAt config dialect text origin).map
        (Reply.recast (.moved m) (List.map (Recasting.moved m).node))).mapError m.lexError := by
  unfold readAt
  cases htokens : tokensOf config text origin with
  | error error =>
    rw [Movement.tokensOf_apply_eq_error h htokens]
    rfl
  | ok tokens =>
    obtain ⟨others, hothers, hsplit⟩ := Movement.exists_tokensOf_apply h htokens
    have hscope : (Recasting.moved m).scope (.ofTokens config (splitSymbolRuns tokens) origin)
        (splitSymbolRuns tokens) := Movement.covers_of_tokensOf h htokens
    have hregion := (Recasting.moved_enters m).region_ofTokens hscope
    have hreply := (Grammar.recasts_stylesheet (Recasting.moved_enters m) dialect).reply _ _ hscope
    rw [hothers]
    dsimp only [Except.map, Except.mapError]
    rw [hsplit, ← hreply.eq, hregion]
    rfl

/-- A text at any origin is read as it is at the start of a document, with every position of the
tree or of the error counted from the origin: kinds, texts, success and the tokens that are left are
the same, and so is the fault of a text without tokens. -/
theorem readAt_eq_shifted (config : LexerConfig) (dialect : Dialect) (text : Text)
    (origin : Position) :
    readAt config dialect text origin =
      match readAt config dialect text .start with
      | .ok reply => .ok (reply.recast (.moved (.toOrigin origin))
          (List.map (Recasting.moved (.toOrigin origin)).node))
      | .error error => .error ⟨error.fault, error.position.shifted origin⟩ := by
  have hcovers : (Movement.toOrigin origin).covers .start := ⟨Nat.le_refl 1, Nat.le_refl 1⟩
  have hstart : (Movement.toOrigin origin).apply .start = origin := by
    obtain ⟨line, col⟩ := origin
    rfl
  have h := readAt_apply hcovers config dialect text
  rw [hstart] at h
  rw [h]
  cases readAt config dialect text .start <;> rfl

end StyleSyntax
