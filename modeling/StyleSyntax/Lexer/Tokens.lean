import StyleSyntax.Lexer.Reader

/-!
# The tokens of a text

A text is split by asking the readers again and again, each time for the text that is left. Every
token takes at least one character, so the splitting ends; what a token takes and what is left
make up the text, so nothing is lost.
-/

namespace StyleSyntax

/-- The tokens of a text whose first character sits at `position`, or the first fault. -/
def tokensOf (config : LexerConfig) (text : Text) (position : Position) :
    Except LexError (List Token) :=
  match text with
  | [] => .ok []
  | c :: rest =>
    match scan config (c :: rest) with
    | .lexeme kind (n + 1) =>
      let value := c :: rest.take n
      match tokensOf config (rest.drop n) (position.advanceText value) with
      | .ok tokens => .ok (⟨kind, value, position⟩ :: tokens)
      | .error error => .error error
    | .failed fault blame _ => .error ⟨fault, position.advanceText ((c :: rest).take blame)⟩
    | _ => .error ⟨.unexpectedSymbol c, position⟩
termination_by text.length
decreasing_by simp only [List.length_cons, List.length_drop]; omega

/-- The text after one leading byte-order mark, if there is one. -/
def withoutMark : Text → Text
  | [] => []
  | c :: rest => if c = '\uFEFF' then rest else c :: rest

/-- The tokens of a whole document. -/
def documentTokens (config : LexerConfig) (text : Text) : Except LexError (List Token) :=
  tokensOf config (withoutMark text) .start

/-- One symbol token for each character of a text that begins at `position`. -/
def symbolsOf (position : Position) : Text → List Token
  | [] => []
  | c :: rest => ⟨.symbol, [c], position⟩ :: symbolsOf (position.advance c) rest

/-- A symbol token of at least two characters. -/
def Token.isSymbolRun (token : Token) : Bool :=
  token.kind == .symbol && 1 < token.value.length

/-- Breaks every run of punctuation into one token for each character, each at its own position.
Grammar rules match symbols a character at a time and read this form. -/
def splitSymbolRuns (tokens : List Token) : List Token :=
  tokens.flatMap fun token =>
    if token.isSymbolRun then symbolsOf token.position token.value else [token]

@[simp] theorem splitSymbolRuns_nil : splitSymbolRuns [] = [] := rfl

/-- The pieces of a run spell the run. -/
theorem spelling_symbolsOf (position : Position) (text : Text) :
    spelling (symbolsOf position text) = text := by
  induction text generalizing position with
  | nil => rfl
  | cons c rest ih => simp [symbolsOf, ih]

/-- Splitting runs keeps the text. -/
theorem spelling_splitSymbolRuns (tokens : List Token) :
    spelling (splitSymbolRuns tokens) = spelling tokens := by
  induction tokens with
  | nil => rfl
  | cons token rest ih =>
    have h : splitSymbolRuns (token :: rest) =
        (if token.isSymbolRun then symbolsOf token.position token.value else [token]) ++
          splitSymbolRuns rest := by simp [splitSymbolRuns]
    rw [h, spelling_append, ih, spelling_cons]
    split <;> simp [spelling_symbolsOf]

end StyleSyntax
