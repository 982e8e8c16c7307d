import StyleSyntax.Token.Fragment

/-!
# Tokens in their places

A list of tokens is contiguous when each token stands right after the one before. It is placed in
a source when its spelling is a stretch of the source and the tokens are contiguous from the
position of that stretch; any run of neighbours in it is then placed as well. Excerpts and
positions are placed in the same sense, so that facts about tokens carry over to the excerpts taken
from them.
-/

namespace StyleSyntax

/-- The first token stands at the position and each next one right after the one before. -/
def Contiguous (position : Position) : List Token → Prop
  | [] => True
  | token :: rest => token.position = position ∧ Contiguous token.endPosition rest

/-- The tokens stand in the source: they spell a stretch of it, each at its true position. -/
def PlacedIn (source : Text) (tokens : List Token) : Prop :=
  ∃ before after, source = before ++ spelling tokens ++ after ∧
    Contiguous (Position.start.advanceText before) tokens

/-- The excerpt is a stretch of the source at its true position. -/
def Excerpt.IsPlacedIn (source : Text) (excerpt : Excerpt) : Prop :=
  ∃ before after, source = before ++ excerpt.text ++ after ∧
    excerpt.position = Position.start.advanceText before

/-- Two contiguous lists follow one another exactly when the second begins where the first ends. -/
theorem contiguous_append (position : Position) (a b : List Token) :
    Contiguous position (a ++ b) ↔
      Contiguous position a ∧ Contiguous (position.advanceText (spelling a)) b := by
  induction a generalizing position with
  | nil => simp [Contiguous]
  | cons token rest ih =>
    rw [List.cons_append, Contiguous, Contiguous, ih, spelling_cons, Position.advanceText_append,
      and_assoc]
    constructor
    · rintro ⟨rfl, hrest, hnext⟩
      exact ⟨rfl, hrest, hnext⟩
    · rintro ⟨rfl, hrest, hnext⟩
      exact ⟨rfl, hrest, hnext⟩

/-- A run of neighbours among placed tokens is placed. -/
theorem PlacedIn.of_isInfix {source : Text} {tokens part : List Token} (h : PlacedIn source tokens)
    (hpart : part <:+: tokens) : PlacedIn source part := by
  obtain ⟨before, after, rfl, hcontiguous⟩ := h
  obtain ⟨front, back, rfl⟩ := hpart
  rw [contiguous_append, contiguous_append] at hcontiguous
  refine ⟨before ++ spelling front, spelling back ++ after, by simp, ?_⟩
  rw [Position.advanceText_append]
  exact hcontiguous.1.2

/-- The text of placed tokens is placed at the position of the first one. -/
theorem PlacedIn.excerpt {source : Text} {first : Token} {more : List Token}
    (h : PlacedIn source (first :: more)) :
    Excerpt.IsPlacedIn source ⟨spelling (first :: more), first.position⟩ := by
  obtain ⟨before, after, hsource, hfirst, _⟩ := h
  exact ⟨before, after, hsource, hfirst⟩

/-- A token with an interior is its brackets and the interior, which begins behind the first. -/
theorem exists_brackets_of_interior {token : Token} {text : Text} {origin : Position}
    (h : token.interior = some (text, origin)) :
    ∃ opening closing, token.value = opening :: text ++ [closing] ∧
      origin = token.position.advance opening := by
  unfold Token.interior at h
  split at h
  · split at h
    · next opening last rest hvalue =>
      cases h
      have hne : last :: rest ≠ [] := List.cons_ne_nil _ _
      refine ⟨opening, (last :: rest).getLast hne, ?_, rfl⟩
      rw [hvalue, List.cons_append, List.dropLast_concat_getLast hne]
    · cases h
  · cases h

/-- No token is longer than the text of all. -/
theorem length_value_le {tokens : List Token} {token : Token} (h : token ∈ tokens) :
    token.value.length ≤ (spelling tokens).length := by
  obtain ⟨front, back, rfl⟩ := List.append_of_mem h
  rw [spelling_append, spelling_cons, List.length_append, List.length_append]
  omega

/-- The interior of a placed token is placed where it begins. -/
theorem PlacedIn.interior {source : Text} {tokens : List Token} (h : PlacedIn source tokens)
    {token : Token} (htoken : token ∈ tokens) {text : Text} {origin : Position}
    (hinterior : token.interior = some (text, origin)) :
    Excerpt.IsPlacedIn source ⟨text, origin⟩ := by
  obtain ⟨front, back, rfl⟩ := List.append_of_mem htoken
  have htoken : PlacedIn source [token] := h.of_isInfix ⟨front, back, by simp⟩
  obtain ⟨before, after, rfl, hposition, _⟩ := htoken
  obtain ⟨opening, closing, hvalue, rfl⟩ := exists_brackets_of_interior hinterior
  refine ⟨before ++ [opening], closing :: after, by simp [hvalue], ?_⟩
  rw [Position.advanceText_append, ← hposition]
  rfl

end StyleSyntax
