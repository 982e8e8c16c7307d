import StyleSyntax.Parser.Stream
import StyleSyntax.Proofs.Grammar.Advance

/-!
# The cursor and the source of an expression

An expression runs on the tokens from a cursor on. Afterwards the cursor has not gone back and is
still within the tokens, so that the tokens consumed in between are a fragment of them. Expressions
that give source back give the source of this fragment: as written, or without the whitespace and
comments at its beginning and with the position of its first significant token.
-/

namespace StyleSyntax

open StyleSyntax.Parser StyleSyntax.Grammar

/-- The excerpt is the source of the tokens without the trivia before them, placed at the first
significant token if there is one. -/
structure Excerpt.Trims (used : List Token) (source : Excerpt) : Prop where
  text_eq : source.text = spelling (dropTrivia used)
  position_eq {token : Token} : firstSignificant used = some token →
    source.position = token.position

/-- The excerpt of a fragment trims it, whatever stands for the position of nothing. -/
theorem trims_excerptOf (used : List Token) (fallback : Position) :
    (excerptOf used fallback).Trims used := by
  refine ⟨rfl, fun hfirst => ?_⟩
  simp [excerptOf, fragmentPosition, hfirst]

/-- A media query gives the source of all its tokens. -/
theorem spells_mediaQuery : mediaQuery.Spells := by
  have hmore : andExpression.Spells := advances_andExpression.spells
  refine spells_firstOf ?_
  simp only [List.forall_mem_cons]
  exact ⟨(Advances.spells advances_medium).leftRecursive hmore,
    (Advances.spells advances_mediaExpression).leftRecursive hmore, by simp⟩

namespace Expression

/-- What the value of an expression says of the source that was consumed for it. -/
def Spells : Expression → List Token → Value → Prop
  | raw _, used, value => value = .text (spelling used)
  | leftRecursive _ _, used, value => value = .text (spelling used)
  | mediaQuery, used, value => value = .text (spelling used)
  | excerpt _, used, value => ∃ source, value = .excerpt source ∧ source.Trims used
  | mediaQueryList, used, value => ∃ source, value = .excerpt source ∧ source.Trims used
  | capture _, used, value =>
    ∃ captured source, value = .list [captured, .excerpt source] ∧ source.Trims used
  | tag label inner, used, value => ∃ labelled, value = .tagged label labelled ∧
      inner.Spells used labelled
  | probe _ inner, used, value => inner.Spells used value
  | _, _, _ => True

variable {region : Region} {rest next : List Token} {value : Value}

/-- Source as written is what the value of such a parser says. -/
theorem eq_spelling_of_run {p : Parser Text} (h : p.Spells)
    (hrun : (p.map Value.text).run region rest = ⟨.ok value, next⟩) :
    value = .text (spelling (consumed rest next)) := by
  obtain ⟨text, htext, rfl⟩ := map_run_eq_ok.mp hrun
  obtain ⟨used, rfl, rfl⟩ := h.of_run htext
  simp [consumed]

/-- Captured source is that of the tokens consumed, trimmed. -/
theorem trims_of_excerpt_run {α : Type} {p : Parser α}
    (hrun : ((Parser.excerpt p).map Value.excerpt).run region rest = ⟨.ok value, next⟩) :
    ∃ source, value = .excerpt source ∧ source.Trims (consumed rest next) := by
  obtain ⟨source, hsource, rfl⟩ := map_run_eq_ok.mp hrun
  obtain ⟨captured, hcaptured, rfl⟩ := map_run_eq_ok.mp hsource
  refine ⟨captured.2, rfl, ?_⟩
  rw [(capture_run_eq_ok.mp hcaptured).2]
  exact trims_excerptOf _ _

/-- A success gives back the source of the tokens consumed for it. -/
theorem spells_of_run (expression : Expression) {value : Value}
    (hrun : expression.parser.run region rest = ⟨.ok value, next⟩) :
    expression.Spells (consumed rest next) value := by
  cases expression with
  | raw inner => exact eq_spelling_of_run (advances inner).rawValue.spells hrun
  | leftRecursive left right =>
    have hleft := (advances left).rawValue.spells
    exact eq_spelling_of_run (hleft.leftRecursive (advances right).rawValue.spells) hrun
  | mediaQuery => exact eq_spelling_of_run spells_mediaQuery hrun
  | excerpt inner => exact trims_of_excerpt_run hrun
  | mediaQueryList => exact trims_of_excerpt_run hrun
  | capture inner =>
    obtain ⟨⟨captured, source⟩, hcaptured, rfl⟩ := map_run_eq_ok.mp hrun
    obtain ⟨-, rfl⟩ := capture_run_eq_ok.mp hcaptured
    exact ⟨captured, _, rfl, trims_excerptOf _ _⟩
  | tag label inner =>
    obtain ⟨labelled, hlabelled, rfl⟩ := map_run_eq_ok.mp hrun
    exact ⟨labelled, rfl, spells_of_run inner hlabelled⟩
  | probe test inner => exact spells_of_run inner hrun
  | _ => trivial

/-- If an end of the tokens behind one cursor is left, it is what stands behind another cursor, and
the fragment between the two was consumed. -/
theorem fragment_of_suffix {tokens next : List Token} {skip cursor : Nat}
    (hsuffix : next <:+ tokens.drop skip)
    (hcursor : skip + ((tokens.drop skip).length - next.length) = cursor) :
    next = tokens.drop cursor ∧
      (tokens.take cursor).drop skip = consumed (tokens.drop skip) next := by
  obtain ⟨used, hused⟩ := hsuffix
  have hlength : cursor = skip + used.length := by
    rw [← hcursor, ← hused, List.length_append]
    omega
  subst hlength
  constructor
  · rw [← List.drop_drop, ← hused, List.drop_left]
  · rw [List.drop_take, ← hused]
    simp [consumed]

/-- The cursor after a run stays between the cursor before and the number of tokens, however the
run ends, and what is left are the tokens from it on. What an expression gives back as source is
the source of the fragment in between. -/
theorem runOn_cursor_and_source {expression : Expression} {config : LexerConfig}
    {tokens : List Token} {origin : Position} {skip cursor : Nat}
    {outcome : Outcome ParseError Value} (hskip : skip ≤ tokens.length)
    (hrun : expression.runOn config tokens origin skip = (outcome, cursor)) :
    let after : TokenStream := { tokens, config, origin, start := skip, cursor }
    skip ≤ cursor ∧ cursor ≤ tokens.length ∧
      (expression.parser.run after.region (tokens.drop skip)).rest = after.rest ∧
      ∀ value, outcome = .ok value → expression.Spells after.fragment value := by
  intro after
  unfold runOn at hrun
  dsimp only at hrun
  rcases hreply : expression.parser.run (.ofTokens config tokens origin) (tokens.drop skip) with
    ⟨reached, next⟩
  rw [hreply] at hrun
  obtain ⟨houtcome, hcursor⟩ := Prod.mk.inj hrun
  dsimp only at houtcome hcursor
  have hsuffix : next <:+ tokens.drop skip := (advances expression).suffix hreply
  obtain ⟨hrest, hfragment⟩ := fragment_of_suffix hsuffix hcursor
  have hle : (tokens.drop skip).length - next.length ≤ tokens.length - skip := by
    rw [List.length_drop]
    omega
  refine ⟨by omega, by omega, (congrArg Reply.rest hreply).trans hrest, fun value hvalue => ?_⟩
  have hconsumed : after.fragment = consumed (tokens.drop skip) next := hfragment
  rw [hconsumed]
  exact spells_of_run expression (by rw [hreply, houtcome, hvalue])

/-- Two words from the second token on: the space before the first of them is consumed and is no
part of the captured source. -/
theorem runOn_cursor_and_source_words :
    let pair : Expression := .excerpt (.sequence [.keyword ['a'], .keyword ['b']])
    let tokens : List Token := [⟨.comma, [','], ⟨1, 1⟩⟩, ⟨.space, [' '], ⟨1, 2⟩⟩,
      ⟨.literal, ['a'], ⟨1, 3⟩⟩, ⟨.space, [' '], ⟨1, 4⟩⟩, ⟨.literal, ['b'], ⟨1, 5⟩⟩,
      ⟨.comma, [','], ⟨1, 6⟩⟩]
    let after : TokenStream := { tokens, config := {}, origin := .start, start := 1, cursor := 5 }
    let value : Value := .excerpt ⟨['a', ' ', 'b'], ⟨1, 3⟩⟩
    pair.runOn {} tokens .start 1 = (.ok value, 5) ∧ 5 ≤ tokens.length ∧
      (pair.parser.run after.region (tokens.drop 1)).rest = after.rest ∧
      pair.Spells after.fragment value := by
  intro pair tokens after value
  have hrun : pair.runOn {} tokens .start 1 = (.ok value, 5) := rfl
  obtain ⟨-, hle, hrest, hsource⟩ := runOn_cursor_and_source (by decide) hrun
  exact ⟨hrun, hle, hrest, hsource value rfl⟩

end Expression

end StyleSyntax
