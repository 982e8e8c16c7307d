import Mathlib.Data.List.DropRight
import Mathlib.Data.List.TakeWhile
import StyleSyntax.Proofs.Token.Placement

/-!
# Trimmed token lists

Rules pass over the whitespace and comments before what they read, and leave alone those behind it.
What a rule reads is therefore a gap of trivia and then a list that begins and ends with a
significant token, and its excerpt is the source of that list. These lemmas say how such lists
behave under concatenation, and what the excerpt of a list of consumed tokens is.
-/

namespace StyleSyntax

/-- Whitespace and comments alone. -/
def AllTrivia (tokens : List Token) : Prop :=
  ∀ token ∈ tokens, token.isTrivia

/-- The last token is there and significant. -/
def EndsSignificant (tokens : List Token) : Prop :=
  ∃ front last, tokens = front ++ [last] ∧ last.isSignificant

/-- No trivia is left at the end. -/
def EndsTrimmed (tokens : List Token) : Prop :=
  tokens = [] ∨ EndsSignificant tokens

/-- The excerpt is the source of these tokens, which begin and end with a significant one. -/
structure Excerpt.IsOf (tokens : List Token) (excerpt : Excerpt) : Prop where
  begins : ∃ first more, tokens = first :: more ∧ first.isSignificant ∧
    excerpt = ⟨spelling tokens, first.position⟩
  ends : EndsSignificant tokens

/-- The excerpt is the source of some neighbours among these tokens. -/
def Excerpt.IsWithin (tokens : List Token) (excerpt : Excerpt) : Prop :=
  ∃ part, part <:+: tokens ∧ excerpt.IsOf part

/-- Kinds that are not trivia make significant tokens. -/
theorem isSignificant_of_kind {token : Token} (h : token.kind.isTrivia = false) :
    token.isSignificant := by
  rw [Token.isSignificant, Token.isTrivia, h]
  rfl

/-- A sign is a significant token. -/
theorem isSignificant_of_isSymbol {token : Token} {text : Text} (h : token.isSymbol text) :
    token.isSignificant := by
  rw [Token.isSymbol, Bool.and_eq_true, beq_iff_eq] at h
  exact isSignificant_of_kind (by rw [h.1]; rfl)

/-- Brace regions are significant tokens. -/
theorem isSignificant_of_isBraces {token : Token} (h : token.isBraces) : token.isSignificant := by
  obtain ⟨kind, value, position⟩ := token
  cases kind <;> first | rfl | cases h

/-- Brace regions are of no other kind. -/
theorem kind_ne_of_isBraces {token : Token} {kind : TokenKind} (h : token.isBraces)
    (hkind : kind.isBraces = false) : token.kind ≠ kind := by
  rintro rfl
  rw [Token.isBraces, hkind] at h
  cases h

/-- A token is trivia or significant, never both. -/
theorem isTrivia_eq_false_of_significant {token : Token} (h : token.isSignificant) :
    token.isTrivia = false := by
  simpa [Token.isSignificant] using h

/-- A test for significant tokens fails where trivia or nothing is next. -/
theorem any_head?_eq_false {test : Token → Bool} (htest : ∀ token, test token → token.isSignificant)
    {rest : List Token} (hrest : ∀ token ∈ rest.head?, token.isTrivia) :
    rest.head?.any test = false := by
  rw [← Bool.not_eq_true]
  intro hany
  obtain ⟨token, htoken, hpasses⟩ := (Option.any_eq_true _ _).mp hany
  have htrivia := hrest token htoken
  rw [isTrivia_eq_false_of_significant (htest token hpasses)] at htrivia
  cases htrivia

/-- Dropping leading trivia removes a whole gap. -/
theorem dropTrivia_append_of_allTrivia {gap : List Token} (h : AllTrivia gap) (rest : List Token) :
    dropTrivia (gap ++ rest) = dropTrivia rest :=
  List.dropWhile_append_of_pos h

/-- Nothing is dropped in front of a significant token. -/
theorem dropTrivia_cons {token : Token} (h : token.isSignificant) (rest : List Token) :
    dropTrivia (token :: rest) = token :: rest :=
  List.dropWhile_cons_of_neg (by simp [isTrivia_eq_false_of_significant h])

/-- Trivia is dropped before a significant token only. -/
theorem dropTrivia_append_cons (front : List Token) {token : Token} (h : token.isSignificant)
    (back : List Token) :
    dropTrivia (front ++ token :: back) = dropTrivia front ++ token :: back := by
  rw [dropTrivia, List.dropWhile_append]
  split
  · next hempty =>
    rw [List.isEmpty_iff] at hempty
    rw [dropTrivia, hempty, List.nil_append]
    exact dropTrivia_cons h back
  · rfl

/-- Behind a gap stands what a significant token begins. -/
theorem dropTrivia_gap {gap : List Token} (hgap : AllTrivia gap) {token : Token}
    (htoken : token.isSignificant) (rest : List Token) :
    dropTrivia (gap ++ token :: rest) = token :: rest := by
  rw [dropTrivia_append_of_allTrivia hgap, dropTrivia_cons htoken]

/-- A gap is all the trivia before a significant token. -/
theorem takeWhile_gap {gap : List Token} (hgap : AllTrivia gap) {token : Token}
    (htoken : token.isSignificant) (rest : List Token) :
    (gap ++ token :: rest).takeWhile Token.isTrivia = gap := by
  rw [List.takeWhile_append_of_pos hgap,
    List.takeWhile_cons_of_neg (by simp [isTrivia_eq_false_of_significant htoken]),
    List.append_nil]

/-- Leading trivia is dropped from the part that holds a significant token. -/
theorem EndsSignificant.dropTrivia_append {front : List Token} (h : EndsSignificant front)
    (back : List Token) : dropTrivia (front ++ back) = dropTrivia front ++ back := by
  obtain ⟨start, last, rfl, hlast⟩ := h
  rw [List.append_assoc, List.singleton_append, dropTrivia_append_cons start hlast,
    dropTrivia_append_cons start hlast, List.append_assoc, List.singleton_append]

/-- Leading trivia is dropped once and for all. -/
theorem dropTrivia_dropTrivia (tokens : List Token) :
    dropTrivia (dropTrivia tokens) = dropTrivia tokens :=
  List.dropWhile_idempotent Token.isTrivia tokens

/-- A list is a gap and what is left when the gap is dropped. -/
theorem exists_gap (tokens : List Token) :
    ∃ gap, tokens = gap ++ dropTrivia tokens ∧ AllTrivia gap := by
  refine ⟨tokens.takeWhile Token.isTrivia, List.takeWhile_append_dropWhile.symm, ?_⟩
  intro token htoken
  exact List.mem_takeWhile_imp htoken

/-- What is left when the gap is dropped begins with a significant token. -/
theorem isSignificant_of_dropTrivia_eq_cons {tokens more : List Token} {first : Token}
    (h : dropTrivia tokens = first :: more) : first.isSignificant := by
  have hfirst := List.head?_dropWhile_not Token.isTrivia tokens
  rw [← dropTrivia, h] at hfirst
  simpa [Token.isSignificant] using hfirst

/-- The first significant token is what stands behind the gap. -/
theorem firstSignificant_eq_head? (tokens : List Token) :
    firstSignificant tokens = (dropTrivia tokens).head? :=
  List.find?_not_eq_head?_dropWhile Token.isTrivia tokens

/-- There is no significant token where there is only trivia, and nowhere else. -/
theorem firstSignificant_eq_none {tokens : List Token} :
    firstSignificant tokens = none ↔ AllTrivia tokens := by
  simp [firstSignificant, AllTrivia, Token.isSignificant]

/-- A list ends as its last part does. -/
theorem EndsSignificant.append_left {back : List Token} (h : EndsSignificant back)
    (front : List Token) : EndsSignificant (front ++ back) := by
  obtain ⟨start, last, rfl, hlast⟩ := h
  exact ⟨front ++ start, last, by simp, hlast⟩

/-- One significant token behind anything. -/
theorem endsSignificant_concat (front : List Token) {last : Token} (h : last.isSignificant) :
    EndsSignificant (front ++ [last]) :=
  ⟨front, last, rfl, h⟩

/-- A part that is empty or ends with a significant token keeps the end significant. -/
theorem EndsSignificant.append_right {front : List Token} (h : EndsSignificant front)
    {back : List Token} (hback : EndsTrimmed back) : EndsSignificant (front ++ back) := by
  rcases hback with rfl | hback
  · rwa [List.append_nil]
  · exact hback.append_left front

/-- Two parts without trivia at their ends have none together. -/
theorem EndsTrimmed.append {front back : List Token} (hfront : EndsTrimmed front)
    (hback : EndsTrimmed back) : EndsTrimmed (front ++ back) := by
  rcases hfront with rfl | hfront
  · exact hback
  · exact .inr (hfront.append_right hback)

/-- A list that ends with a significant token has tokens. -/
theorem EndsSignificant.ne_nil {tokens : List Token} (h : EndsSignificant tokens) :
    tokens ≠ [] := by
  obtain ⟨front, last, rfl, _⟩ := h
  simp

/-- Dropping the gap keeps the significant end. -/
theorem EndsSignificant.dropTrivia {tokens : List Token} (h : EndsSignificant tokens) :
    EndsSignificant (dropTrivia tokens) := by
  obtain ⟨front, last, rfl, hlast⟩ := h
  rw [dropTrivia_append_cons front hlast]
  exact endsSignificant_concat _ hlast

/-- Tokens that are all significant and not none end with a significant one. -/
theorem endsSignificant_of_forall {tokens : List Token} (hne : tokens ≠ [])
    (h : ∀ token ∈ tokens, token.isSignificant) : EndsSignificant tokens :=
  ⟨tokens.dropLast, tokens.getLast hne, (List.dropLast_concat_getLast hne).symm,
    h _ (List.getLast_mem hne)⟩

/-- The excerpt of consumed tokens is the source of what stands behind their gap. -/
theorem excerptOf_isOf {used : List Token} (h : EndsSignificant used) (fallback : Position) :
    (excerptOf used fallback).IsOf (dropTrivia used) := by
  refine ⟨?_, h.dropTrivia⟩
  cases hused : dropTrivia used with
  | nil => exact absurd hused h.dropTrivia.ne_nil
  | cons first more =>
    refine ⟨first, more, rfl, isSignificant_of_dropTrivia_eq_cons hused, ?_⟩
    simp [excerptOf, trimmedSpelling, fragmentPosition, firstSignificant_eq_head?, hused]

/-- Tokens have one excerpt. -/
theorem Excerpt.IsOf.eq {tokens : List Token} {excerpt excerpt' : Excerpt}
    (h : excerpt.IsOf tokens) (h' : excerpt'.IsOf tokens) : excerpt' = excerpt := by
  obtain ⟨first, more, rfl, -, rfl⟩ := h.begins
  obtain ⟨first', more', htokens, -, rfl⟩ := h'.begins
  obtain ⟨rfl, -⟩ := List.cons.inj htokens
  rfl

/-- What has an excerpt behind its gap ends with a significant token. -/
theorem Excerpt.IsOf.endsSignificant {used : List Token} {excerpt : Excerpt}
    (h : excerpt.IsOf (StyleSyntax.dropTrivia used)) : EndsSignificant used := by
  obtain ⟨gap, hused, _⟩ := exists_gap used
  rw [hused]
  exact h.ends.append_left gap

/-- An excerpt of all the tokens is an excerpt of some of them. -/
theorem Excerpt.IsOf.isWithin {tokens : List Token} {excerpt : Excerpt} (h : excerpt.IsOf tokens) :
    excerpt.IsWithin tokens :=
  ⟨tokens, List.infix_rfl, h⟩

/-- An excerpt of a whole begins where an excerpt of its first part does. -/
theorem Excerpt.IsOf.position_eq {front back : List Token} {first whole : Excerpt}
    (hfirst : first.IsOf (StyleSyntax.dropTrivia front))
    (hwhole : whole.IsOf (StyleSyntax.dropTrivia (front ++ back))) :
    first.position = whole.position := by
  rw [hfirst.endsSignificant.dropTrivia_append back] at hwhole
  obtain ⟨token, more, hfront, _, rfl⟩ := hfirst.begins
  obtain ⟨token', more', hboth, _, rfl⟩ := hwhole.begins
  rw [hfront] at hboth
  cases hboth
  rfl

/-- An excerpt of some tokens is one of any list that has them as neighbours. -/
theorem Excerpt.IsWithin.mono {part tokens : List Token} {excerpt : Excerpt}
    (h : excerpt.IsWithin part) (hpart : part <:+: tokens) : excerpt.IsWithin tokens := by
  obtain ⟨inner, hinner, hof⟩ := h
  exact ⟨inner, hinner.trans hpart, hof⟩

/-- What is consumed for an excerpt has the excerpt in it. -/
theorem Excerpt.IsOf.isWithin_of_isInfix {part tokens : List Token} {excerpt : Excerpt}
    (h : excerpt.IsOf (StyleSyntax.dropTrivia part)) (hpart : part <:+: tokens) :
    excerpt.IsWithin tokens :=
  h.isWithin.mono ((List.dropWhile_suffix _).isInfix.trans hpart)

/-- No excerpt begins in the gap. -/
theorem Excerpt.IsWithin.dropTrivia {tokens : List Token} {excerpt : Excerpt}
    (h : excerpt.IsWithin tokens) : excerpt.IsWithin (dropTrivia tokens) := by
  obtain ⟨part, ⟨front, back, rfl⟩, hof⟩ := h
  refine ⟨part, ?_, hof⟩
  obtain ⟨first, more, rfl, hfirst, _⟩ := hof.begins
  rw [List.append_assoc, List.cons_append, dropTrivia_append_cons front hfirst]
  exact ⟨StyleSyntax.dropTrivia front, back, by simp⟩

/-- An excerpt of some placed tokens is placed. -/
theorem Excerpt.IsWithin.isPlacedIn {source : Text} {tokens : List Token} {excerpt : Excerpt}
    (h : excerpt.IsWithin tokens) (hplaced : PlacedIn source tokens) :
    excerpt.IsPlacedIn source := by
  obtain ⟨part, hpart, hof⟩ := h
  obtain ⟨first, more, rfl, _, rfl⟩ := hof.begins
  exact (hplaced.of_isInfix hpart).excerpt

end StyleSyntax
