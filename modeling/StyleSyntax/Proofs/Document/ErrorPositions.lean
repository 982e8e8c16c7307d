import StyleSyntax.Proofs.Grammar.Stylesheet
import StyleSyntax.Proofs.Lexer.Lossless

/-!
# Positions of errors

Every failure blames a true position of the document, and what it reports as found there is what the
document has there. The setting of placed tokens admits such errors alone: a matcher blames a token
in scope or the end of its region, splitting blames a place between the brackets of such a token,
and a frame is put around an error with the position of that error. All rules keep their promises in
every setting, so the errors that survive the search among alternatives are among these, whichever
they are.
-/

namespace StyleSyntax

/-- The text that a fault reports as found. -/
def ParseFault.found? : ParseFault → Option Text
  | expected _ found | unexpectedToken found => some found
  | lexical fault => fault.found?
  | unexpectedEnd _ | emptyList _ => none

/-- The text that the innermost cause reports as found. -/
def DocumentError.found? : DocumentError → Option Text
  | lexical error => error.fault.found?
  | grammatical error => error.rootCause.fault.found?

/-- The position is a true one of the source, and what is reported as found stands there. -/
def IsBlamedIn (source : Text) (position : Position) (found? : Option Text) : Prop :=
  ∃ before after, source = before ++ after ∧ position = Position.start.advanceText before ∧
    ∀ found, found? = some found → found <+: after

/-- A true position may be blamed without anything found. -/
theorem IsBlamedIn.bare {source : Text} {position : Position} {found? : Option Text}
    (h : IsBlamedIn source position found?) : IsBlamedIn source position none := by
  obtain ⟨before, after, hsource, hposition, _⟩ := h
  exact ⟨before, after, hsource, hposition, by simp⟩

/-- A placed token is found where it stands. -/
theorem PlacedIn.isBlamedIn {source : Text} {token : Token} {next : List Token}
    (h : PlacedIn source (token :: next)) :
    IsBlamedIn source token.position (some token.value) := by
  obtain ⟨before, after, rfl, hposition, _⟩ := h
  refine ⟨before, spelling (token :: next) ++ after, List.append_assoc _ _ _, hposition, ?_⟩
  rintro found ⟨⟩
  rw [spelling_cons, List.append_assoc]
  exact List.prefix_append _ _

/-- The end of placed tokens is a true position when the place of no tokens is one. -/
theorem PlacedIn.isBlamedIn_endPosition {source : Text} {tokens : List Token} {origin : Position}
    (h : PlacedIn source tokens) (horigin : IsBlamedIn source origin none) :
    IsBlamedIn source (endPosition tokens origin) none := by
  rcases List.eq_nil_or_concat tokens with rfl | ⟨front, last, rfl⟩
  · exact horigin
  · rw [List.concat_eq_append] at h ⊢
    have hlast : PlacedIn source [last] := h.of_isInfix (List.suffix_append _ _).isInfix
    obtain ⟨before, after, rfl, hposition, _⟩ := hlast
    refine ⟨before ++ last.value, after, by simp, ?_, by simp⟩
    rw [Position.advanceText_append, ← hposition]
    simp [endPosition, Token.endPosition]

/-- A text that has no tokens is blamed where it stands in the source. -/
theorem Excerpt.IsPlacedIn.isBlamedIn {source text : Text} {origin : Position}
    {config : LexerConfig} {error : LexError} (hplaced : Excerpt.IsPlacedIn source ⟨text, origin⟩)
    (h : tokensOf config text origin = .error error) :
    IsBlamedIn source error.position error.fault.found? := by
  obtain ⟨before, after, rfl, rfl⟩ := hplaced
  obtain ⟨front, back, rfl, hposition, hfound⟩ := exists_of_tokensOf_eq_error h
  refine ⟨before ++ front, back ++ after, by simp, ?_, ?_⟩
  · rw [hposition, Position.advanceText_append]
  · intro found hsome
    exact (hfound found hsome).trans (List.prefix_append _ _)

/-- All errors that this one wraps have its position. -/
def ParseError.HasOnePosition (error : ParseError) : Prop :=
  ∀ cause ∈ error.chain, cause.position = error.position

/-- An error without frames has one position. -/
theorem ParseError.hasOnePosition_leaf (fault : ParseFault) (position : Position) :
    (leaf fault position).HasOnePosition :=
  List.forall_mem_singleton.mpr rfl

/-- A frame is put around an error with its position. -/
theorem ParseError.HasOnePosition.within {error : ParseError} (h : error.HasOnePosition)
    (frame : Frame) : (error.within frame).HasOnePosition :=
  List.forall_mem_cons.mpr ⟨rfl, h⟩

/-- The setting in which the tokens stand in the source, and errors blame true positions of it, the
same on all their levels. -/
def Setting.placed (source : Text) : Setting where
  scope region rest := PlacedIn source rest ∧ IsBlamedIn source region.finish none
  admits error := IsBlamedIn source error.position error.fault.found? ∧ error.HasOnePosition
  scope_append hscope := ⟨hscope.1.of_isInfix (List.suffix_append _ _).isInfix, hscope.2⟩
  scope_interior := by
    intro region token next tokens text origin hscope hinterior htokens
    have horigin := hscope.1.interior List.mem_cons_self hinterior
    have hplaced := PlacedIn.of_tokensOf horigin htokens
    obtain ⟨before, after, hsource, hposition⟩ := horigin
    refine ⟨hplaced, hplaced.isBlamedIn_endPosition ⟨before, text ++ after, ?_, hposition, by simp⟩⟩
    rw [hsource, List.append_assoc]
  admits_within h := ⟨h.1, h.2.within _⟩
  admits_expectedAt _ hscope := ⟨hscope.1.isBlamedIn, ParseError.hasOnePosition_leaf _ _⟩
  admits_unexpectedAt hscope := ⟨hscope.1.isBlamedIn, ParseError.hasOnePosition_leaf _ _⟩
  admits_emptyList _ hscope := ⟨hscope.1.isBlamedIn.bare, ParseError.hasOnePosition_leaf _ _⟩
  admits_emptyList_finish _ hscope := ⟨hscope.2, ParseError.hasOnePosition_leaf _ _⟩
  admits_unexpectedEnd _ hscope := ⟨hscope.2, ParseError.hasOnePosition_leaf _ _⟩
  admits_lexical hscope hinterior herror :=
    ⟨(hscope.1.interior List.mem_cons_self hinterior).isBlamedIn herror,
      ParseError.hasOnePosition_leaf _ _⟩

/-- The innermost error has the fault of the whole. -/
theorem ParseError.fault_rootCause (error : ParseError) : error.rootCause.fault = error.fault := by
  induction error with
  | leaf => rfl
  | framed _ _ _ ih => exact ih

/-- Tokens that stand in a source fail to be a stylesheet at a true position of it, which all levels
of the error have. -/
theorem isBlamedIn_of_parseTokens {source : Text} {tokens : List Token} {config : LexerConfig}
    {dialect : Dialect} {error : ParseError} (hplaced : PlacedIn source (splitSymbolRuns tokens))
    (h : parseTokens tokens config dialect = .failed error) :
    IsBlamedIn source error.position error.fault.found? ∧ error.HasOnePosition := by
  have hscope : (Setting.placed source).scope
      (.ofTokens config (splitSymbolRuns tokens) .start) (splitSymbolRuns tokens) :=
    ⟨hplaced, hplaced.isBlamedIn_endPosition ⟨[], source, rfl, rfl, by simp⟩⟩
  have hanswer := parseTokens_keeps (.placed source) tokens config dialect hscope
  rw [h] at hanswer
  exact hanswer

/-- A document that is no stylesheet is blamed at a true position of its text without the mark. All
errors of the chain have that position, and the text goes on with what is reported as found. -/
theorem position_eq_of_parse_failed {text : Text} {config : LexerConfig} {dialect : Dialect}
    {error : DocumentError} (hparse : parseDocument text config dialect = .failed error) :
    (∃ before after, withoutMark text = before ++ after ∧
      error.position = Position.start.advanceText before ∧
      ∀ found, error.found? = some found → found <+: after) ∧
    ∀ parseError, error = .grammatical parseError →
      ∀ cause ∈ parseError.chain, cause.position = error.position := by
  have hdocument : Excerpt.IsPlacedIn (withoutMark text) ⟨withoutMark text, .start⟩ :=
    ⟨[], [], by simp, rfl⟩
  rcases cases_of_parseDocument_failed hparse with
    ⟨cause, hcause, rfl⟩ | ⟨tokens, cause, htokens, hcause, rfl⟩
  · exact ⟨hdocument.isBlamedIn hcause, by simp⟩
  · obtain ⟨hblamed, hchain⟩ := isBlamedIn_of_parseTokens (.of_tokensOf hdocument htokens) hcause
    refine ⟨?_, ?_⟩
    · rw [DocumentError.found?, ParseError.fault_rootCause]
      exact hblamed
    · rintro parseError ⟨rfl⟩
      exact hchain

/-- A colon that is missing on the second line, inside a body. -/
theorem position_eq_of_parse_failed_colon :
    parseDocument "a\x7b\nb c\x7d".toList {} .css =
      .failed (.grammatical ((((ParseError.leaf (.expected "':'".toList ['c']) ⟨2, 3⟩).within
        (.step 1)).within .block).within (.step 1))) ∧
    ∃ before after, "a\x7b\nb c\x7d".toList = before ++ after ∧
      ⟨2, 3⟩ = Position.start.advanceText before ∧ ['c'] <+: after := by
  have hparse : parseDocument "a\x7b\nb c\x7d".toList {} .css =
      .failed (.grammatical ((((ParseError.leaf (.expected "':'".toList ['c']) ⟨2, 3⟩).within
        (.step 1)).within .block).within (.step 1))) := by
    decide +kernel
  obtain ⟨before, after, htext, hposition, hfound⟩ := (position_eq_of_parse_failed hparse).1
  exact ⟨hparse, before, after, htext, hposition, hfound ['c'] rfl⟩

end StyleSyntax
