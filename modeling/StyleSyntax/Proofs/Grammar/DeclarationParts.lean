import StyleSyntax.Proofs.Grammar.Checks
import StyleSyntax.Proofs.Grammar.SharedDeclarations
import StyleSyntax.Proofs.Parser.Cut

/-!
# The grammar of a declaration

A declaration of the plain language is a name, a colon, a value, perhaps a mark of importance, and
its end, with gaps between them. Its pieces carry the conditions on their tokens. Each is taken as
far as it goes: the name up to a token that is no unit, the value up to a semicolon, an exclamation
mark or the end. What is left behind a piece is therefore determined by the tokens, and with it the
piece.
-/

namespace StyleSyntax

/-- Tokens as written, with the position of the first. -/
def written (tokens : List Token) : Excerpt :=
  ⟨spelling tokens, nextPosition tokens .start⟩

/-- An excerpt of tokens that begin with a significant one is what they are as written. -/
theorem Excerpt.IsOf.eq_written {tokens : List Token} {excerpt : Excerpt}
    (h : excerpt.IsOf tokens) : excerpt = written tokens := by
  obtain ⟨first, more, rfl, -, rfl⟩ := h.begins
  rfl

namespace Grammar

open StyleSyntax.Parser

/-- A token that the value of a plain declaration may hold. -/
def isValueToken (token : Token) : Bool :=
  !token.isSemicolon && !token.isSymbol ['!'] && !token.isBraces

/-- A mark of importance with the gap before it. -/
structure MarkTokens where
  gap : List Token
  sign : Token
  between : List Token
  word : Token
  allTrivia_gap : AllTrivia gap
  isSymbol_sign : sign.isSymbol ['!']
  allTrivia_between : AllTrivia between
  isLiteral_word : word.isLiteral "important".toList

/-- The tokens of a mark in their order. -/
def MarkTokens.tokens (mark : MarkTokens) : List Token :=
  mark.gap ++ mark.sign :: (mark.between ++ [mark.word])

/-- A semicolon with the gap before it. -/
structure CloseTokens where
  gap : List Token
  semicolon : Token
  allTrivia_gap : AllTrivia gap
  isSemicolon : semicolon.isSemicolon

/-- The gap and the semicolon. -/
def CloseTokens.tokens (close : CloseTokens) : List Token :=
  close.gap ++ [close.semicolon]

/-- Units of which at least one is a literal. -/
structure IsIdentifier (name : List Token) : Prop where
  units : ∀ token ∈ name, isUnit token
  literal : ∃ token ∈ name, token.kind = .literal

/-- Tokens of a plain value, the first and the last of them significant. -/
structure IsValue (value : List Token) : Prop where
  begins : ∃ first more, value = first :: more ∧ first.isSignificant
  ends : EndsSignificant value
  plain : ∀ token ∈ value, isValueToken token

/-- A declaration: a name, a colon and a value, perhaps a mark of importance and perhaps a
semicolon. -/
structure DeclarationTokens where
  name : List Token
  beforeColon : List Token
  colon : Token
  afterColon : List Token
  value : List Token
  mark : Option MarkTokens
  close : Option CloseTokens
  isIdentifier_name : IsIdentifier name
  allTrivia_beforeColon : AllTrivia beforeColon
  isSymbol_colon : colon.isSymbol [':']
  allTrivia_afterColon : AllTrivia afterColon
  isValue_value : IsValue value

namespace DeclarationTokens

/-- The tokens of the mark, if there is one. -/
def markTokens (d : DeclarationTokens) : List Token :=
  d.mark.elim [] MarkTokens.tokens

/-- The tokens of the end, if the semicolon is not left out. -/
def closeTokens (d : DeclarationTokens) : List Token :=
  d.close.elim [] CloseTokens.tokens

/-- The tokens of a declaration in their order. -/
def tokens (d : DeclarationTokens) : List Token :=
  d.name ++ (d.beforeColon ++ d.colon ::
    (d.afterColon ++ (d.value ++ (d.markTokens ++ d.closeTokens))))

/-- The property and the value as written, whether there is a mark, and the text of the whole. -/
def node (d : DeclarationTokens) : Node :=
  .leaf (.declaration
    ⟨.css, written d.name, written d.value, d.mark.isSome, spelling d.tokens⟩)

end DeclarationTokens

variable {config : LexerConfig} {region : Region} {rest next later : List Token} {token : Token}

/-! ## Names -/

/-- A run of tokens that pass a test ends before one that does not. -/
theorem span_append {test : Token → Bool} {run back : List Token}
    (hrun : ∀ token ∈ run, test token) (hback : ∀ token ∈ back.head?, test token = false) :
    (run ++ back).takeWhile test = run ∧ (run ++ back).dropWhile test = back := by
  rw [List.takeWhile_append_of_pos hrun, List.dropWhile_append_of_pos hrun]
  cases back with
  | nil => simp
  | cons token back =>
    have htoken := hback token rfl
    simp [htoken]

/-- Tokens are a run of some that pass a test, and what stands behind it. -/
theorem exists_span (test : Token → Bool) (tokens : List Token) :
    ∃ run back, tokens = run ++ back ∧ (∀ token ∈ run, test token) ∧
      ∀ token ∈ back.head?, test token = false := by
  refine ⟨tokens.takeWhile test, tokens.dropWhile test, List.takeWhile_append_dropWhile.symm,
    fun token htoken => List.mem_takeWhile_imp htoken, fun token htoken => ?_⟩
  have hnot := List.head?_dropWhile_not test tokens
  rw [Option.mem_def.mp htoken] at hnot
  exact hnot

/-- An identifier of the plain language is the run of units. -/
theorem identifierLength_css (tokens : List Token) :
    identifierLength .css tokens = (tokens.takeWhile isUnit).length := by
  induction tokens with
  | nil => rfl
  | cons token tokens ih =>
    cases hunit : isUnit token with
    | true =>
      rw [identifierLength_cons_of_isUnit .css hunit, ih, List.takeWhile_cons_of_pos hunit,
        List.length_cons]
    | false =>
      rw [identifierLength_css_eq_zero hunit, List.takeWhile_cons_of_neg (by simp [hunit]),
        List.length_nil]

/-- A sign other than the dash is no unit. -/
theorem isUnit_eq_false_of_isSymbol {c : Char} (h : token.isSymbol [c]) (hc : c ≠ '-') :
    isUnit token = false := by
  rw [Token.isSymbol, Bool.and_eq_true, beq_iff_eq, beq_iff_eq] at h
  simp [isUnit, isName, isDashes, h.1, h.2, hc]

/-- A unit is no semicolon. -/
theorem isSemicolon_of_isUnit (h : isUnit token) : token.isSemicolon = false := by
  rw [← Bool.not_eq_true]
  intro hsemicolon
  rw [isUnit_eq_false_of_isSymbol hsemicolon (by decide)] at h
  cases h

/-- An identifier begins with a unit. -/
theorem IsIdentifier.exists_cons {name : List Token} (h : IsIdentifier name) :
    ∃ first more, name = first :: more ∧ isUnit first := by
  obtain ⟨token, htoken, -⟩ := h.literal
  obtain ⟨first, more, rfl⟩ := List.exists_cons_of_ne_nil (List.ne_nil_of_mem htoken)
  exact ⟨first, more, rfl, h.units first List.mem_cons_self⟩

/-- The run of units behind the gap is read if it is an identifier. -/
theorem identifier_css_run_eq_ok {property : Excerpt} :
    (identifier .css).run region rest = ⟨.ok property, next⟩ ↔
      ∃ name, dropTrivia rest = name ++ next ∧ IsIdentifier name ∧
        (∀ token ∈ next.head?, isUnit token = false) ∧ property = written name := by
  have hrun {name next : List Token} (hname : ∀ token ∈ name, isUnit token)
      (hnext : ∀ token ∈ next.head?, isUnit token = false)
      (hrest : dropTrivia rest = name ++ next) :
      (identifier .css).run region rest = if name.any fun token => token.kind == .literal then
        ⟨.ok ⟨spelling name, nextPosition (name ++ next) region.finish⟩, next⟩
      else ⟨.failed (region.expected "identifier".toList rest), rest⟩ := by
    unfold identifier
    dsimp only
    rw [hrest, identifierLength_css, (span_append hname hnext).1, List.take_left, List.drop_left]
  have hwritten {name : List Token} (hname : IsIdentifier name) (next : List Token) :
      ⟨spelling name, nextPosition (name ++ next) region.finish⟩ = written name := by
    obtain ⟨first, more, rfl, -⟩ := hname.exists_cons
    rfl
  constructor
  · intro h
    obtain ⟨name, back, hrest, hname, hback⟩ := exists_span isUnit (dropTrivia rest)
    rw [hrun hname hback hrest] at h
    split_ifs at h with hliteral
    · have hidentifier : IsIdentifier name := ⟨hname, by simpa using hliteral⟩
      cases h
      exact ⟨name, hrest, hidentifier, hback, hwritten hidentifier next⟩
    · cases h
  · rintro ⟨name, hrest, hname, hnext, rfl⟩
    rw [hrun hname.units hnext hrest, if_pos (by simpa using hname.literal), hwritten hname]

/-! ## Values -/

/-- A value of the plain language is the run of tokens that it may hold, broken by braces. -/
theorem valueExtent_css (previous : Option Token) (tokens : List Token) :
    valueExtent (·.isSymbol ['!']) (valueAllows .css) previous tokens =
      ((tokens.takeWhile isValueToken).length,
        (tokens.dropWhile isValueToken).head?.any Token.isBraces) := by
  induction tokens generalizing previous with
  | nil => rfl
  | cons token tokens ih =>
    rw [valueExtent]
    have hallows : valueAllows .css previous token = !token.isBraces := by simp [valueAllows]
    cases hstop : token.isSemicolon || token.isSymbol ['!'] with
    | true =>
      have hvalue : isValueToken token = false := by
        rw [isValueToken, ← Bool.not_or, hstop]
        rfl
      have hbraces : token.isBraces = false := by
        rw [← Bool.not_eq_true]
        intro hbraces
        have hkind : token.kind ≠ .symbol := kind_ne_of_isBraces hbraces rfl
        simp [Token.isSemicolon, Token.isSymbol, hkind] at hstop
      simp [hvalue, hbraces]
    | false =>
      have hvalue : isValueToken token = !token.isBraces := by
        rw [isValueToken, ← Bool.not_or, hstop]
        rfl
      rw [if_neg Bool.false_ne_true, hallows, ih]
      cases hbraces : token.isBraces <;> simp [hvalue, hbraces]

/-- Trivia may stand in a value. -/
theorem isValueToken_of_isTrivia {token : Token} (h : token.isTrivia) : isValueToken token := by
  obtain ⟨kind, value, position⟩ := token
  cases kind <;> first | rfl | cases h

/-- Behind a value come a semicolon, an exclamation mark or the end, perhaps after a gap. -/
def EndsValue (next : List Token) : Prop :=
  ∀ token ∈ firstSignificant next, token.isSemicolon ∨ token.isSymbol ['!']

/-- Tokens are a part without trivia at its end, and a gap. -/
theorem exists_endsTrimmed (tokens : List Token) :
    ∃ used gap, tokens = used ++ gap ∧ EndsTrimmed used ∧ AllTrivia gap := by
  refine ⟨tokens.rdropWhile Token.isTrivia, tokens.rtakeWhile Token.isTrivia,
    List.rdropWhile_append_rtakeWhile.symm, ?_, fun token htoken => List.mem_rtakeWhile_imp htoken⟩
  by_cases hnil : tokens.rdropWhile Token.isTrivia = []
  · exact .inl hnil
  · have hlast := List.rdropWhile_last_not Token.isTrivia tokens hnil
    refine .inr ⟨_, _, (List.dropLast_concat_getLast hnil).symm, ?_⟩
    simpa [Token.isSignificant] using hlast

/-- What is left behind a value begins with a token that it may not hold, if the gap is left out. -/
theorem EndsValue.dropTrivia {next : List Token} (h : EndsValue next) :
    ∀ token ∈ (dropTrivia next).head?, isValueToken token = false ∧ token.isBraces = false := by
  rw [← firstSignificant_eq_head?]
  intro token htoken
  have hkind : token.kind = .symbol := by
    rcases h token htoken with hsign | hsign <;>
      exact beq_iff_eq.mp ((Bool.and_eq_true _ _).mp hsign).1
  refine ⟨?_, by simp [Token.isBraces, hkind, TokenKind.isBraces]⟩
  rcases h token htoken with hsign | hsign <;> simp [isValueToken, hsign]

/-- The tokens up to a token that a value may not hold are read, unless that token is braces. The
gap before it is left. -/
theorem declarationValue_css_run {used gap back : List Token} (hused : EndsTrimmed used)
    (hgap : AllTrivia gap) (hplain : ∀ token ∈ used, isValueToken token)
    (hback : ∀ token ∈ back.head?, isValueToken token = false) (region : Region) :
    (declarationValue .css).run region (used ++ (gap ++ back)) =
      if back.head?.any Token.isBraces then
        ⟨.failed (region.expected (quotedName [';']) back), back⟩
      else if used.length = 0 then ⟨.failed (region.expected "value".toList back), back⟩
      else ⟨.ok (), gap ++ back⟩ := by
  have hwindow : ∀ token ∈ used ++ gap, isValueToken token :=
    List.forall_mem_append.mpr
      ⟨hplain, fun token htoken => isValueToken_of_isTrivia (hgap token htoken)⟩
  obtain ⟨htake, hdrop⟩ := span_append hwindow hback
  unfold declarationValue value
  dsimp only
  rw [valueExtent_css, ← List.append_assoc, htake, hdrop, List.take_left, List.drop_left,
    significantLength_append hused hgap, List.append_assoc, List.drop_left]

/-- A value ends behind a gap before the first token that it cannot hold, if that is no braces. -/
theorem endsValue_of_gap {gap back : List Token} (hgap : AllTrivia gap)
    (hback : ∀ token ∈ back.head?, isValueToken token = false)
    (hbraces : back.head?.any Token.isBraces = false) : EndsValue (gap ++ back) := by
  intro token htoken
  cases back with
  | nil =>
    rw [firstSignificant_eq_head?, dropTrivia_append_of_allTrivia hgap] at htoken
    cases htoken
  | cons first back =>
    have hfirst := hback first rfl
    have hsignificant : first.isSignificant := by
      rw [Token.isSignificant, Bool.not_eq_true', ← Bool.not_eq_true]
      intro htrivia
      rw [isValueToken_of_isTrivia htrivia] at hfirst
      cases hfirst
    rw [firstSignificant_eq_head?, dropTrivia_gap hgap hsignificant] at htoken
    cases htoken
    rw [List.head?_cons, Option.any_some] at hbraces
    rw [isValueToken, hbraces] at hfirst
    cases hsemicolon : token.isSemicolon with
    | true => exact .inl rfl
    | false => exact .inr (by simpa [hsemicolon] using hfirst)

/-- The tokens up to the end of a value are read, without the gap before it. -/
theorem declarationValue_css_run_eq_ok :
    (declarationValue .css).run region rest = ⟨.ok (), next⟩ ↔
      ∃ used, rest = used ++ next ∧ EndsSignificant used ∧ (∀ token ∈ used, isValueToken token) ∧
        EndsValue next := by
  constructor
  · intro h
    obtain ⟨window, back, rfl, hwindow, hback⟩ := exists_span isValueToken rest
    obtain ⟨used, gap, rfl, hused, hgap⟩ := exists_endsTrimmed window
    have hplain := fun token htoken => hwindow token (List.mem_append_left gap htoken)
    rw [List.append_assoc, declarationValue_css_run hused hgap hplain hback] at h
    split_ifs at h with hbraces hnone
    · cases h
    · cases h
    · cases h
      rw [Bool.not_eq_true] at hbraces
      exact ⟨used, List.append_assoc _ _ _, hused.resolve_left (by simpa using hnone), hplain,
        endsValue_of_gap hgap hback hbraces⟩
  · rintro ⟨used, rfl, hused, hplain, hends⟩
    obtain ⟨gap, hnext, hgap⟩ := exists_gap next
    have hback := hends.dropTrivia
    have hbraces : (dropTrivia next).head?.any Token.isBraces = false := by
      cases hhead : (dropTrivia next).head? with
      | none => rfl
      | some token => exact (hback token hhead).2
    rw [hnext, declarationValue_css_run (.inr hused) hgap hplain
      fun token htoken => (hback token htoken).1, hbraces, if_neg Bool.false_ne_true,
      if_neg (by simpa using hused.ne_nil)]

/-- Nothing of a value is dropped with the gap before it. -/
theorem IsValue.dropTrivia_append {value : List Token} (h : IsValue value) {gap : List Token}
    (hgap : AllTrivia gap) (back : List Token) :
    dropTrivia (gap ++ (value ++ back)) = value ++ back := by
  obtain ⟨first, more, rfl, hfirst⟩ := h.begins
  exact dropTrivia_gap hgap hfirst _

/-- A value is read as written, behind a gap. -/
theorem excerpt_declarationValue_css_run_eq_ok {val : Excerpt} :
    (excerpt (declarationValue .css)).run region rest = ⟨.ok val, next⟩ ↔
      ∃ gap value, rest = gap ++ (value ++ next) ∧ AllTrivia gap ∧ IsValue value ∧
        EndsValue next ∧ val = written value := by
  unfold excerpt
  rw [map_run_eq_ok]
  constructor
  · rintro ⟨⟨_, source⟩, hcaptured, rfl⟩
    obtain ⟨hrun, hsource⟩ := capture_run_eq_ok.mp hcaptured
    obtain ⟨used, rfl, hused, hplain, hends⟩ := declarationValue_css_run_eq_ok.mp hrun
    rw [consumed_append] at hsource
    have hof := excerptOf_isOf hused (significantPosition (used ++ next) region.finish)
    rw [← hsource] at hof
    obtain ⟨gap, hgap, htrivia⟩ := exists_gap used
    have hbegins : ∃ first more, dropTrivia used = first :: more ∧ first.isSignificant := by
      obtain ⟨first, more, hfirst, hsignificant, -⟩ := hof.begins
      exact ⟨first, more, hfirst, hsignificant⟩
    refine ⟨gap, dropTrivia used, ?_, htrivia, ⟨hbegins, hof.ends, ?_⟩, hends, hof.eq_written⟩
    · rw [← List.append_assoc, ← hgap]
    · exact fun token htoken => hplain token ((List.dropWhile_sublist _).subset htoken)
  · rintro ⟨gap, value, rfl, hgap, hvalue, hends, rfl⟩
    have hused : EndsSignificant (gap ++ value) := hvalue.ends.append_left gap
    refine ⟨⟨(), written value⟩, capture_run_eq_ok.mpr ⟨?_, ?_⟩, rfl⟩
    · refine declarationValue_css_run_eq_ok.mpr ⟨gap ++ value, (List.append_assoc _ _ _).symm,
        hused, List.forall_mem_append.mpr ⟨fun token htoken => ?_, hvalue.plain⟩, hends⟩
      exact isValueToken_of_isTrivia (hgap token htoken)
    · have hdropped := hvalue.dropTrivia_append hgap []
      rw [List.append_nil] at hdropped
      have hof := excerptOf_isOf hused (significantPosition (gap ++ (value ++ next)) region.finish)
      rw [hdropped] at hof
      rw [← List.append_assoc, consumed_append, List.append_assoc]
      exact hof.eq_written.symm

/-! ## Marks and ends -/

/-- A mark of importance is read from its tokens. -/
theorem importantMark_run_eq_ok (hlexed : IsLexed config rest) {word : Token} :
    importantMark.run region rest = ⟨.ok word, next⟩ ↔
      ∃ mark : MarkTokens, rest = mark.tokens ++ next ∧ word = mark.word := by
  unfold importantMark
  rw [attempt_run_eq_ok, bind_run_eq_ok]
  constructor
  · rintro ⟨sign, middle, hsign, hword⟩
    obtain ⟨-, sign, hrest, hkind⟩ := (symbol_run_eq_ok_of_isLexed hlexed).mp hsign
    obtain ⟨hmiddle, hword⟩ := tokenWhere_run_eq_ok.mp (step_run_eq_ok.mp hword)
    obtain ⟨gap, hgap, htrivia⟩ := exists_gap rest
    obtain ⟨between, hbetween, htrivia'⟩ := exists_gap middle
    refine ⟨⟨gap, sign, between, word, htrivia, hkind, htrivia', hword⟩, ?_, rfl⟩
    rw [hmiddle] at hbetween
    rw [hrest, hbetween] at hgap
    simpa [MarkTokens.tokens] using hgap
  · rintro ⟨mark, rfl, rfl⟩
    have hword : mark.word.isSignificant := by
      have hkind := ((Bool.and_eq_true _ _).mp mark.isLiteral_word).1
      exact isSignificant_of_kind (by rw [beq_iff_eq.mp hkind]; rfl)
    refine ⟨['!'], mark.between ++ mark.word :: next,
      (symbol_run_eq_ok_of_isLexed hlexed).mpr ⟨rfl, mark.sign, ?_, mark.isSymbol_sign⟩,
      step_run_eq_ok.mpr (tokenWhere_run_eq_ok.mpr ⟨?_, mark.isLiteral_word⟩)⟩
    · rw [MarkTokens.tokens, List.append_assoc, dropTrivia_append_of_allTrivia mark.allTrivia_gap,
        List.cons_append, dropTrivia_cons (isSignificant_of_isSymbol mark.isSymbol_sign),
        List.append_assoc, List.singleton_append]
    · exact dropTrivia_gap mark.allTrivia_between hword next

/-- The end of a declaration is read from its tokens, or from none if only trivia is left. -/
theorem statementEnd_run_eq_ok (hlexed : IsLexed config rest) :
    statementEnd.run region rest = ⟨.ok (), next⟩ ↔
      ∃ close : Option CloseTokens, rest = close.elim [] CloseTokens.tokens ++ next ∧
        (close.isSome ∨ AllTrivia next) := by
  constructor
  · intro h
    rcases statementEnd_run_cases h with hsign | ⟨rfl, htrivia⟩
    · obtain ⟨-, sign, hrest, hsemicolon⟩ := (symbol_run_eq_ok_of_isLexed hlexed).mp hsign
      obtain ⟨gap, hgap, htrivia⟩ := exists_gap rest
      refine ⟨some ⟨gap, sign, htrivia, hsemicolon⟩, ?_, .inl rfl⟩
      rw [hrest] at hgap
      simpa [CloseTokens.tokens] using hgap
    · exact ⟨none, rfl, .inr htrivia⟩
  · rintro ⟨close, rfl, hclose⟩
    cases close with
    | some close =>
      refine firstOf_cons_run_eq_ok.mpr (.inl ⟨rfl, map_run_eq_ok.mpr ⟨[';'], ?_, rfl⟩⟩)
      refine (symbol_run_eq_ok_of_isLexed hlexed).mpr ⟨rfl, close.semicolon, ?_, close.isSemicolon⟩
      rw [Option.elim_some, CloseTokens.tokens, List.append_assoc, List.singleton_append]
      exact dropTrivia_gap close.allTrivia_gap (isSignificant_of_isSymbol close.isSemicolon) next
    | none =>
      have htrivia : AllTrivia next := by simpa using hclose
      have hnone := firstSignificant_eq_none.mpr htrivia
      refine firstOf_cons_run_eq_ok.mpr (.inr ⟨fun _ => ?_, ?_⟩)
      · exact (symbol_refuses_of_any hlexed (by simp [hnone]) []).map _
      · exact firstOf_cons_run_eq_ok.mpr (.inl ⟨rfl, endOfInput_run_eq_ok.mpr ⟨rfl, htrivia⟩⟩)

/-- A mark that may be left out is read from its tokens, or from none. -/
theorem optional_importantMark_run {mark : Option MarkTokens}
    (hlexed : IsLexed config (mark.elim [] MarkTokens.tokens ++ next))
    (hnext : (firstSignificant next).any (·.isSymbol ['!']) = false) (region : Region) :
    importantMark.optional.run region (mark.elim [] MarkTokens.tokens ++ next) =
      ⟨.ok (mark.map MarkTokens.word), next⟩ := by
  cases mark with
  | some mark =>
    refine optional_run_eq_ok.mpr (.inl ⟨mark.word, rfl, rfl, ?_⟩)
    exact (importantMark_run_eq_ok hlexed).mpr ⟨mark, rfl, rfl⟩
  | none =>
    exact optional_run_of_refuses ((symbol_refuses_of_any hlexed hnext []).bind _).attempt

/-- What is read as a mark that may be left out is one or nothing. -/
theorem exists_mark_of_optional_run (hlexed : IsLexed config rest) {found : Option Token}
    (h : importantMark.optional.run region rest = ⟨.ok found, next⟩) :
    ∃ mark : Option MarkTokens, rest = mark.elim [] MarkTokens.tokens ++ next ∧
      found = mark.map MarkTokens.word := by
  rcases optional_run_eq_ok.mp h with ⟨word, rfl, -, hrun⟩ | ⟨rfl, rfl, -⟩
  · obtain ⟨mark, hrest, rfl⟩ := (importantMark_run_eq_ok hlexed).mp hrun
    exact ⟨some mark, hrest, rfl⟩
  · exact ⟨none, rfl, rfl⟩

/-- Where a declaration may end no exclamation mark stands, so a value may end there as well. -/
theorem endsValue_of_close {close : Option CloseTokens} (h : close.isSome ∨ AllTrivia next) :
    (firstSignificant (close.elim [] CloseTokens.tokens ++ next)).any (·.isSymbol ['!']) = false ∧
      EndsValue (close.elim [] CloseTokens.tokens ++ next) := by
  unfold EndsValue
  rw [firstSignificant_eq_head?]
  cases close with
  | some close =>
    have hsignificant : close.semicolon.isSignificant := isSignificant_of_isSymbol close.isSemicolon
    rw [Option.elim_some, CloseTokens.tokens, List.append_assoc, List.singleton_append,
      dropTrivia_gap close.allTrivia_gap hsignificant, List.head?_cons, Option.any_some]
    have hsemicolon := close.isSemicolon
    rw [Token.isSemicolon, Token.isSymbol, Bool.and_eq_true, beq_iff_eq, beq_iff_eq] at hsemicolon
    refine ⟨by simp [Token.isSymbol, hsemicolon.2], ?_⟩
    rintro token ⟨rfl⟩
    exact .inl close.isSemicolon
  | none =>
    have htrivia : AllTrivia next := by simpa using h
    rw [Option.elim_none, List.nil_append, dropTrivia, List.dropWhile_eq_nil_iff.mpr htrivia]
    exact ⟨rfl, by simp⟩

/-- A value may end before a mark of importance. -/
theorem endsValue_of_mark {mark : Option MarkTokens} (h : EndsValue next) :
    EndsValue (mark.elim [] MarkTokens.tokens ++ next) := by
  cases mark with
  | some mark =>
    unfold EndsValue
    rw [firstSignificant_eq_head?, Option.elim_some, MarkTokens.tokens, List.append_assoc,
      List.cons_append, dropTrivia_gap mark.allTrivia_gap
        (isSignificant_of_isSymbol mark.isSymbol_sign)]
    rintro token ⟨rfl⟩
    exact .inr mark.isSymbol_sign
  | none => exact h

/-! ## Declarations -/

namespace DeclarationTokens

variable (d : DeclarationTokens)

/-- The pieces of a declaration with what stands behind it. -/
theorem tokens_append (next : List Token) :
    d.tokens ++ next = d.name ++ (d.beforeColon ++ d.colon ::
      (d.afterColon ++ (d.value ++ (d.markTokens ++ (d.closeTokens ++ next))))) := by
  simp [tokens]

/-- A declaration begins with a unit. -/
theorem exists_cons : ∃ first more, d.tokens = first :: more ∧ isUnit first := by
  obtain ⟨first, more, hname, hunit⟩ := d.isIdentifier_name.exists_cons
  exact ⟨first, _, by rw [tokens, hname, List.cons_append], hunit⟩

/-- The text of a declaration does not depend on the gap before it. -/
theorem text_excerptOf_consumed {gap : List Token} (hgap : AllTrivia gap) (next : List Token)
    (fallback : Position) :
    (excerptOf (consumed (gap ++ (d.tokens ++ next)) next) fallback).text = spelling d.tokens := by
  obtain ⟨first, more, htokens, hunit⟩ := d.exists_cons
  rw [← List.append_assoc, consumed_append, excerptOf, trimmedSpelling, htokens,
    dropTrivia_gap hgap (isSignificant_of_unit hunit)]

/-- No unit stands behind the name. -/
theorem isUnit_behind_name (back : List Token) :
    ∀ token ∈ (d.beforeColon ++ d.colon :: back).head?, isUnit token = false := by
  intro token htoken
  cases hbefore : d.beforeColon with
  | nil =>
    rw [hbefore] at htoken
    cases htoken
    exact isUnit_eq_false_of_isSymbol d.isSymbol_colon (by decide)
  | cons _ more =>
    rw [hbefore] at htoken
    cases htoken
    have htrivia : token.isTrivia := d.allTrivia_beforeColon token (by simp [hbefore])
    rw [← Bool.not_eq_true]
    intro hunit
    rw [isTrivia_eq_false_of_significant (isSignificant_of_unit hunit)] at htrivia
    cases htrivia

end DeclarationTokens

/-- What is read as a declaration consists of a gap and the tokens of one. -/
theorem exists_declarationTokens_of_run (hlexed : IsLexed config rest) {node : Node}
    (h : (declaration .css).run region rest = ⟨.ok node, next⟩) :
    ∃ (gap : List Token) (d : DeclarationTokens), rest = gap ++ (d.tokens ++ next) ∧
      AllTrivia gap ∧ (d.close.isSome ∨ AllTrivia next) ∧ node = d.node := by
  obtain ⟨property, colon, val, mark, m₁, m₂, m₃, m₄, hproperty, hcolon, hvalue, hmark, hend,
    rfl⟩ := declaration_run_eq_ok.mp h
  obtain ⟨name, hrest, hname, -, rfl⟩ := identifier_css_run_eq_ok.mp hproperty
  obtain ⟨gap, hgap, htrivia⟩ := exists_gap rest
  rw [hrest] at hgap
  subst hgap
  have hlexed₁ : IsLexed config m₁ := hlexed.of_append.of_append
  obtain ⟨-, sign, hm₁, hsign⟩ := (symbol_run_eq_ok_of_isLexed hlexed₁).mp hcolon
  obtain ⟨before, hbefore, hbeforeTrivia⟩ := exists_gap m₁
  rw [hm₁] at hbefore
  subst hbefore
  have hlexed₂ : IsLexed config m₂ := hlexed₁.of_isInfix ⟨before ++ [sign], [], by simp⟩
  obtain ⟨after, value, rfl, hafter, hval, -, rfl⟩ :=
    excerpt_declarationValue_css_run_eq_ok.mp hvalue
  have hlexed₃ : IsLexed config m₃ := hlexed₂.of_append.of_append
  obtain ⟨marked, rfl, rfl⟩ := exists_mark_of_optional_run hlexed₃ hmark
  obtain ⟨close, rfl, hclose⟩ := (statementEnd_run_eq_ok hlexed₃.of_append).mp hend
  let d : DeclarationTokens := ⟨name, before, sign, after, value, marked, close, hname,
    hbeforeTrivia, hsign, hafter, hval⟩
  have hrest : name ++ (before ++ sign :: (after ++ (value ++
      (marked.elim [] MarkTokens.tokens ++ (close.elim [] CloseTokens.tokens ++ next))))) =
      d.tokens ++ next := (d.tokens_append next).symm
  refine ⟨gap, d, by rw [hrest], htrivia, hclose, ?_⟩
  rw [hrest, d.text_excerptOf_consumed htrivia, Option.isSome_map]
  rfl

/-- The tokens of a declaration are read as one behind a gap, where it may end. -/
theorem declaration_css_run_tokens {gap : List Token} {d : DeclarationTokens}
    (hlexed : IsLexed config (gap ++ (d.tokens ++ next))) (hgap : AllTrivia gap)
    (hclose : d.close.isSome ∨ AllTrivia next) (region : Region) :
    (declaration .css).run region (gap ++ (d.tokens ++ next)) = ⟨.ok d.node, next⟩ := by
  obtain ⟨hmark, hend⟩ := endsValue_of_close hclose
  obtain ⟨first, more, htokens, hunit⟩ := d.exists_cons
  have hname : dropTrivia (gap ++ (d.tokens ++ next)) = d.tokens ++ next := by
    rw [htokens]
    exact dropTrivia_gap hgap (isSignificant_of_unit hunit) _
  have hlexed₁ := hlexed.of_append
  rw [d.tokens_append] at hlexed₁
  have hlexed₂ := hlexed₁.of_append
  have hlater := hlexed₂.of_append.of_isInfix (List.suffix_cons _ _).isInfix
  have hlexed₃ := hlater.of_append.of_append
  refine declaration_run_eq_ok.mpr ⟨written d.name, [':'], written d.value,
    d.mark.map MarkTokens.word, _, _, _, _,
    identifier_css_run_eq_ok.mpr
      ⟨d.name, hname.trans (d.tokens_append next), d.isIdentifier_name, d.isUnit_behind_name _,
        rfl⟩,
    (symbol_run_eq_ok_of_isLexed hlexed₂).mpr ⟨rfl, d.colon, ?_, d.isSymbol_colon⟩,
    excerpt_declarationValue_css_run_eq_ok.mpr ⟨d.afterColon, d.value, rfl,
      d.allTrivia_afterColon, d.isValue_value, endsValue_of_mark hend, rfl⟩,
    optional_importantMark_run hlexed₃ hmark region,
    (statementEnd_run_eq_ok hlexed₃.of_append).mpr ⟨d.close, rfl, hclose⟩, ?_⟩
  · exact dropTrivia_gap d.allTrivia_beforeColon (isSignificant_of_isSymbol d.isSymbol_colon) _
  · rw [d.text_excerptOf_consumed hgap, Option.isSome_map]
    rfl

/-- A declaration is read from its tokens behind a gap. -/
theorem declaration_css_run_eq_ok (hlexed : IsLexed config rest) {node : Node} :
    (declaration .css).run region rest = ⟨.ok node, next⟩ ↔
      ∃ (gap : List Token) (d : DeclarationTokens), rest = gap ++ (d.tokens ++ next) ∧
        AllTrivia gap ∧ (d.close.isSome ∨ AllTrivia next) ∧ node = d.node := by
  refine ⟨exists_declarationTokens_of_run hlexed, ?_⟩
  rintro ⟨gap, d, rfl, hgap, hclose, rfl⟩
  exact declaration_css_run_tokens hlexed hgap hclose region

/-! ## Uniqueness -/

/-- A gap and the significant token behind it are determined by the tokens. -/
theorem gap_append_cons_inj {gap gap' more more' : List Token} {first first' : Token}
    (hgap : AllTrivia gap) (hgap' : AllTrivia gap') (hfirst : first.isSignificant)
    (hfirst' : first'.isSignificant) (h : gap ++ first :: more = gap' ++ first' :: more') :
    gap = gap' ∧ first = first' ∧ more = more' := by
  have htake := takeWhile_gap hgap hfirst more
  have hdrop := dropTrivia_gap hgap hfirst more
  rw [h, takeWhile_gap hgap' hfirst'] at htake
  rw [h, dropTrivia_gap hgap' hfirst'] at hdrop
  obtain ⟨rfl, rfl⟩ := List.cons.inj hdrop
  exact ⟨htake.symm, rfl, rfl⟩

/-- A mark of importance is determined by the tokens that begin with it. -/
theorem MarkTokens.eq_of_append_eq {mark mark' : MarkTokens} {more more' : List Token}
    (h : mark.tokens ++ more = mark'.tokens ++ more') : mark = mark' ∧ more = more' := by
  obtain ⟨gap, sign, between, word, hgap, hsign, hbetween, hword⟩ := mark
  obtain ⟨gap', sign', between', word', hgap', hsign', hbetween', hword'⟩ := mark'
  have hsignificant {word : Token} (hword : word.isLiteral "important".toList) :
      word.isSignificant := by
    have hkind := ((Bool.and_eq_true _ _).mp hword).1
    exact isSignificant_of_kind (by rw [beq_iff_eq.mp hkind]; rfl)
  simp only [tokens, List.append_assoc, List.cons_append, List.nil_append] at h
  obtain ⟨rfl, rfl, hlater⟩ := gap_append_cons_inj hgap hgap' (isSignificant_of_isSymbol hsign)
    (isSignificant_of_isSymbol hsign') h
  obtain ⟨rfl, rfl, rfl⟩ := gap_append_cons_inj hbetween hbetween' (hsignificant hword)
    (hsignificant hword') hlater
  exact ⟨rfl, rfl⟩

/-- The end of a declaration is determined by its tokens. -/
theorem CloseTokens.eq_of_tokens_eq {close close' : CloseTokens}
    (h : close.tokens = close'.tokens) : close = close' := by
  obtain ⟨gap, sign, hgap, hsign⟩ := close
  obtain ⟨gap', sign', hgap', hsign'⟩ := close'
  obtain ⟨rfl, rfl, -⟩ := gap_append_cons_inj hgap hgap' (isSignificant_of_isSymbol hsign)
    (isSignificant_of_isSymbol hsign') h
  rfl

/-- No mark of importance begins where a declaration ends. -/
theorem MarkTokens.append_ne_close (mark : MarkTokens) (more : List Token)
    (close : Option CloseTokens) : mark.tokens ++ more ≠ close.elim [] CloseTokens.tokens := by
  intro h
  have hnone := (@endsValue_of_close [] close (.inr (by simp [AllTrivia]))).1
  rw [List.append_nil, ← h, firstSignificant_eq_head?, tokens, List.append_assoc, List.cons_append,
    dropTrivia_gap mark.allTrivia_gap (isSignificant_of_isSymbol mark.isSymbol_sign),
    List.head?_cons, Option.any_some, mark.isSymbol_sign] at hnone
  cases hnone

/-- What stands behind a value is determined by its tokens. -/
theorem mark_append_close_inj {mark mark' : Option MarkTokens} {close close' : Option CloseTokens}
    (h : mark.elim [] MarkTokens.tokens ++ close.elim [] CloseTokens.tokens =
      mark'.elim [] MarkTokens.tokens ++ close'.elim [] CloseTokens.tokens) :
    mark = mark' ∧ close = close' := by
  have hclose {close close' : Option CloseTokens}
      (h : close.elim [] CloseTokens.tokens = close'.elim [] CloseTokens.tokens) :
      close = close' := by
    cases close with
    | none =>
      cases close' with
      | none => rfl
      | some close' => simp [CloseTokens.tokens] at h
    | some close =>
      cases close' with
      | none => simp [CloseTokens.tokens] at h
      | some close' => exact congrArg some (CloseTokens.eq_of_tokens_eq h)
  cases mark with
  | none =>
    cases mark' with
    | none => exact ⟨rfl, hclose h⟩
    | some mark' => exact absurd h.symm (mark'.append_ne_close _ close)
  | some mark =>
    cases mark' with
    | none => exact absurd h (mark.append_ne_close _ close')
    | some mark' =>
      obtain ⟨rfl, hcloses⟩ := MarkTokens.eq_of_append_eq h
      exact ⟨rfl, hclose hcloses⟩

/-- A value is determined by the tokens that begin with it and go on where a value may end. -/
theorem IsValue.eq_of_append_eq {value value' more more' : List Token} (hvalue : IsValue value)
    (hvalue' : IsValue value') (hmore : EndsValue more) (hmore' : EndsValue more')
    (h : value ++ more = value' ++ more') : value = value' ∧ more = more' := by
  have hrun {value more : List Token} (hvalue : IsValue value) (hmore : EndsValue more) :
      (declarationValue .css).run ⟨{}, .start⟩ (value ++ more) = ⟨.ok (), more⟩ :=
    declarationValue_css_run_eq_ok.mpr ⟨value, rfl, hvalue.ends, hvalue.plain, hmore⟩
  have hleft := (hrun hvalue hmore).symm.trans (h ▸ hrun hvalue' hmore')
  obtain rfl : more = more' := congrArg Reply.rest hleft
  exact ⟨List.append_cancel_right h, rfl⟩

/-- The pieces of a declaration are determined by its tokens. -/
theorem DeclarationTokens.eq_of_tokens_eq {d d' : DeclarationTokens} (h : d.tokens = d'.tokens) :
    d = d' := by
  have hends (d : DeclarationTokens) : EndsValue (d.markTokens ++ d.closeTokens) := by
    have hclose := (@endsValue_of_close [] d.close (.inr (by simp [AllTrivia]))).2
    rw [List.append_nil] at hclose
    exact endsValue_of_mark hclose
  have hname (d : DeclarationTokens) : d.tokens.takeWhile isUnit = d.name :=
    (span_append d.isIdentifier_name.units (d.isUnit_behind_name _)).1
  have hnames : d.name = d'.name := by rw [← hname d, ← hname d', h]
  rw [tokens, tokens, hnames] at h
  obtain ⟨hbefore, hcolon, hlater⟩ := gap_append_cons_inj d.allTrivia_beforeColon
    d'.allTrivia_beforeColon (isSignificant_of_isSymbol d.isSymbol_colon)
    (isSignificant_of_isSymbol d'.isSymbol_colon) (List.append_cancel_left h)
  obtain ⟨hafter, hlater⟩ : d.afterColon = d'.afterColon ∧
      d.value ++ (d.markTokens ++ d.closeTokens) =
        d'.value ++ (d'.markTokens ++ d'.closeTokens) := by
    obtain ⟨first, more, hvalue, hfirst⟩ := d.isValue_value.begins
    obtain ⟨first', more', hvalue', hfirst'⟩ := d'.isValue_value.begins
    rw [hvalue, hvalue', List.cons_append, List.cons_append] at hlater ⊢
    obtain ⟨hafter, rfl, hmore⟩ := gap_append_cons_inj d.allTrivia_afterColon
      d'.allTrivia_afterColon hfirst hfirst' hlater
    exact ⟨hafter, congrArg _ hmore⟩
  obtain ⟨hvalue, hlater⟩ :=
    d.isValue_value.eq_of_append_eq d'.isValue_value (hends d) (hends d') hlater
  obtain ⟨hmark, hclose⟩ := mark_append_close_inj hlater
  cases d
  cases d'
  cases hnames
  cases hbefore
  cases hcolon
  cases hafter
  cases hvalue
  cases hmark
  cases hclose
  rfl

end Grammar

end StyleSyntax
