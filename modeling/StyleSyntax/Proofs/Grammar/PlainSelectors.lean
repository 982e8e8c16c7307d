import StyleSyntax.Proofs.Grammar.Phrases
import StyleSyntax.Proofs.Grammar.RecastPhrases
import StyleSyntax.Proofs.Parser.Consumption

/-!
# Selectors of the plain language

A selector of the plain language consumes tokens of a few sorts, none of which is special in the
extended language. Where such tokens lead up to braces, identifiers are equally long in both
languages, and so both read the same compound selectors.
-/

namespace StyleSyntax

namespace Grammar

open StyleSyntax.Parser

variable {setting : Setting}

/-- A name or dashes: a token that may stand in an identifier of either language. -/
def isUnit (token : Token) : Bool :=
  isName token || isDashes token

/-- The characters of the signs in plain selectors. -/
def selectorSigns : Text := ['#', '.', ':', '*', '>', '+', '~', '-']

/-- A token that a plain selector may hold: trivia, a name, a sign, a comma or brackets other than
braces. -/
def isSelectorToken (token : Token) : Bool :=
  token.isTrivia || isName token ||
    token.kind == .symbol && token.value.all (selectorSigns.contains ·) ||
    token.kind == .comma || token.kind == .roundBrackets || token.kind == .squareBrackets

/-- Trivia may stand in a selector. -/
theorem isSelectorToken_of_isTrivia (token : Token) (h : token.isTrivia) :
    isSelectorToken token := by
  simp [isSelectorToken, h]

/-- Characters of one of several signs are characters of the signs. -/
theorem all_contains_of_subset {signs text value : Text} (htext : text ⊆ signs)
    (hvalue : value ⊆ text) : value.all (signs.contains ·) :=
  List.all_eq_true.mpr fun _ hc => List.contains_iff_mem.mpr (htext (hvalue hc))

/-- A token that spells signs may stand in a selector. -/
theorem isSelectorToken_of_subset {text : Text} (htext : text ⊆ selectorSigns) (token : Token)
    (hkind : token.kind = .symbol) (hvalue : token.value ⊆ text) : isSelectorToken token := by
  rw [isSelectorToken, hkind, all_contains_of_subset htext hvalue]
  simp

/-- Units of identifiers may stand in a selector. -/
theorem isSelectorToken_of_isUnit (token : Token) (h : isUnit token) : isSelectorToken token := by
  rcases unit_cases h with ⟨hkind, hdollar⟩ | ⟨hkind, hvalue⟩
  · simp [isSelectorToken, isName, hkind, hdollar]
  · exact isSelectorToken_of_subset (by simp [selectorSigns]) token hkind hvalue

/-- No brace region may stand in a selector. -/
theorem isBraces_of_isSelectorToken {token : Token} (h : isSelectorToken token) :
    token.isBraces = false := by
  obtain ⟨kind, value, position⟩ := token
  cases kind <;> first | rfl | cases h

/-- A literal in a selector has no dollar sign. -/
theorem isName_of_isSelectorToken {token : Token} (h : isSelectorToken token)
    (hkind : token.kind = .literal) : isName token := by
  simpa [isSelectorToken, hkind, Token.isTrivia, TokenKind.isTrivia] using h

/-- An identifier consumes trivia and tokens that may stand in it. -/
theorem keeps_identifier_tokens {dialect : Dialect} {test : Token → Bool}
    (htrivia : ∀ token : Token, token.isTrivia → test token)
    (hparts : ∀ token, isIdentifierToken dialect token → test token) :
    (identifier dialect).Keeps setting (Promise.tokens test) := by
  refine (keeps_identifier_units dialect).mono ?_
  rintro region used next source ⟨gap, units, rfl, hgap, hunits, -⟩
  exact List.forall_mem_append.mpr ⟨fun token htoken => htrivia token (hgap token htoken),
    fun token htoken => hparts token (hunits token htoken)⟩

/-- The characters of the signs that begin id, class and pseudo selectors. -/
def subclassSigns : Text := ['#', '.', ':']

/-- The test lets pass what stands in id, class, attribute and pseudo selectors. -/
structure PassesPieces (dialect : Dialect) (test : Token → Bool) : Prop where
  trivia : ∀ token : Token, token.isTrivia → test token
  name : ∀ token, isIdentifierToken dialect token → test token
  sign : ∀ token : Token, token.kind = .symbol → token.value ⊆ subclassSigns → test token
  brackets : ∀ token : Token, token.kind = .roundBrackets ∨ token.kind = .squareBrackets →
    test token

section Pieces

variable {dialect : Dialect} {test : Token → Bool}

/-- A sign with a name consumes tokens that pass. -/
theorem keeps_signedName_tokens (h : PassesPieces dialect test) {text : Text}
    (htext : text ⊆ subclassSigns) :
    (signedName (symbol text) dialect).Keeps setting (Promise.tokens test) := by
  have hsign : (symbol text).Keeps setting (Promise.tokens test) :=
    keeps_symbol_tokens h.trivia fun token hkind hvalue =>
      h.sign token hkind (List.Subset.trans hvalue htext)
  exact Keeps.rawValue_tokens <| Keeps.attempt <| hsign.bind_tokens fun _ =>
    (keeps_noSpacesHere.tokens_of_nothing.step 1).bind_tokens fun _ =>
      ((keeps_identifier_tokens h.trivia h.name).step 2).bind_tokens fun _ => keeps_pure_tokens _

/-- Brackets that pass are consumed. -/
theorem keeps_brackets_tokens (h : PassesPieces dialect test) {kind : TokenKind}
    (hkind : kind = .roundBrackets ∨ kind = .squareBrackets) :
    (anyToken kind).Keeps setting (Promise.tokens test) :=
  keeps_tokenWhere_tokens h.trivia _ fun token htest =>
    h.brackets token (by rwa [beq_iff_eq.mp htest])

/-- A pseudo selector consumes tokens that pass. -/
theorem keeps_pseudoSelector_tokens (h : PassesPieces dialect test) :
    (pseudoSelector dialect).Keeps setting (Promise.tokens test) := by
  have hsigns : (oneOfSymbols [[':'], [':', ':']]).Keeps setting (Promise.tokens test) := by
    refine keeps_oneOfSymbols_tokens h.trivia fun text htext token hkind hvalue =>
      h.sign token hkind (List.Subset.trans hvalue ?_)
    simp only [List.mem_cons, List.not_mem_nil, or_false] at htext
    rcases htext with rfl | rfl <;> simp [subclassSigns]
  have harguments : pseudoArguments.Keeps setting (Promise.tokens test) :=
    Keeps.attempt <| keeps_noSpacesHere.tokens_of_nothing.bind_tokens fun _ =>
      (keeps_brackets_tokens h (.inl rfl)).step 1
  exact Keeps.rawValue_tokens <| Keeps.attempt <| hsigns.bind_tokens fun _ =>
    (keeps_noSpacesHere.tokens_of_nothing.step 1).bind_tokens fun _ =>
      ((keeps_identifier_tokens h.trivia h.name).step 2).bind_tokens fun _ =>
        (harguments.optional_tokens.step 3).bind_tokens fun _ => keeps_pure_tokens _

/-- An id, class, attribute or pseudo selector consumes tokens that pass. -/
theorem keeps_subclassSelector_tokens (h : PassesPieces dialect test) :
    (subclassSelector dialect).Keeps setting (Promise.tokens test) := by
  refine keeps_firstOf ?_
  simp only [List.forall_mem_cons]
  exact ⟨keeps_signedName_tokens h (by simp [subclassSigns]),
    keeps_signedName_tokens h (by simp [subclassSigns]),
    Keeps.rawValue_tokens (keeps_brackets_tokens h (.inr rfl)), keeps_pseudoSelector_tokens h,
    by simp⟩

end Pieces

/-- Tokens of selectors may stand in the pieces of the plain language. -/
theorem passesPieces_isSelectorToken : PassesPieces .css isSelectorToken where
  trivia := isSelectorToken_of_isTrivia
  name := isSelectorToken_of_isUnit
  sign := isSelectorToken_of_subset (by simp [subclassSigns, selectorSigns])
  brackets token hkind := by
    rcases hkind with hkind | hkind <;> simp [isSelectorToken, hkind]

/-- A run of signs consumes tokens of selectors. -/
theorem keeps_sign_tokens {text : Text} (h : text ⊆ selectorSigns) :
    (symbol text).Keeps setting (Promise.tokens isSelectorToken) :=
  keeps_symbol_tokens isSelectorToken_of_isTrivia (isSelectorToken_of_subset h)

/-- One of several runs of signs consumes tokens of selectors. -/
theorem keeps_signs_tokens {candidates : List Text}
    (h : ∀ text ∈ candidates, text ⊆ selectorSigns) :
    (oneOfSymbols candidates).Keeps setting (Promise.tokens isSelectorToken) :=
  keeps_oneOfSymbols_tokens isSelectorToken_of_isTrivia fun text htext =>
    isSelectorToken_of_subset (h text htext)

/-- An identifier consumes tokens of selectors. -/
theorem keeps_name_tokens : (identifier .css).Keeps setting (Promise.tokens isSelectorToken) :=
  keeps_identifier_tokens isSelectorToken_of_isTrivia isSelectorToken_of_isUnit

/-- A compound selector consumes tokens of selectors. -/
theorem keeps_compoundSelector_tokens :
    (compoundSelector .css).Keeps setting (Promise.tokens isSelectorToken) := by
  have helement : (elementName .css).Keeps setting (Promise.tokens isSelectorToken) := by
    refine keeps_firstOf ?_
    simp only [List.forall_mem_cons]
    exact ⟨Keeps.map keeps_name_tokens, keeps_sign_tokens (by simp [selectorSigns]), by simp⟩
  refine Keeps.attempt <| (keeps_skipTrivia_tokens isSelectorToken_of_isTrivia).bind_tokens fun _ =>
    helement.optional_tokens.bind_tokens fun element =>
      (Keeps.many_tokens (keeps_noSpacesHere.tokens_of_nothing.bind_tokens fun _ =>
        keeps_subclassSelector_tokens passesPieces_isSelectorToken)).bind_tokens fun others => ?_
  dsimp only
  split_ifs
  · exact keeps_expected _
  · exact keeps_pure_tokens _

/-- A list of selectors consumes tokens of selectors. -/
theorem keeps_selectorList_tokens :
    (selectorList .css).Keeps setting (Promise.tokens isSelectorToken) := by
  have hjoint : joint.Keeps setting (Promise.tokens isSelectorToken) := by
    refine keeps_firstOf ?_
    simp only [List.forall_mem_cons]
    exact ⟨keeps_signs_tokens (by simp [selectorSigns]),
      Keeps.map (keeps_trivia_tokens isSelectorToken_of_isTrivia), by simp⟩
  have hselector : (selector .css).Keeps setting (Promise.tokens isSelectorToken) :=
    (Keeps.capture_tokens <| (keeps_pure_tokens []).bind_tokens fun _ =>
      keeps_compoundSelector_tokens.bind_tokens fun _ =>
        (hjoint.separated_tokens keeps_compoundSelector_tokens
          ((keeps_compoundSelector .css).mono fun _ _ _ _ h => h.2.ne_nil)).bind_tokens fun _ =>
            keeps_pure_tokens _).bind_tokens fun _ => keeps_pure_tokens _
  refine hselector.list_tokens ?_ ?_
  · exact (keeps_selector .css).mono fun _ _ _ _ h => h.2.2.endsSignificant.ne_nil
  · exact keeps_tokenWhere_tokens isSelectorToken_of_isTrivia _ fun token htest => by
      simp [isSelectorToken, beq_iff_eq.mp htest]

/-- A unit makes an identifier longer by one. -/
theorem identifierLength_cons_of_isUnit (dialect : Dialect) {token : Token} (h : isUnit token)
    (rest : List Token) :
    identifierLength dialect (token :: rest) = identifierLength dialect rest + 1 := by
  rw [isUnit] at h
  cases rest <;> simp [identifierLength, h]

/-- No identifier begins with a token that is neither a unit nor a literal. -/
theorem identifierLength_cons_eq_zero (dialect : Dialect) {token : Token}
    (hunit : isUnit token = false) (hliteral : token.kind ≠ .literal) (rest : List Token) :
    identifierLength dialect (token :: rest) = 0 := by
  rw [isUnit] at hunit
  cases rest <;> simp [identifierLength, hunit, Token.opensInterpolation, hliteral]

end Grammar

end StyleSyntax
