import StyleSyntax.Grammar.MediaQuery
import StyleSyntax.Grammar.Selector
import StyleSyntax.Proofs.Parser.RecastRepetition

/-!
# Recast identifiers, values, selectors and media queries

The parts of statements that are read without a body are recast to themselves. How long an
identifier or a value is depends on tests of tokens that do not see the recasting. The rules of
selectors are stated for two languages, for where identifiers agree in both.
-/

namespace StyleSyntax

namespace Recasting

variable (r : Recasting)

/-- The selector with its source recast. -/
def selector (selector : Selector) : Selector :=
  { selector with source := r.excerpt selector.source }

variable {r}

@[simp] theorem token_isSemicolon (token : Token) :
    (r.token token).isSemicolon = token.isSemicolon :=
  token_isSymbol token [';']

@[simp] theorem token_isAt (token : Token) : (r.token token).isAt = token.isAt :=
  token_isSymbol token ['@']

@[simp] theorem token_opensInterpolation (token next : Token) :
    (r.token token).opensInterpolation (r.token next) = token.opensInterpolation next := by
  rw [Token.opensInterpolation, token_kind_beq _ rfl, token_isBraces, Token.opensInterpolation,
    token_value]

end Recasting

namespace Grammar

open StyleSyntax.Parser

variable {r : Recasting}

/-- The end of a statement is recast. -/
theorem recasts_statementEnd : statementEnd.Recasts r id statementEnd :=
  recasts_firstOf <| .cons ((recasts_symbol [';']).map fun _ => rfl) <|
    .cons recasts_endOfInput .nil

/-- Units of identifiers are recast to units. -/
theorem isName_token (token : Token) : isName (r.token token) = isName token := by
  rw [isName, Recasting.token_kind_beq _ rfl, isName, Recasting.token_value]

/-- Dashes are recast to dashes. -/
theorem isDashes_token (token : Token) : isDashes (r.token token) = isDashes token := by
  rw [isDashes, Recasting.token_kind_beq _ rfl, isDashes, Recasting.token_value]

/-- The recast identifier has as many tokens. -/
theorem identifierLength_map (dialect : Dialect) (tokens : List Token) :
    identifierLength dialect (tokens.map r.token) = identifierLength dialect tokens := by
  fun_induction identifierLength dialect tokens with
  | case1 => rfl
  | case2 token hunit => simp [identifierLength, isName_token, isDashes_token, hunit]
  | case3 token hunit => simp [identifierLength, isName_token, isDashes_token, hunit]
  | case4 token next rest hunit ih =>
    rw [List.map_cons] at ih
    simp [identifierLength, isName_token, isDashes_token, hunit, ih]
  | case5 token next rest hunit hinterpolation ih =>
    simp [identifierLength, isName_token, isDashes_token, hunit, hinterpolation, ih]
  | case6 token next rest hunit hinterpolation =>
    simp [identifierLength, isName_token, isDashes_token, hunit, hinterpolation]

/-- An identifier is recast. -/
theorem recasts_identifier (hr : r.Enters) (dialect : Dialect) :
    (identifier dialect).Recasts r r.excerpt (identifier dialect) := by
  refine ⟨fun region rest hscope => ?_, fun _ => rfl⟩
  have hliteral : (fun token : Token => token.kind == .literal) ∘ r.token =
      fun token => token.kind == .literal :=
    funext fun token => Recasting.token_kind_beq token rfl
  unfold identifier
  dsimp only
  rw [Recasting.dropTrivia_map, identifierLength_map, ← List.map_take, List.any_map, hliteral,
    Recasting.spelling_map, Recasting.expected_map, Recasting.region_finish,
    Recasting.nextPosition_map, ← List.map_drop]
  split_ifs
  · exact ⟨rfl, hr.scope_drop (Recasting.scope_dropTrivia hscope) _⟩
  · exact ⟨rfl, hscope⟩

/-- The recast value has as many tokens, when its tests do not see the recasting. -/
theorem valueExtent_map {stops : Token → Bool} {allows : Option Token → Token → Bool}
    (hstops : ∀ token, stops (r.token token) = stops token)
    (hallows : ∀ previous token, allows (previous.map r.token) (r.token token) =
      allows previous token) (previous : Option Token) (tokens : List Token) :
    valueExtent stops allows (previous.map r.token) (tokens.map r.token) =
      valueExtent stops allows previous tokens := by
  induction tokens generalizing previous with
  | nil => rfl
  | cons token rest ih =>
    rw [List.map_cons, valueExtent, valueExtent, Recasting.token_isSemicolon, hstops, hallows,
      ← Option.map_some, ih]

/-- As many recast tokens stand before the trivia at the end. -/
theorem significantLength_map (tokens : List Token) :
    significantLength (tokens.map r.token) = significantLength tokens := by
  have htrivia : Token.isTrivia ∘ r.token = Token.isTrivia := funext Recasting.token_isTrivia
  rw [significantLength, ← List.map_reverse, List.dropWhile_map, htrivia, List.length_map,
    significantLength]

/-- A value is recast when its tests do not see the recasting. -/
theorem recasts_value (hr : r.Enters) (wanted : Text) {stops : Token → Bool}
    {allows : Option Token → Token → Bool}
    (hstops : ∀ token, stops (r.token token) = stops token)
    (hallows : ∀ previous token, allows (previous.map r.token) (r.token token) =
      allows previous token) :
    (value wanted stops allows).Recasts r id (value wanted stops allows) := by
  refine ⟨fun region rest hscope => ?_, fun _ => rfl⟩
  have hextent := valueExtent_map hstops hallows none rest
  unfold value
  dsimp only
  rw [Option.map_none] at hextent
  rw [hextent, ← List.map_drop, ← List.map_take, significantLength_map, Recasting.expected_map,
    Recasting.expected_map]
  split_ifs
  · exact ⟨rfl, hr.scope_drop hscope _⟩
  · exact ⟨rfl, hr.scope_drop hscope _⟩
  · exact ⟨congrArg (Reply.mk _) (List.map_drop ..).symm, hr.scope_drop hscope _⟩

/-- A combinator sign is recast. -/
theorem recasts_combinator : combinator.Recasts r id combinator :=
  recasts_oneOfSymbols _

/-- An element name is recast. -/
theorem recasts_elementName (hr : r.Enters) (dialect : Dialect) :
    (elementName dialect).Recasts r id (elementName dialect) := by
  have hname : ((identifier dialect).map Excerpt.text).Recasts r id
      ((identifier dialect).map Excerpt.text) :=
    (recasts_identifier hr dialect).map fun _ => rfl
  cases dialect with
  | css => exact recasts_firstOf (.cons hname (.cons (recasts_symbol _) .nil))
  | jss =>
    exact recasts_firstOf (.cons hname (.cons (recasts_symbol _) (.cons (recasts_symbol _) .nil)))

/-- A sign with a name is recast. -/
theorem recasts_signedName {sign sign' : Parser Text} (hsign : sign.Recasts r id sign')
    {dialect dialect' : Dialect}
    (hname : (identifier dialect).Recasts r r.excerpt (identifier dialect')) :
    (signedName sign dialect).Recasts r id (signedName sign' dialect') :=
  Recasts.rawValue (f := id) <| Recasts.attempt <| hsign.bind fun _ =>
    (recasts_noSpacesHere.step 1).bind fun _ => (hname.step 2).bind fun _ => recasts_pure rfl

/-- The arguments of a pseudo selector are recast. -/
theorem recasts_pseudoArguments : pseudoArguments.Recasts r r.token pseudoArguments :=
  Recasts.attempt <| recasts_noSpacesHere.bind fun _ => (recasts_anyToken rfl).step 1

/-- A pseudo selector is recast. -/
theorem recasts_pseudoSelector {dialect dialect' : Dialect}
    (hname : (identifier dialect).Recasts r r.excerpt (identifier dialect')) :
    (pseudoSelector dialect).Recasts r id (pseudoSelector dialect') :=
  Recasts.rawValue (f := id) <| Recasts.attempt <| (recasts_oneOfSymbols _).bind fun _ =>
    (recasts_noSpacesHere.step 1).bind fun _ => (hname.step 2).bind fun _ =>
      (recasts_pseudoArguments.optional.step 3).bind fun _ => recasts_pure rfl

/-- An id, class, attribute or pseudo selector is recast. -/
theorem recasts_subclassSelector {dialect dialect' : Dialect}
    (hname : (identifier dialect).Recasts r r.excerpt (identifier dialect')) :
    (subclassSelector dialect).Recasts r id (subclassSelector dialect') :=
  recasts_firstOf <| .cons (recasts_signedName (recasts_symbol _) hname) <|
    .cons (recasts_signedName (recasts_symbol _) hname) <|
      .cons (recasts_anyToken rfl).rawValue <| .cons (recasts_pseudoSelector hname) .nil

/-- A compound selector is recast. -/
theorem recasts_compoundSelector {dialect dialect' : Dialect}
    (hname : (identifier dialect).Recasts r r.excerpt (identifier dialect'))
    (helement : (elementName dialect).Recasts r id (elementName dialect')) :
    (compoundSelector dialect).Recasts r id (compoundSelector dialect') := by
  have hother : (do noSpacesHere; subclassSelector dialect : Parser Text).Recasts r id
      (do noSpacesHere; subclassSelector dialect') :=
    recasts_noSpacesHere.bind fun _ => recasts_subclassSelector hname
  refine Recasts.attempt <| recasts_skipTrivia.bind fun _ => helement.optional.bind fun element =>
    hother.many.bind fun others => ?_
  simp only [Option.map_id, List.map_id, id]
  split_ifs
  · exact recasts_expected _ _
  · exact recasts_pure rfl

/-- What joins two compound selectors is recast. -/
theorem recasts_joint : joint.Recasts r id joint :=
  recasts_firstOf <| .cons recasts_combinator <| .cons (recasts_trivia.map fun _ => rfl) .nil

/-- The compound selectors behind the first one are recast. -/
theorem recasts_otherCompounds {dialect dialect' : Dialect}
    (h : (compoundSelector dialect).Recasts r id (compoundSelector dialect')) :
    (separated joint (compoundSelector dialect)).Recasts r id
      (separated joint (compoundSelector dialect')) := by
  have hothers := recasts_joint.separated h
  rwa [Prod.map_id, List.map_id_fun] at hothers

/-- A selector is recast. -/
theorem recasts_selector {dialect : Dialect}
    (hcompound : (compoundSelector dialect).Recasts r id (compoundSelector dialect)) :
    (selector dialect).Recasts r r.selector (selector dialect) := by
  have hleading : (leadingCombinator dialect).Recasts r id (leadingCombinator dialect) := by
    cases dialect with
    | css => exact recasts_pure rfl
    | jss =>
      refine recasts_combinator.optional.bind fun sign => recasts_pure ?_
      rw [Option.map_id]
      rfl
  refine (Recasts.capture (f := id) ?_).bind fun captured => recasts_pure rfl
  exact hleading.bind fun _ => hcompound.bind fun _ =>
    (recasts_otherCompounds hcompound).bind fun _ => recasts_pure rfl

/-- A list of selectors is recast. -/
theorem recasts_selectorList {dialect : Dialect}
    (hcompound : (compoundSelector dialect).Recasts r id (compoundSelector dialect)) :
    (selectorList dialect).Recasts r (List.map r.selector) (selectorList dialect) :=
  (recasts_selector hcompound).commaList

/-- A feature of a media query is recast. -/
theorem recasts_mediaFeature (hr : r.Enters) : mediaFeature.Recasts r id mediaFeature := by
  have hvalue : featureValue.Recasts r id featureValue := by
    refine ⟨fun region rest hscope => ?_, fun _ => rfl⟩
    have hnil : r.scope region [] := by simpa using hr.scope_drop hscope rest.length
    have hexpected := Recasting.expected_map (r := r) region "media feature value".toList []
    rw [List.map_nil] at hexpected
    unfold featureValue
    simp only [List.any_map, Function.comp_def, Recasting.token_isSignificant, hexpected]
    split_ifs
    · exact ⟨rfl, hnil⟩
    · exact ⟨rfl, hnil⟩
  have hgiven : (attempt do
      let _ ← symbol [':']
      step 1 featureValue : Parser Unit).Recasts r id
        (attempt do
          let _ ← symbol [':']
          step 1 featureValue) :=
    Recasts.attempt <| (recasts_symbol _).bind fun _ => hvalue.step 1
  exact Recasts.attempt <| (recasts_identifier hr .css).bind fun _ =>
    (hgiven.optional.step 1).bind fun _ => recasts_pure rfl

/-- An expression of a media query is recast. -/
theorem recasts_mediaExpression (hr : r.Enters) :
    mediaExpression.Recasts r id mediaExpression := by
  refine Recasts.rawValue ((recasts_mediaFeature hr).block hr fun kind => ?_)
  have hkind : (r.kind kind == .roundBrackets) = (kind == .roundBrackets) :=
    Recasting.kind_beq kind rfl
  rw [List.contains_cons, List.contains_nil, hkind, List.contains_cons, List.contains_nil]

/-- An expression that is joined to others is recast. -/
theorem recasts_andExpression (hr : r.Enters) : andExpression.Recasts r id andExpression :=
  Recasts.rawValue (f := id) <| Recasts.attempt <| (recasts_keyword _).bind fun _ =>
    (recasts_mediaExpression hr).step 1

/-- A medium is recast. -/
theorem recasts_medium (hr : r.Enters) : medium.Recasts r id medium :=
  Recasts.rawValue <| Recasts.attempt <|
    ((recasts_firstOf (.cons (recasts_keyword _) (.cons (recasts_keyword _) .nil))).optional).bind
      fun _ => (recasts_identifier hr .css).step 1

/-- A media query is recast. -/
theorem recasts_mediaQuery (hr : r.Enters) : mediaQuery.Recasts r id mediaQuery :=
  recasts_firstOf <| .cons ((recasts_medium hr).leftRecursive (recasts_andExpression hr)) <|
    .cons ((recasts_mediaExpression hr).leftRecursive (recasts_andExpression hr)) .nil

/-- A list of media queries is recast. -/
theorem recasts_mediaQueryList (hr : r.Enters) :
    mediaQueryList.Recasts r r.excerpt mediaQueryList :=
  (recasts_mediaQuery hr).commaList.excerpt

end Grammar

end StyleSyntax
