import StyleSyntax.Expression
import StyleSyntax.Proofs.Grammar.Stylesheet
import StyleSyntax.Proofs.Parser.Advance

/-!
# The rules of the grammar move forward

Every rule leaves an end of the tokens that it was given. For the rules with bodies this needs
nothing of the bodies, whose tokens are those of an interior. The same bound then holds for every
expression, which gives exact sources: the cursor stays within the tokens, and the source of an
expression that captures it is that of the tokens between the cursor before and the cursor after.
-/

namespace StyleSyntax

open StyleSyntax.Parser

namespace Grammar

variable {α : Type} {bodies : Bodies}

section Phrases

/-- A name takes its units and the trivia before them. -/
theorem advances_identifier (dialect : Dialect) : (identifier dialect).Advances := by
  constructor
  intro region rest
  unfold identifier
  dsimp only
  split_ifs
  · exact (List.drop_suffix _ _).trans (dropTrivia_suffix rest)
  · exact List.suffix_refl rest

/-- Looking for an interpolation takes nothing. -/
theorem advances_interpolationHere : interpolationHere.Advances :=
  ⟨fun _ rest => List.suffix_refl rest⟩

/-- The end of a statement is a semicolon or the end of the tokens. -/
theorem advances_statementEnd : statementEnd.Advances := by
  refine advances_firstOf ?_
  simp only [List.forall_mem_cons]
  exact ⟨(advances_symbol _).map _, advances_endOfInput, by simp⟩

/-- A value that fails stands behind the tokens that it had passed. -/
theorem advances_value (wanted : Text) (stops : Token → Bool)
    (allows : Option Token → Token → Bool) : (value wanted stops allows).Advances := by
  constructor
  intro region rest
  unfold value
  dsimp only
  split_ifs <;> exact List.drop_suffix _ _

/-- A medium moves forward, with or without a modifier. -/
theorem advances_medium : medium.Advances := by
  have hmodifier : (firstOf [keyword "only".toList, keyword "not".toList]).Advances := by
    refine advances_firstOf ?_
    simp only [List.forall_mem_cons]
    exact ⟨advances_tokenWhere _ _, advances_tokenWhere _ _, by simp⟩
  exact (hmodifier.optional.bind fun _ => (advances_identifier .css).step 1).attempt.rawValue

/-- An expression in brackets takes its token alone. -/
theorem advances_mediaExpression : mediaExpression.Advances :=
  (advances_block _ _).rawValue

/-- So it does behind a keyword. -/
theorem advances_andExpression : andExpression.Advances :=
  ((advances_tokenWhere _ _).bind fun _ => advances_mediaExpression.step 1).attempt.rawValue

/-- A media query moves forward, whichever it begins with. -/
theorem advances_mediaQuery : mediaQuery.Advances := by
  refine advances_firstOf ?_
  simp only [List.forall_mem_cons]
  exact ⟨advances_medium.leftRecursive advances_andExpression,
    advances_mediaExpression.leftRecursive advances_andExpression, by simp⟩

/-- So does a list of them. -/
theorem advances_mediaQueryList : mediaQueryList.Advances :=
  advances_mediaQuery.commaList.excerpt

end Phrases

section Selectors

/-- A combinator is one of some symbols. -/
theorem advances_combinator : combinator.Advances :=
  advances_oneOfSymbols _

/-- The name of an element is a name or a symbol for all names. -/
theorem advances_elementName (dialect : Dialect) : (elementName dialect).Advances := by
  have hname := (advances_identifier dialect).map Excerpt.text
  cases dialect <;> refine advances_firstOf ?_ <;> simp only [List.forall_mem_cons]
  · exact ⟨hname, advances_symbol _, by simp⟩
  · exact ⟨hname, advances_symbol _, advances_symbol _, by simp⟩

/-- A name behind a sign moves forward if the sign does. -/
theorem advances_signedName {sign : Parser Text} (h : sign.Advances) (dialect : Dialect) :
    (signedName sign dialect).Advances :=
  Advances.rawValue <| Advances.attempt <| h.bind fun _ =>
    (advances_noSpacesHere.step 1).bind fun _ =>
      ((advances_identifier dialect).step 2).bind fun _ => advances_pure _

/-- A pseudo-selector moves forward, with or without arguments. -/
theorem advances_pseudoSelector (dialect : Dialect) : (pseudoSelector dialect).Advances := by
  have harguments : pseudoArguments.Advances :=
    Advances.attempt <| advances_noSpacesHere.bind fun _ => (advances_tokenWhere _ _).step 1
  exact Advances.rawValue <| Advances.attempt <| (advances_oneOfSymbols _).bind fun _ =>
    (advances_noSpacesHere.step 1).bind fun _ => ((advances_identifier dialect).step 2).bind
      fun _ => (harguments.optional.step 3).bind fun _ => advances_pure _

/-- Every kind of subclass moves forward. -/
theorem advances_subclassSelector (dialect : Dialect) : (subclassSelector dialect).Advances := by
  refine advances_firstOf ?_
  simp only [List.forall_mem_cons]
  exact ⟨advances_signedName (advances_symbol _) dialect,
    advances_signedName (advances_symbol _) dialect, (advances_tokenWhere _ _).rawValue,
    advances_pseudoSelector dialect, by simp⟩

/-- A compound goes back where it would be empty. -/
theorem advances_compoundSelector (dialect : Dialect) : (compoundSelector dialect).Advances := by
  refine Advances.attempt <| advances_skipTrivia.bind fun _ =>
    (advances_elementName dialect).optional.bind fun element =>
      (advances_noSpacesHere.bind fun _ => advances_subclassSelector dialect).many.bind
        fun others => ?_
  dsimp only
  split_ifs
  · exact advances_fail _
  · exact advances_pure _

/-- What joins two compounds is a combinator or trivia. -/
theorem advances_joint : joint.Advances := by
  refine advances_firstOf ?_
  simp only [List.forall_mem_cons]
  exact ⟨advances_combinator, advances_trivia.map _, by simp⟩

/-- A selector moves forward, also with a combinator at its beginning. -/
theorem advances_selector (dialect : Dialect) : (selector dialect).Advances := by
  have hleading : (leadingCombinator dialect).Advances := by
    cases dialect with
    | css => exact advances_pure _
    | jss => exact advances_combinator.optional.bind fun _ => advances_pure _
  have hcompound := advances_compoundSelector dialect
  exact (Advances.capture <| hleading.bind fun _ => hcompound.bind fun _ =>
    (advances_joint.separated hcompound).bind fun _ => advances_pure _).bind
      fun _ => advances_pure _

/-- So does a list of selectors. -/
theorem advances_selectorList (dialect : Dialect) : (selectorList dialect).Advances :=
  (advances_selector dialect).commaList

end Selectors

section Statements

/-- A declaration moves forward, with or without its mark of importance. -/
theorem advances_declaration (dialect : Dialect) : (declaration dialect).Advances := by
  have hmark : importantMark.Advances :=
    ((advances_symbol _).bind fun _ => (advances_tokenWhere _ _).step 1).attempt
  exact (Advances.capture <| Advances.attempt <| (advances_identifier dialect).bind fun _ =>
    ((advances_symbol _).step 1).bind fun _ => ((advances_value _ _ _).excerpt.step 2).bind
      fun _ => (hmark.optional.step 3).bind fun _ => (advances_statementEnd.step 4).bind
        fun _ => advances_pure _).bind fun _ => advances_pure _

/-- A rule moves forward, whatever reads its body. -/
theorem advances_ruleBlock (bodies : Bodies) (dialect : Dialect) :
    (ruleBlock bodies dialect).Advances :=
  (Advances.capture <| Advances.attempt <| (advances_selectorList dialect).bind fun _ =>
    ((advances_block _ _).step 1).bind fun _ => advances_pure _).bind fun _ => advances_pure _

/-- The rule for a character set moves forward. -/
theorem advances_charset : charset.Advances :=
  (Advances.capture <| Advances.attempt <| (advances_symbol _).bind fun _ =>
    ((advances_tokenWhere _ _).step 1).bind fun _ => ((advances_tokenWhere _ _).step 2).bind
      fun _ => (advances_statementEnd.step 3).bind fun _ => advances_pure _).bind
        fun _ => advances_pure _

/-- The path of an import is a string or an address. -/
theorem advances_importPath : importPath.Advances := by
  refine advances_firstOf ?_
  simp only [List.forall_mem_cons]
  exact ⟨(advances_tokenWhere _ _).map _, (Advances.excerpt <| Advances.attempt <|
    (advances_tokenWhere _ _).bind fun _ => (advances_noSpacesHere.step 1).bind
      fun _ => (advances_tokenWhere _ _).step 2).map _, by simp⟩

/-- An import moves forward, with or without media. -/
theorem advances_importRule : importRule.Advances :=
  (Advances.capture <| Advances.attempt <| (advances_symbol _).bind fun _ =>
    ((advances_tokenWhere _ _).step 1).bind fun _ => (advances_importPath.step 2).bind
      fun _ => (advances_mediaQueryList.optional.step 3).bind fun _ =>
        (advances_statementEnd.step 4).bind fun _ => advances_pure _).bind fun _ => advances_pure _

/-- A media rule moves forward, whatever reads its body. -/
theorem advances_mediaRule (bodies : Bodies) (dialect : Dialect) :
    (mediaRule bodies dialect).Advances :=
  (Advances.capture <| Advances.attempt <| (advances_symbol _).bind fun _ =>
    ((advances_tokenWhere _ _).step 1).bind fun _ => (advances_mediaQueryList.step 2).bind
      fun _ => ((advances_block _ _).step 3).bind fun _ => advances_pure _).bind
        fun _ => advances_pure _

/-- The pseudo-class of a page is a name behind a sign. -/
theorem advances_pagePseudo : pagePseudo.Advances :=
  Advances.excerpt <| Advances.attempt <| (advances_symbol _).bind fun _ =>
    (advances_noSpacesHere.step 1).bind fun _ => (advances_identifier .css).step 2

/-- A page moves forward, whatever reads its body. -/
theorem advances_pageRule (bodies : Bodies) (dialect : Dialect) :
    (pageRule bodies dialect).Advances :=
  (Advances.capture <| Advances.attempt <| (advances_symbol _).bind fun _ =>
    ((advances_tokenWhere _ _).step 1).bind fun _ => (advances_pagePseudo.optional.step 2).bind
      fun _ => ((advances_block _ _).step 3).bind fun _ => advances_pure _).bind
        fun _ => advances_pure _

/-- Every rule behind a sign moves forward, and an unknown name takes nothing. -/
theorem advances_namedRule (bodies : Bodies) (dialect : Dialect) (name : Token) :
    (namedRule bodies dialect name).Advances := by
  unfold namedRule
  split_ifs
  · exact advances_charset
  · exact advances_importRule
  · exact advances_mediaRule bodies dialect
  · exact advances_pageRule bodies dialect
  · exact advances_fail _

/-- So does an at-rule with its sign. -/
theorem advances_atRule (bodies : Bodies) (dialect : Dialect) :
    (atRule bodies dialect).Advances := by
  constructor
  intro region rest
  unfold atRule
  dsimp only
  split
  · exact List.suffix_refl rest
  · split_ifs
    · split
      · exact List.suffix_refl rest
      · exact (advances_namedRule bodies dialect _).rest_suffix region rest
    · exact List.suffix_refl rest

/-- The keyword of a variable is one of three. -/
theorem advances_varKeyword : varKeyword.Advances := by
  refine advances_firstOf ?_
  simp only [List.forall_mem_cons]
  exact ⟨(advances_tokenWhere _ _).map _, (advances_tokenWhere _ _).map _,
    (advances_tokenWhere _ _).map _, by simp⟩

/-- A variable with a block moves forward, whatever reads the block. -/
theorem advances_variableBlock (bodies : Bodies) : (variableBlock bodies).Advances :=
  (Advances.capture <| Advances.attempt <| (advances_tokenWhere _ _).optional.bind fun _ =>
    (advances_varKeyword.step 1).bind fun _ => ((advances_tokenWhere _ _).step 2).bind fun _ =>
      ((advances_symbol _).step 3).bind fun _ => ((advances_block _ _).step 4).bind fun _ =>
        ((advances_symbol _).optional.step 5).bind fun _ => advances_pure _).bind
          fun _ => advances_pure _

/-- A spread moves forward. -/
theorem advances_spread : spread.Advances :=
  (Advances.capture <| Advances.attempt <| (advances_symbol _).bind fun _ =>
    ((advances_value _ _ _).excerpt.step 1).bind fun _ => (advances_statementEnd.step 2).bind
      fun _ => advances_pure _).bind fun _ => advances_pure _

/-- Script takes tokens up to its end and the trivia before them. -/
theorem advances_script : script.Advances := by
  constructor
  intro region rest
  unfold script
  dsimp only
  split
  · exact List.suffix_refl rest
  · next token following hrest =>
    exact (List.drop_suffix _ _).trans (hrest ▸ dropTrivia_suffix rest)

/-- Ignored trivia is taken as a whole run. -/
theorem advances_ignored : ignored.Advances :=
  advances_trivia.map _

/-- A lone semicolon is a symbol. -/
theorem advances_straySemicolon : straySemicolon.Advances :=
  (advances_symbol _).excerpt.map _

/-- An item is trivia or a statement. -/
theorem advances_item {statement : Parser Node} (h : statement.Advances) :
    (item statement).Advances := by
  constructor
  intro region rest
  unfold item
  dsimp only
  split_ifs
  · exact advances_ignored.rest_suffix region rest
  · exact h.rest_suffix region rest

/-- Items follow one another up to the end. -/
theorem advances_items {statement : Parser Node} (h : statement.Advances) :
    (items statement).Advances :=
  (advances_item h).all

/-- The depth of the bodies does not matter. -/
theorem advances_withBodies {p : Bodies → Parser α} (h : ∀ bodies, (p bodies).Advances) :
    (withBodies p).Advances :=
  ⟨fun region rest => (h _).rest_suffix region rest⟩

end Statements

section Lists

/-- The statements at every place move forward. -/
theorem advances_statementsAt (bodies : Bodies) (dialect : Dialect) (place : Place) :
    (firstOf (statementsAt bodies dialect place)).Advances := by
  have hsemicolon := advances_straySemicolon.probe Token.isSemicolon
  have hrule (dialect : Dialect) := (advances_atRule bodies dialect).probe Token.isAt
  have hvariable := (advances_variableBlock bodies).probe isVariableStart
  have hscript := advances_script.probe isScriptKeyword
  have hblock (dialect : Dialect) := advances_ruleBlock bodies dialect
  have hdeclaration (dialect : Dialect) := advances_declaration dialect
  refine advances_firstOf ?_
  cases place <;> cases dialect <;> simp only [statementsAt, sheetStatements, ruleStatements,
    mediaStatements, declarationStatements, List.forall_mem_cons]
  case sheet.css => exact ⟨hsemicolon, hrule .css, hblock .css, by simp⟩
  case sheet.jss =>
    exact ⟨hsemicolon, hrule .jss, hvariable, hscript, hblock .jss, advances_script, by simp⟩
  case block.css => exact ⟨hsemicolon, hdeclaration .css, by simp⟩
  case block.jss =>
    exact ⟨hsemicolon, hrule .jss, hvariable, advances_spread.probe _, hscript, hdeclaration .jss,
      hblock .jss, by simp⟩
  case media.css => exact ⟨hsemicolon, hrule .css, hblock .css, by simp⟩
  case media.jss => exact ⟨hsemicolon, hrule .jss, hblock .jss, by simp⟩
  case page.css => exact ⟨hsemicolon, hdeclaration .css, by simp⟩
  case page.jss => exact ⟨hsemicolon, hdeclaration .jss, by simp⟩

/-- The items at every place move forward. -/
theorem advances_itemsAt (bodies : Bodies) (dialect : Dialect) (place : Place) :
    (itemsAt bodies dialect place).Advances :=
  advances_items (advances_statementsAt bodies dialect place)

/-- In particular those of a sheet do. -/
theorem advances_stylesheetItems (bodies : Bodies) (dialect : Dialect) :
    (stylesheetItems bodies dialect).Advances :=
  stylesheetItems_eq bodies dialect ▸ advances_itemsAt bodies dialect .sheet

/-- In particular those of a block do. -/
theorem advances_blockItems (bodies : Bodies) (dialect : Dialect) :
    (blockItems bodies dialect).Advances :=
  blockItems_eq bodies dialect ▸ advances_itemsAt bodies dialect .block

end Lists

end Grammar

open StyleSyntax.Grammar

/-- A rule that reads one node moves forward. -/
theorem NodeRule.advances (rule : NodeRule) (dialect : Dialect) :
    (rule.parser dialect).Advances := by
  cases rule with
  | ignored => exact advances_ignored
  | straySemicolon => exact advances_straySemicolon
  | ruleBlock => exact advances_withBodies fun bodies => advances_ruleBlock bodies dialect
  | declaration => exact advances_declaration dialect
  | atRule => exact advances_withBodies fun bodies => advances_atRule bodies dialect
  | selector => exact (advances_selector dialect).map _
  | variableBlock => exact advances_withBodies advances_variableBlock
  | spread => exact advances_spread
  | script => exact advances_script

/-- A rule that reads a list of nodes moves forward. -/
theorem NodesRule.advances (rule : NodesRule) (dialect : Dialect) :
    (rule.parser dialect).Advances := by
  cases rule with
  | stylesheet => exact advances_withBodies fun bodies => advances_stylesheetItems bodies dialect
  | blockItems => exact advances_withBodies fun bodies => advances_blockItems bodies dialect
  | declarationItems => exact advances_itemsAt (.within 0) dialect .page
  | selectorList => exact (advances_selectorList dialect).map _

namespace Expression

/-- A deferred block is read from other tokens. -/
theorem advances_readDeferred (deferred : Deferred Value) : (readDeferred deferred).Advances := by
  unfold readDeferred
  split
  · exact advances_pure _
  · exact advances_pure _
  · exact ⟨fun _ rest => List.suffix_refl rest⟩

mutual

/-- Every expression moves forward. -/
theorem advances (expression : Expression) : expression.parser.Advances := by
  cases expression with
  | token kind => exact (advances_tokenWhere _ _).map _
  | string => exact (advances_tokenWhere _ _).map _
  | anyBlock => exact (advances_tokenWhere _ _).map _
  | keyword text => exact (advances_tokenWhere _ _).map _
  | tokenWhere wanted test => exact (advances_tokenWhere _ _).map _
  | symbol text => exact (advances_symbol text).map _
  | oneOfSymbols candidates => exact (advances_oneOfSymbols candidates).map _
  | noSpaces => exact advances_noSpacesHere.map _
  | noLineBreak => exact advances_noLineTerminatorHere.map _
  | endOfInput => exact advances_endOfInput.map _
  | trivia => exact advances_trivia.map _
  | sequence steps => exact (advances_sequence (forall_advances steps)).map _
  | firstOf alternatives => exact advances_firstOf (forall_advances alternatives)
  | longestOf alternatives => exact advances_longestOf (forall_advances alternatives)
  | optional inner => exact (advances inner).optional.map _
  | attempt inner => exact (advances inner).attempt
  | tried inner => exact (advances inner).optional.map _
  | many inner => exact (advances inner).many.map _
  | all inner => exact (advances inner).all.map _
  | list element separator allowEmpty =>
    exact ((advances element).list (advances separator) allowEmpty).map _
  | commaList element => exact (advances element).commaList.map _
  | leftRecursive left right =>
    exact ((advances left).rawValue.leftRecursive (advances right).rawValue).map _
  | block kinds inner => exact advances_block kinds _
  | lazyBlock kinds inner => exact (advances_lazyBlock kinds _).bind advances_readDeferred
  | raw inner => exact (advances inner).rawValue.map _
  | excerpt inner => exact (advances inner).excerpt.map _
  | capture inner => exact (advances inner).capture.map _
  | tag label inner => exact (advances inner).map _
  | probe test inner => exact (advances inner).probe _
  | items rule dialect => exact (advances_items (rule.advances dialect)).map _
  | nodeRule rule dialect => exact (rule.advances dialect).map _
  | nodesRule rule dialect => exact (rule.advances dialect).map _
  | identifier dialect => exact (advances_identifier dialect).map _
  | mediaQuery => exact advances_mediaQuery.map _
  | mediaQueryList => exact advances_mediaQueryList.map _
  | statementEnd => exact advances_statementEnd.map _
  | interpolationHere => exact advances_interpolationHere.map _

/-- All expressions of a list move forward. -/
theorem forall_advances (expressions : List Expression) :
    ∀ p ∈ parsers expressions, p.Advances := by
  cases expressions with
  | nil => simp [parsers]
  | cons expression others =>
    rw [parsers, List.forall_mem_cons]
    exact ⟨advances expression, forall_advances others⟩

end

end Expression

end StyleSyntax
