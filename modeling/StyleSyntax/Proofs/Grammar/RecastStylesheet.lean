import StyleSyntax.Grammar.Stylesheet
import StyleSyntax.Proofs.Grammar.RecastPhrases
import StyleSyntax.Proofs.Tree.Change

/-!
# Recast stylesheets

A recasting that enters brackets recasts the whole grammar to itself: no rule tells the two kinds of
braces apart, and positions reach the tree only as those of tokens. The nodes of the recast run are
the nodes of the other one with their excerpts recast.
-/

namespace StyleSyntax

namespace Recasting

variable (r : Recasting)

/-- The declaration with its excerpts recast. -/
def declaration (declaration : Declaration) : Declaration :=
  { declaration with
    property := r.excerpt declaration.property
    value := r.excerpt declaration.value }

/-- The leaf with its excerpts recast. -/
def leaf : Leaf → Leaf
  | .ignored source => .ignored (r.excerpt source)
  | .script source => .script (r.excerpt source)
  | .importRule path queries source => .importRule path queries (r.excerpt source)
  | .charset name source => .charset name (r.excerpt source)
  | .declaration d => .declaration (r.declaration d)
  | .selector s => .selector (r.selector s)
  | .spread expression source => .spread (r.excerpt expression) (r.excerpt source)

/-- The head with its excerpts recast. -/
def head : Head → Head
  | .rule dialect selectors => .rule dialect (selectors.map r.selector)
  | .media queries => .media (r.excerpt queries)
  | .page pseudo => .page pseudo
  | .variableBlock keyword name exported => .variableBlock keyword name exported

/-- The node with all excerpts recast, at every depth. -/
def node : Node → Node :=
  Node.change ⟨r.leaf, r.head, r.excerpt⟩

variable {r}

/-- Recast positions that stay leave nodes as they are. -/
theorem node_eq_self (h : ∀ position, r.position position = position) (node : Node) :
    r.node node = node := by
  have hexcerpt (excerpt : Excerpt) : r.excerpt excerpt = excerpt := by
    rw [Recasting.excerpt, h]
  have hselector : r.selector = id := by
    funext selector
    rw [Recasting.selector, hexcerpt]
    rfl
  refine Node.change_eq_self ?_ ?_ hexcerpt node
  · rintro (source | source | ⟨path, queries, source⟩ | ⟨name, source⟩ | d | s |
      ⟨expression, source⟩)
    all_goals simp [leaf, declaration, hselector, hexcerpt]
  · rintro (⟨dialect, selectors⟩ | queries | pseudo | ⟨keyword, name, exported⟩)
    all_goals simp [head, hselector, hexcerpt]

end Recasting

namespace Grammar

open StyleSyntax.Parser

variable {r : Recasting}

/-- Trivia is recast as an ignored node. -/
theorem recasts_ignored : ignored.Recasts r r.node ignored :=
  recasts_trivia.map fun _ => rfl

/-- A lone semicolon is recast. -/
theorem recasts_straySemicolon : straySemicolon.Recasts r r.node straySemicolon :=
  (recasts_symbol [';']).excerpt.map fun _ => rfl

/-- An item is trivia in both runs or a statement in both. -/
theorem recasts_item {p q : Parser Node} (h : p.Recasts r r.node q) :
    (item p).Recasts r r.node (item q) := by
  refine ⟨fun region rest hscope => ?_, fun _ => rfl⟩
  unfold item
  simp only [List.head?_map, Option.any_map, Recasting.token_isTrivia]
  split_ifs
  · exact recasts_ignored.reply region rest hscope
  · exact h.reply region rest hscope

/-- Items are recast one by one. -/
theorem recasts_items {p q : Parser Node} (h : p.Recasts r r.node q) :
    (items p).Recasts r (List.map r.node) (items q) :=
  (recasts_item h).all

/-- The value of a declaration is recast. -/
theorem recasts_declarationValue (hr : r.Enters) (dialect : Dialect) :
    (declarationValue dialect).Recasts r id (declarationValue dialect) := by
  refine recasts_value hr _ (fun token => Recasting.token_isSymbol token _) fun previous token => ?_
  unfold valueAllows
  rw [Recasting.token_isBraces, Option.any_map]
  have hliteral (before : Token) :
      ((r.token before).kind == .literal) = (before.kind == .literal) :=
    Recasting.token_kind_beq before rfl
  simp only [hliteral, Recasting.token_value]

/-- The mark of importance is recast. -/
theorem recasts_importantMark : importantMark.Recasts r r.token importantMark :=
  Recasts.attempt <| (recasts_symbol _).bind fun _ => (recasts_keyword _).step 1

/-- A declaration is recast. -/
theorem recasts_declaration (hr : r.Enters) (dialect : Dialect) :
    (declaration dialect).Recasts r r.node (declaration dialect) := by
  refine Recasts.bind (f := Prod.map (fun parts : Excerpt × Excerpt × Bool =>
    (r.excerpt parts.1, r.excerpt parts.2.1, parts.2.2)) r.excerpt) (Recasts.capture ?_)
    fun _ => recasts_pure rfl
  exact Recasts.attempt <| (recasts_identifier hr dialect).bind fun _ =>
    ((recasts_symbol _).step 1).bind fun _ =>
      ((recasts_declarationValue hr dialect).excerpt.step 2).bind fun _ =>
        (recasts_importantMark.optional.step 3).bind fun mark =>
          (recasts_statementEnd.step 4).bind fun _ => recasts_pure (by cases mark <;> rfl)

/-- The rule for the character set is recast. -/
theorem recasts_charset : charset.Recasts r r.node charset := by
  refine Recasts.bind (f := Prod.map r.token r.excerpt) (Recasts.capture ?_)
    fun _ => recasts_pure rfl
  exact Recasts.attempt <| (recasts_symbol _).bind fun _ => ((recasts_keyword _).step 1).bind
    fun _ => (recasts_anyString.step 2).bind fun _ => (recasts_statementEnd.step 3).bind fun _ =>
      recasts_pure rfl

/-- The path of an import is recast. -/
theorem recasts_importPath : importPath.Recasts r id importPath := by
  have haddress : (attempt do
      let _ ← keyword "url".toList
      step 1 noSpacesHere
      step 2 roundBrackets : Parser Token).Recasts r r.token
        (attempt do
          let _ ← keyword "url".toList
          step 1 noSpacesHere
          step 2 roundBrackets) :=
    Recasts.attempt <| (recasts_keyword _).bind fun _ => (recasts_noSpacesHere.step 1).bind fun _ =>
      (recasts_anyToken rfl).step 2
  exact recasts_firstOf <| .cons (recasts_anyString.map fun _ => rfl) <|
    .cons (haddress.excerpt.map fun _ => rfl) .nil

/-- The rule that imports a sheet is recast. -/
theorem recasts_importRule (hr : r.Enters) : importRule.Recasts r r.node importRule := by
  refine Recasts.bind (f := Prod.map (Prod.map id (Option.map r.excerpt)) r.excerpt)
    (Recasts.capture ?_) fun captured => recasts_pure ?_
  · exact Recasts.attempt <| (recasts_symbol _).bind fun _ => ((recasts_keyword _).step 1).bind
      fun _ => (recasts_importPath.step 2).bind fun _ =>
        ((recasts_mediaQueryList hr).optional.step 3).bind fun _ =>
          (recasts_statementEnd.step 4).bind fun _ => recasts_pure rfl
  · obtain ⟨⟨path, queries⟩, source⟩ := captured
    cases queries <;> rfl

/-- Three dots and an expression are recast. -/
theorem recasts_spread (hr : r.Enters) : spread.Recasts r r.node spread := by
  refine Recasts.bind (f := Prod.map r.excerpt r.excerpt) (Recasts.capture ?_)
    fun _ => recasts_pure rfl
  exact Recasts.attempt <| (recasts_symbol _).bind fun _ =>
    ((recasts_value hr _ (fun _ => rfl) fun _ _ => rfl).excerpt.step 1).bind fun _ =>
      (recasts_statementEnd.step 2).bind fun _ => recasts_pure rfl

/-- The recast script has as many tokens. -/
theorem scriptLength_map (tokens : List Token) :
    scriptLength (tokens.map r.token) = scriptLength tokens := by
  induction tokens with
  | nil => rfl
  | cons token rest ih =>
    simp only [List.map_cons, scriptLength, ih, Recasting.token_isTrivia, Recasting.token_isBraces,
      Recasting.token_isSemicolon, breaksLine, Recasting.token_value, List.head?_map,
      Option.any_map]
    rfl

/-- Script is recast. -/
theorem recasts_script (hr : r.Enters) : script.Recasts r r.node script := by
  refine ⟨fun region rest hscope => ?_, fun _ => rfl⟩
  have hdropped := Recasting.scope_dropTrivia hscope
  unfold script
  dsimp only
  rw [Recasting.dropTrivia_map, Recasting.expected_map]
  cases h : dropTrivia rest with
  | nil => exact ⟨rfl, hscope⟩
  | cons token following =>
    rw [h] at hdropped
    rw [List.map_cons]
    dsimp only
    rw [← List.map_cons, scriptLength_map, ← List.map_take, Recasting.spelling_map,
      ← List.map_drop]
    exact ⟨rfl, hr.scope_drop hdropped _⟩

/-- The parsers of the bodies are recast. -/
structure Bodies.Recast (r : Recasting) (bodies : Bodies) : Prop where
  block (dialect : Dialect) :
    (bodies.blockItems dialect).Recasts r (List.map r.node) (bodies.blockItems dialect)
  media (dialect : Dialect) :
    (bodies.mediaItems dialect).Recasts r (List.map r.node) (bodies.mediaItems dialect)
  page (dialect : Dialect) :
    (bodies.pageItems dialect).Recasts r (List.map r.node) (bodies.pageItems dialect)

/-- A body between braces is recast. -/
theorem recasts_body (hr : r.Enters) {p : Parser (List Node)}
    (h : p.Recasts r (List.map r.node) p) :
    (block braces p).Recasts r (List.map r.node) (block braces p) := by
  refine h.block hr fun kind => ?_
  rw [braces_contains, braces_contains, r.isBraces_kind]

/-- A node with a body is recast. -/
theorem node_block (head : Head) (items : List Node) (source : Excerpt) :
    r.node (.block head items source) =
      .block (r.head head) (items.map r.node) (r.excerpt source) := by
  rw [Recasting.node, Node.change, Node.changeAll_eq_map]

variable {bodies : Bodies}

/-- A rule is recast with its body. -/
theorem recasts_ruleBlock (hr : r.Enters) (hbodies : bodies.Recast r) (dialect : Dialect) :
    (ruleBlock bodies dialect).Recasts r r.node (ruleBlock bodies dialect) := by
  refine Recasts.bind (f := Prod.map (Prod.map (List.map r.selector) (List.map r.node)) r.excerpt)
    (Recasts.capture ?_) fun _ => recasts_pure (by rw [node_block]; rfl)
  have hcompound : (compoundSelector dialect).Recasts r id (compoundSelector dialect) :=
    recasts_compoundSelector (recasts_identifier hr dialect) (recasts_elementName hr dialect)
  exact Recasts.attempt <| (recasts_selectorList hcompound).bind fun _ =>
    ((recasts_body hr (hbodies.block dialect)).step 1).bind fun _ => recasts_pure rfl

/-- A media rule is recast with its body. -/
theorem recasts_mediaRule (hr : r.Enters) (hbodies : bodies.Recast r) (dialect : Dialect) :
    (mediaRule bodies dialect).Recasts r r.node (mediaRule bodies dialect) := by
  refine Recasts.bind (f := Prod.map (Prod.map r.excerpt (List.map r.node)) r.excerpt)
    (Recasts.capture ?_) fun _ => recasts_pure (by rw [node_block]; rfl)
  exact Recasts.attempt <| (recasts_symbol _).bind fun _ => ((recasts_keyword _).step 1).bind
    fun _ => ((recasts_mediaQueryList hr).step 2).bind fun _ =>
      ((recasts_body hr (hbodies.media dialect)).step 3).bind fun _ => recasts_pure rfl

/-- The pseudo class of a page is recast. -/
theorem recasts_pagePseudo (hr : r.Enters) : pagePseudo.Recasts r r.excerpt pagePseudo :=
  Recasts.excerpt <| Recasts.attempt <| (recasts_symbol _).bind fun _ =>
    (recasts_noSpacesHere.step 1).bind fun _ => (recasts_identifier hr .css).step 2

/-- A page rule is recast with its body. -/
theorem recasts_pageRule (hr : r.Enters) (hbodies : bodies.Recast r) (dialect : Dialect) :
    (pageRule bodies dialect).Recasts r r.node (pageRule bodies dialect) := by
  refine Recasts.bind (f := Prod.map (Prod.map (Option.map r.excerpt) (List.map r.node)) r.excerpt)
    (Recasts.capture ?_) fun captured => recasts_pure ?_
  · exact Recasts.attempt <| (recasts_symbol _).bind fun _ => ((recasts_keyword _).step 1).bind
      fun _ => ((recasts_pagePseudo hr).optional.step 2).bind fun _ =>
        ((recasts_body hr (hbodies.page dialect)).step 3).bind fun _ => recasts_pure rfl
  · obtain ⟨⟨pseudo, items⟩, source⟩ := captured
    rw [node_block]
    cases pseudo <;> rfl

/-- A variable is recast with its body. -/
theorem recasts_variableBlock (hr : r.Enters) (hbodies : bodies.Recast r) :
    (variableBlock bodies).Recasts r r.node (variableBlock bodies) := by
  have hkeyword : varKeyword.Recasts r id varKeyword :=
    recasts_firstOf <| .cons ((recasts_keyword _).map fun _ => rfl) <|
      .cons ((recasts_keyword _).map fun _ => rfl) <|
        .cons ((recasts_keyword _).map fun _ => rfl) .nil
  refine Recasts.bind (f := Prod.map (Prod.map (Option.map r.token)
    (Prod.map id (Prod.map r.token (List.map r.node)))) r.excerpt)
    (Recasts.capture ?_) fun captured => recasts_pure ?_
  · exact Recasts.attempt <| (recasts_keyword _).optional.bind fun _ => (hkeyword.step 1).bind
      fun _ => ((recasts_anyToken rfl).step 2).bind fun _ => ((recasts_symbol _).step 3).bind
        fun _ => ((recasts_body hr (hbodies.block .jss)).step 4).bind fun _ =>
          ((recasts_symbol _).optional.step 5).bind fun _ => recasts_pure rfl
  · obtain ⟨⟨exporting, keyword, name, items⟩, source⟩ := captured
    rw [node_block]
    cases exporting <;> rfl

/-- The rule for a name is recast. -/
theorem recasts_namedRule (hr : r.Enters) (hbodies : bodies.Recast r) (dialect : Dialect)
    (name : Token) :
    (namedRule bodies dialect name).Recasts r r.node (namedRule bodies dialect (r.token name)) := by
  unfold namedRule
  simp only [Recasting.token_isLiteral]
  split_ifs
  · exact recasts_charset
  · exact recasts_importRule hr
  · exact recasts_mediaRule hr hbodies dialect
  · exact recasts_pageRule hr hbodies dialect
  · exact recasts_fail fun _ _ => rfl

/-- An at-rule is recast. -/
theorem recasts_atRule (hr : r.Enters) (hbodies : bodies.Recast r) (dialect : Dialect) :
    (atRule bodies dialect).Recasts r r.node (atRule bodies dialect) := by
  refine ⟨fun region rest hscope => ?_, fun _ => rfl⟩
  unfold atRule
  dsimp only
  rw [Recasting.dropTrivia_map, Recasting.expected_map]
  cases h : dropTrivia rest with
  | nil => exact ⟨rfl, hscope⟩
  | cons sign following =>
    rw [List.map_cons]
    dsimp only
    rw [Recasting.token_isAt]
    split_ifs
    · cases following with
      | nil =>
        exact ⟨congrArg (Reply.mk · _) (congrArg _ (Recasting.expected_map region _ [])), hscope⟩
      | cons name more => exact (recasts_namedRule hr hbodies dialect name).reply region rest hscope
    · exact ⟨rfl, hscope⟩

/-- Semicolons and declarations are recast. -/
theorem recasts_declarationItems (hr : r.Enters) (dialect : Dialect) :
    (declarationItems dialect).Recasts r (List.map r.node) (declarationItems dialect) :=
  recasts_items <| recasts_firstOf <|
    .cons (recasts_straySemicolon.probe Recasting.token_isSemicolon) <|
      .cons (recasts_declaration hr dialect) .nil

/-- The tests of literals that begin statements do not see a recasting. -/
theorem isScriptKeyword_token (token : Token) :
    isScriptKeyword (r.token token) = isScriptKeyword token := by
  rw [isScriptKeyword, Recasting.token_kind_beq _ rfl, isScriptKeyword, Recasting.token_value]

/-- The test for variables does not see a recasting. -/
theorem isVariableStart_token (token : Token) :
    isVariableStart (r.token token) = isVariableStart token := by
  rw [isVariableStart, Recasting.token_kind_beq _ rfl, isVariableStart, Recasting.token_value]

/-- The test for spreads does not see a recasting. -/
theorem isSpreadStart_token (token : Token) :
    isSpreadStart (r.token token) = isSpreadStart token := by
  rw [isSpreadStart, Recasting.token_kind_beq _ rfl, isSpreadStart, Recasting.token_value]

/-- The items of a rule are recast. -/
theorem recasts_blockItems (hr : r.Enters) (hbodies : bodies.Recast r) (dialect : Dialect) :
    (blockItems bodies dialect).Recasts r (List.map r.node) (blockItems bodies dialect) := by
  cases dialect with
  | css => exact recasts_declarationItems hr .css
  | jss =>
    exact recasts_items <| recasts_firstOf <|
      .cons (recasts_straySemicolon.probe Recasting.token_isSemicolon) <|
      .cons ((recasts_atRule hr hbodies .jss).probe Recasting.token_isAt) <|
      .cons ((recasts_variableBlock hr hbodies).probe isVariableStart_token) <|
      .cons ((recasts_spread hr).probe isSpreadStart_token) <|
      .cons ((recasts_script hr).probe isScriptKeyword_token) <|
      .cons (recasts_declaration hr .jss) <| .cons (recasts_ruleBlock hr hbodies .jss) .nil

/-- The items of a media rule are recast. -/
theorem recasts_mediaItems (hr : r.Enters) (hbodies : bodies.Recast r) (dialect : Dialect) :
    (mediaItems bodies dialect).Recasts r (List.map r.node) (mediaItems bodies dialect) :=
  recasts_items <| recasts_firstOf <|
    .cons (recasts_straySemicolon.probe Recasting.token_isSemicolon) <|
    .cons ((recasts_atRule hr hbodies dialect).probe Recasting.token_isAt) <|
    .cons (recasts_ruleBlock hr hbodies dialect) .nil

/-- The items of a sheet are recast. -/
theorem recasts_stylesheetItems (hr : r.Enters) (hbodies : bodies.Recast r) (dialect : Dialect) :
    (stylesheetItems bodies dialect).Recasts r (List.map r.node)
      (stylesheetItems bodies dialect) := by
  cases dialect with
  | css => exact recasts_mediaItems hr hbodies .css
  | jss =>
    exact recasts_items <| recasts_firstOf <|
      .cons (recasts_straySemicolon.probe Recasting.token_isSemicolon) <|
      .cons ((recasts_atRule hr hbodies .jss).probe Recasting.token_isAt) <|
      .cons ((recasts_variableBlock hr hbodies).probe isVariableStart_token) <|
      .cons ((recasts_script hr).probe isScriptKeyword_token) <|
      .cons (recasts_ruleBlock hr hbodies .jss) <| .cons (recasts_script hr) .nil

/-- The bodies of every depth are recast. -/
theorem Bodies.within_recast (hr : r.Enters) (depth : Nat) : (Bodies.within depth).Recast r := by
  induction depth with
  | zero =>
    exact ⟨fun _ => recasts_unexpected _, fun _ => recasts_unexpected _,
      fun _ => recasts_unexpected _⟩
  | succ depth ih =>
    exact ⟨fun dialect => (recasts_blockItems hr ih dialect).delay,
      fun dialect => (recasts_mediaItems hr ih dialect).delay, recasts_declarationItems hr⟩

/-- A stylesheet is recast. -/
theorem recasts_stylesheet (hr : r.Enters) (dialect : Dialect) :
    (stylesheet dialect).Recasts r (List.map r.node) (stylesheet dialect) := by
  refine ⟨fun region rest hscope => ?_, fun _ => rfl⟩
  dsimp only [stylesheet, withBodies]
  rw [Recasting.spelling_map]
  exact (recasts_stylesheetItems hr (Bodies.within_recast hr _) dialect).reply region rest hscope

end Grammar

end StyleSyntax
