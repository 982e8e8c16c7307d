import StyleSyntax.Document.Basic
import StyleSyntax.Proofs.Grammar.Statement

/-!
# Contracts of item lists and stylesheets

An item list consumes everything, and its items are read from it: a run of trivia becomes one item
since a statement never begins in one. The bodies of each depth keep their promise by that of the
depth below, so in every setting a stylesheet either is read from all of its tokens or fails with an
admitted error.
-/

namespace StyleSyntax

namespace Grammar

open StyleSyntax.Parser

variable {setting : Setting}

/-- Trivia is read as one ignored node, and none is left behind it. -/
theorem keeps_ignored (dialect : Dialect) (place : Place) :
    ignored.Keeps setting fun region used next node =>
      NodeOf region.config dialect place used node ∧ dropTrivia next = next := by
  refine Keeps.map (keeps_trivia.mono ?_)
  rintro region used next source ⟨hused, hnext, first, more, rfl, rfl⟩
  exact ⟨.trivia hused, hnext⟩

/-- An item is read from exactly what is consumed, and trivia is consumed as a whole run. -/
theorem keeps_item {dialect : Dialect} {place : Place} {statement : Parser Node}
    (h : statement.Keeps setting (Promise.statement dialect place)) :
    (item statement).Keeps setting fun region used next node =>
      NodeOf region.config dialect place used node ∧ (AllTrivia used → dropTrivia next = next) := by
  constructor
  intro region rest hscope
  unfold item
  dsimp only
  split_ifs with hhead
  · refine ((keeps_ignored dialect place).reply region rest hscope).mono ?_
    intro used next node hnode
    exact ⟨hnode.1, fun _ => hnode.2⟩
  · have hreply := h.reply region rest hscope
    generalize statement.run region rest = reply at hreply ⊢
    rcases reply with ⟨node | error | _, next⟩
    · obtain ⟨used, rfl, hends, hnode⟩ := hreply
      cases used with
      | nil => exact absurd rfl hends.ne_nil
      | cons first more =>
        have hfirst : first.isSignificant := by simpa [Token.isSignificant] using hhead
        rw [dropTrivia_cons hfirst] at hnode
        refine ⟨first :: more, rfl, hnode, fun htrivia => ?_⟩
        -- The first token is significant, so what is consumed is not trivia alone.
        have hnot := isTrivia_eq_false_of_significant hfirst
        rw [htrivia first List.mem_cons_self] at hnot
        cases hnot
    · exact hreply
    · exact hreply

/-- Items are read from all tokens. -/
theorem keeps_items {dialect : Dialect} {place : Place} {statement : Parser Node}
    (h : statement.Keeps setting (Promise.statement dialect place)) :
    (items statement).Keeps setting (Promise.items dialect place) :=
  (keeps_item h).all (fun _ => .nil) fun _ _ _ _ _ hnode hnodes => .cons hnode.1 hnode.2 hnodes

/-- The alternatives for a statement of a page, and of a rule that does not nest. -/
def declarationStatements (dialect : Dialect) : List (Parser Node) :=
  [probe Token.isSemicolon straySemicolon, declaration dialect]

/-- The alternatives for a statement of a sheet, in the order in which they are tried. -/
def sheetStatements (bodies : Bodies) : Dialect → List (Parser Node)
  | .css =>
    [probe Token.isSemicolon straySemicolon, probe Token.isAt (atRule bodies .css),
      ruleBlock bodies .css]
  | .jss =>
    [probe Token.isSemicolon straySemicolon, probe Token.isAt (atRule bodies .jss),
      probe isVariableStart (variableBlock bodies), probe isScriptKeyword script,
      ruleBlock bodies .jss, script]

/-- The statements of a rule body, in the order in which they are tried. -/
def ruleStatements (bodies : Bodies) : Dialect → List (Parser Node)
  | .css => [probe Token.isSemicolon straySemicolon, declaration .css]
  | .jss =>
    [probe Token.isSemicolon straySemicolon, probe Token.isAt (atRule bodies .jss),
      probe isVariableStart (variableBlock bodies), probe isSpreadStart spread,
      probe isScriptKeyword script, declaration .jss, ruleBlock bodies .jss]

/-- The statements of a media rule, in the order in which they are tried. -/
def mediaStatements (bodies : Bodies) (dialect : Dialect) : List (Parser Node) :=
  [probe Token.isSemicolon straySemicolon, probe Token.isAt (atRule bodies dialect),
    ruleBlock bodies dialect]

/-- The alternatives for a statement at a place. -/
def statementsAt (bodies : Bodies) (dialect : Dialect) : Place → List (Parser Node)
  | .sheet => sheetStatements bodies dialect
  | .block => ruleStatements bodies dialect
  | .media => mediaStatements bodies dialect
  | .page => declarationStatements dialect

/-- The items at a place are trivia and its statements. -/
def itemsAt (bodies : Bodies) (dialect : Dialect) (place : Place) : Parser (List Node) :=
  items (firstOf (statementsAt bodies dialect place))

variable {bodies : Bodies}

/-- The items of a sheet are trivia and its statements. -/
theorem stylesheetItems_eq (bodies : Bodies) (dialect : Dialect) :
    stylesheetItems bodies dialect = items (firstOf (sheetStatements bodies dialect)) := by
  cases dialect <;> rfl

/-- The items of a rule body are trivia and its statements. -/
theorem blockItems_eq (bodies : Bodies) (dialect : Dialect) :
    blockItems bodies dialect = items (firstOf (ruleStatements bodies dialect)) := by
  cases dialect <;> rfl

/-- Semicolons and declarations keep their promise where declarations may stand. -/
theorem keeps_declarationStatements (dialect : Dialect) {place : Place}
    (hplace : place.HasDeclarations) :
    (firstOf (declarationStatements dialect)).Keeps setting (Promise.statement dialect place) := by
  refine keeps_firstOf ?_
  simp only [declarationStatements, List.forall_mem_cons]
  exact ⟨(keeps_straySemicolon dialect place).probe _, keeps_declaration dialect hplace, by simp⟩

/-- The statements of a sheet keep their promise by that of the bodies in them. -/
theorem keeps_sheetStatements (hbodies : bodies.Keep setting) (dialect : Dialect) :
    (firstOf (sheetStatements bodies dialect)).Keeps setting
      (Promise.statement dialect .sheet) := by
  have hrules : Place.sheet.HasRules dialect := trivial
  refine keeps_firstOf ?_
  cases dialect with
  | css =>
    simp only [sheetStatements, List.forall_mem_cons]
    exact ⟨(keeps_straySemicolon .css .sheet).probe _, (keeps_atRule hbodies hrules).probe _,
      keeps_ruleBlock hbodies hrules, by simp⟩
  | jss =>
    have hscript : Place.sheet.HasScript .jss := ⟨rfl, .inl rfl⟩
    simp only [sheetStatements, List.forall_mem_cons]
    exact ⟨(keeps_straySemicolon .jss .sheet).probe _, (keeps_atRule hbodies hrules).probe _,
      (keeps_variableBlock hbodies hscript).probe _, (keeps_script hscript).probe _,
      keeps_ruleBlock hbodies hrules, keeps_script hscript, by simp⟩

/-- The statements of a block keep their promise by that of the bodies in them. -/
theorem keeps_ruleStatements (hbodies : bodies.Keep setting) (dialect : Dialect) :
    (firstOf (ruleStatements bodies dialect)).Keeps setting
      (Promise.statement dialect .block) := by
  cases dialect with
  | css => exact keeps_declarationStatements .css (.inl rfl)
  | jss =>
    have hrules : Place.block.HasRules .jss := rfl
    have hscript : Place.block.HasScript .jss := ⟨rfl, .inr rfl⟩
    refine keeps_firstOf ?_
    simp only [ruleStatements, List.forall_mem_cons]
    exact ⟨(keeps_straySemicolon .jss .block).probe _, (keeps_atRule hbodies hrules).probe _,
      (keeps_variableBlock hbodies hscript).probe _, keeps_spread.probe _,
      (keeps_script hscript).probe _, keeps_declaration .jss (.inl rfl),
      keeps_ruleBlock hbodies hrules, by simp⟩

/-- The statements of a media rule keep their promise by that of the bodies in them. -/
theorem keeps_mediaStatements (hbodies : bodies.Keep setting) (dialect : Dialect) :
    (firstOf (mediaStatements bodies dialect)).Keeps setting
      (Promise.statement dialect .media) := by
  have hrules : Place.media.HasRules dialect := trivial
  refine keeps_firstOf ?_
  simp only [mediaStatements, List.forall_mem_cons]
  exact ⟨(keeps_straySemicolon dialect .media).probe _, (keeps_atRule hbodies hrules).probe _,
    keeps_ruleBlock hbodies hrules, by simp⟩

/-- The statements at every place keep their promise by that of the bodies in them. -/
theorem keeps_statementsAt (hbodies : bodies.Keep setting) (dialect : Dialect) (place : Place) :
    (firstOf (statementsAt bodies dialect place)).Keeps setting
      (Promise.statement dialect place) := by
  cases place with
  | sheet => exact keeps_sheetStatements hbodies dialect
  | block => exact keeps_ruleStatements hbodies dialect
  | media => exact keeps_mediaStatements hbodies dialect
  | page => exact keeps_declarationStatements dialect (.inr rfl)

/-- The items at every place keep their promise by that of the bodies in them. -/
theorem keeps_itemsAt (hbodies : bodies.Keep setting) (dialect : Dialect) (place : Place) :
    (itemsAt bodies dialect place).Keeps setting (Promise.items dialect place) :=
  keeps_items (keeps_statementsAt hbodies dialect place)

/-- The items of a page, and of a rule that does not nest, are semicolons and declarations. -/
theorem keeps_declarationItems (dialect : Dialect) {place : Place}
    (hplace : place.HasDeclarations) :
    (declarationItems dialect).Keeps setting (Promise.items dialect place) :=
  keeps_items (keeps_declarationStatements dialect hplace)

/-- The items of a block keep their promise by that of the bodies in them. -/
theorem keeps_blockItems (hbodies : bodies.Keep setting) (dialect : Dialect) :
    (blockItems bodies dialect).Keeps setting (Promise.items dialect .block) := by
  rw [blockItems_eq]
  exact keeps_itemsAt hbodies dialect .block

/-- The items of a media rule keep their promise by that of the bodies in them. -/
theorem keeps_mediaItems (hbodies : bodies.Keep setting) (dialect : Dialect) :
    (mediaItems bodies dialect).Keeps setting (Promise.items dialect .media) :=
  keeps_itemsAt hbodies dialect .media

/-- The items of a sheet keep their promise by that of the bodies in them. -/
theorem keeps_stylesheetItems (hbodies : bodies.Keep setting) (dialect : Dialect) :
    (stylesheetItems bodies dialect).Keeps setting (Promise.items dialect .sheet) := by
  rw [stylesheetItems_eq]
  exact keeps_itemsAt hbodies dialect .sheet

/-- The bodies of every depth keep their promises. -/
theorem Bodies.within_keep (depth : Nat) : (Bodies.within depth).Keep setting := by
  induction depth with
  | zero => exact ⟨fun _ => keeps_unexpected, fun _ => keeps_unexpected, fun _ => keeps_unexpected⟩
  | succ depth ih =>
    rw [Bodies.within]
    exact ⟨fun dialect => (keeps_blockItems ih dialect).delay,
      fun dialect => (keeps_mediaItems ih dialect).delay,
      fun dialect => keeps_declarationItems dialect (.inr rfl)⟩

/-- A stylesheet is read from all of its tokens, or fails with an admitted error. -/
theorem keeps_stylesheet (dialect : Dialect) :
    (stylesheet dialect).Keeps setting (Promise.items dialect .sheet) := by
  constructor
  intro region rest hscope
  dsimp only [stylesheet, withBodies]
  exact (keeps_stylesheetItems (Bodies.within_keep _) dialect).reply region rest hscope

end Grammar

/-- The answer for tokens in scope is a stylesheet read from all of them or an admitted error. -/
theorem parseTokens_keeps (setting : Setting) (tokens : List Token) (config : LexerConfig)
    (dialect : Dialect) (hscope : setting.scope
      (.ofTokens config (splitSymbolRuns tokens) .start) (splitSymbolRuns tokens)) :
    match parseTokens tokens config dialect with
    | .ok sheet => ItemsOf config dialect .sheet (splitSymbolRuns tokens) sheet
    | .failed error => setting.admits error
    | .endless => False := by
  have hreply := (Grammar.keeps_stylesheet dialect).reply _ _ hscope
  unfold parseTokens
  dsimp only
  generalize (Grammar.stylesheet dialect).run _ _ = reply at hreply ⊢
  rcases reply with ⟨sheet | error | _, next⟩
  · obtain ⟨used, hused, rfl, hitems⟩ := hreply
    rw [List.append_nil] at hused
    rw [hused]
    exact hitems
  · exact hreply
  · exact hreply

/-- Reading tokens ends with a stylesheet or an error, whatever the tokens are. -/
theorem parseTokens_ne_endless (tokens : List Token) (config : LexerConfig) (dialect : Dialect) :
    parseTokens tokens config dialect ≠ .endless := by
  have hanswer := parseTokens_keeps .any tokens config dialect trivial
  intro hendless
  rw [hendless] at hanswer
  exact hanswer

variable {text : Text} {config : LexerConfig} {dialect : Dialect} {sheet : Stylesheet}

/-- The nodes of a stylesheet are read from its split tokens. -/
theorem itemsOf_of_parseTokens {tokens : List Token}
    (h : parseTokens tokens config dialect = .ok sheet) :
    ItemsOf config dialect .sheet (splitSymbolRuns tokens) sheet := by
  have hanswer := parseTokens_keeps .any tokens config dialect trivial
  rw [h] at hanswer
  exact hanswer

/-- A document that is a stylesheet is read from the split tokens of its text without the mark. -/
theorem exists_itemsOf_of_parseDocument (h : parseDocument text config dialect = .ok sheet) :
    ∃ tokens, tokensOf config (withoutMark text) .start = .ok tokens ∧
      ItemsOf config dialect .sheet (splitSymbolRuns tokens) sheet := by
  unfold parseDocument documentTokens at h
  split at h
  · cases h
  · next tokens htokens =>
    refine ⟨tokens, htokens, itemsOf_of_parseTokens ?_⟩
    generalize parseTokens tokens config dialect = answer at h
    cases answer <;> cases h
    rfl

/-- A document that is no stylesheet has no tokens, or its tokens are no stylesheet. -/
theorem cases_of_parseDocument_failed {error : DocumentError}
    (h : parseDocument text config dialect = .failed error) :
    (∃ cause, tokensOf config (withoutMark text) .start = .error cause ∧
      error = .lexical cause) ∨
    ∃ tokens cause, tokensOf config (withoutMark text) .start = .ok tokens ∧
      parseTokens tokens config dialect = .failed cause ∧ error = .grammatical cause := by
  unfold parseDocument documentTokens at h
  split at h
  · next cause hcause =>
    cases h
    exact .inl ⟨cause, hcause, rfl⟩
  · next tokens htokens =>
    cases hanswer : parseTokens tokens config dialect with
    | ok sheet => rw [hanswer] at h; cases h
    | failed cause =>
      rw [hanswer] at h
      cases h
      exact .inr ⟨tokens, cause, htokens, hanswer, rfl⟩
    | endless => rw [hanswer] at h; cases h

end StyleSyntax
