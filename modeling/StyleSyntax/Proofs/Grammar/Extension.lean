import StyleSyntax.Proofs.Grammar.SharedDeclarations
import StyleSyntax.Proofs.Parser.Carrying

/-!
# Stylesheets of both languages

Statements of the plain language carry over to the extended language. Its lists of alternatives are
longer and in another order, but what stands earlier in them declines wherever a plain statement
begins. The exceptions are words that begin script: a declaration with such a word in the body of a
rule becomes script, and does so without harm if it is on one line, while a rule with such a word at
the top level is left aside here.
-/

namespace StyleSyntax

/-- The declarations directly in a rule that begin with a keyword are on one line each. -/
def Node.KeywordsOnOneLine (node : Node) : Prop :=
  ∀ d ∈ node.ruleDeclarations, startsWithKeyword d.source → '\n' ∉ d.source

/-- The node is a rule that begins with a keyword. -/
def Node.IsKeywordRule : Node → Prop
  | .block (.rule ..) _ source => startsWithKeyword source.text
  | _ => False

namespace Grammar

open StyleSyntax.Parser

variable {bodies : Bodies} {region : Region} {rest next : List Token} {node : Node}

/-- An item carries over when a statement does and ignored items stay as they are. -/
theorem carries_item {holds : Node → Prop} {f : Node → Node} {statement statement' : Parser Node}
    (h : statement.Carries holds f statement')
    (hignored : ∀ source, f (.leaf (.ignored source)) = .leaf (.ignored source)) :
    (item statement).Carries holds f (item statement') := by
  constructor
  intro region rest next node hlexed hrun hnode
  unfold item at hrun ⊢
  dsimp only at hrun ⊢
  split_ifs at hrun ⊢
  · obtain ⟨source, _, rfl⟩ := map_run_eq_ok.mp hrun
    rw [hignored]
    exact hrun
  · exact h.run hlexed hrun hnode

/-- What leads up to braces begins with a token of a selector or with the braces. -/
theorem LeadsTo.exists_first {stop : Token} {back : List Token} (h : LeadsTo (stop :: back) rest)
    (hstop : stop.isBraces) :
    ∃ token following, StyleSyntax.dropTrivia rest = token :: following ∧
      (isSelectorToken token ∨ token.isBraces) := by
  obtain ⟨front, hrest, hfront⟩ := leadsTo_dropTrivia h (isSignificant_of_isBraces hstop)
  rw [hrest]
  cases front with
  | nil => exact ⟨stop, back, rfl, .inr hstop⟩
  | cons token front => exact ⟨token, _, rfl, .inl (hfront token List.mem_cons_self)⟩

/-- A token of a selector and braces are neither a semicolon nor the sign of an at-rule. -/
theorem isSemicolon_and_isAt_of_isSelectorToken {token : Token}
    (h : isSelectorToken token ∨ token.isBraces) :
    token.isSemicolon = false ∧ token.isAt = false := by
  obtain ⟨kind, value, position⟩ := token
  cases kind with
  | symbol =>
    rcases h with h | h
    · simp only [isSelectorToken, Token.isTrivia, TokenKind.isTrivia, isName] at h
      constructor
      · have hne : value ≠ [';'] := by
          rintro rfl
          revert h
          decide
        simp [Token.isSemicolon, Token.isSymbol, hne]
      · have hne : value ≠ ['@'] := by
          rintro rfl
          revert h
          decide
        simp [Token.isAt, Token.isSymbol, hne]
    · cases h
  | _ => exact ⟨rfl, rfl⟩

/-- Where selectors lead up to braces neither a semicolon nor an at-rule stands. -/
theorem declines_of_leadsTo {stop : Token} {back : List Token} (h : LeadsTo (stop :: back) rest)
    (hstop : stop.isBraces) (dialect : Dialect) :
    ∀ p ∈ [probe Token.isSemicolon straySemicolon, probe Token.isAt (atRule bodies dialect)],
      p.Declines region rest := by
  obtain ⟨token, following, hrest, htoken⟩ := h.exists_first hstop
  obtain ⟨hsemicolon, hat⟩ := isSemicolon_and_isAt_of_isSelectorToken htoken
  have hfirst : firstSignificant rest = some token := by
    rw [firstSignificant_eq_head?, hrest, List.head?_cons]
  simp only [List.forall_mem_cons]
  refine ⟨fun haccepts => ?_, fun haccepts => ?_, by simp⟩
  · simp [probe, hfirst, hsemicolon] at haccepts
  · simp [probe, hfirst, hat] at haccepts

/-- The statements that are tried first at all places with script. -/
def earlyStatements (bodies : Bodies) : List (Parser Node) :=
  [probe Token.isSemicolon straySemicolon, probe Token.isAt (atRule bodies .jss),
    probe isVariableStart (variableBlock bodies)]

/-- Where selectors lead up to braces none of the early statements stands. -/
theorem earlyStatements_decline {stop : Token} {back : List Token} (hstop : stop.isBraces)
    (hrest : LeadsTo (stop :: back) rest) :
    ∀ p ∈ earlyStatements bodies, p.Declines region rest := by
  have hvariable : (variableBlock bodies).Refuses region rest :=
    variableBlock_refuses hrest (isSignificant_of_isBraces hstop) (kind_ne_of_isBraces hstop rfl)
      (afterSymbols_of_isBraces hstop _ _)
  have hlast : ∀ p ∈ [probe isVariableStart (variableBlock bodies)], p.Declines region rest :=
    List.forall_mem_singleton.mpr fun _ => hvariable
  exact List.forall_mem_append.mpr ⟨declines_of_leadsTo hrest hstop .jss, hlast⟩

/-- A rule is a list of selectors and a body. -/
theorem ruleBlock_run_eq_ok {dialect : Dialect} :
    (ruleBlock bodies dialect).run region rest = ⟨.ok node, next⟩ ↔
      ∃ selectors items middle, (selectorList dialect).run region rest = ⟨.ok selectors, middle⟩ ∧
        (block braces (bodies.blockItems dialect)).run region middle = ⟨.ok items, next⟩ ∧
        node = .block (.rule dialect selectors) items
          (excerptOf (consumed rest next) (significantPosition rest region.finish)) := by
  unfold ruleBlock
  constructor
  · intro h
    obtain ⟨⟨⟨selectors, items⟩, source⟩, _, hcaptured, hnode⟩ := bind_run_eq_ok.mp h
    obtain ⟨rfl, rfl⟩ := pure_run_eq_ok.mp hnode
    obtain ⟨hparts, hsource⟩ := capture_run_eq_ok.mp hcaptured
    obtain ⟨_, middle, hselectors, hparts⟩ := bind_run_eq_ok.mp (attempt_run_eq_ok.mp hparts)
    obtain ⟨_, _, hitems, hpure⟩ := bind_run_eq_ok.mp hparts
    obtain ⟨hpure, rfl⟩ := pure_run_eq_ok.mp hpure
    cases hpure
    obtain rfl : source = _ := hsource
    exact ⟨selectors, items, middle, hselectors, step_run_eq_ok.mp hitems, rfl⟩
  · rintro ⟨selectors, items, middle, hselectors, hitems, rfl⟩
    refine bind_run_eq_ok.mpr ⟨⟨⟨selectors, items⟩, _⟩, next,
      capture_run_eq_ok.mpr ⟨attempt_run_eq_ok.mpr ?_, rfl⟩, rfl⟩
    exact bind_run_eq_ok.mpr ⟨selectors, middle, hselectors,
      bind_run_eq_ok.mpr ⟨items, next, step_run_eq_ok.mpr hitems, rfl⟩⟩

/-- In a plain rule selectors lead up to the braces. -/
theorem exists_leadsTo_of_ruleBlock (hlexed : IsLexed region.config rest)
    (h : (ruleBlock bodies .css).run region rest = ⟨.ok node, next⟩) :
    ∃ stop, stop.isBraces ∧ LeadsTo (stop :: next) rest := by
  obtain ⟨selectors, items, middle, hselectors, hitems, -⟩ := ruleBlock_run_eq_ok.mp h
  obtain ⟨stop, hmiddle, hkind, -⟩ := block_run_eq_ok.mp hitems
  have hstop : stop.isBraces := (braces_contains stop.kind).symm.trans hkind
  exact ⟨stop, hstop, (selectorList_run_jss hlexed hselectors hmiddle hstop).1⟩

/-- The parsers of plain bodies carry over to those of the extended language. -/
structure Bodies.Extend (bodies : Bodies) : Prop where
  block : (bodies.blockItems .css).Carries
    (fun items => ∀ d ∈ items.filterMap Node.declaration?,
      startsWithKeyword d.source → '\n' ∉ d.source)
    (List.map Node.extendedInRule) (bodies.blockItems .jss)
  media : (bodies.mediaItems .css).Carries
    (fun items => ∀ item ∈ items, item.Everywhere Node.KeywordsOnOneLine)
    (List.map Node.extended) (bodies.mediaItems .jss)
  page : (bodies.pageItems .css).Carries (fun _ => True) (List.map Node.extended)
    (bodies.pageItems .jss)

/-- A plain rule carries over. -/
theorem carries_ruleBlock (hbodies : bodies.Extend) :
    (ruleBlock bodies .css).Carries (Node.Everywhere Node.KeywordsOnOneLine) Node.extended
      (ruleBlock bodies .jss) := by
  constructor
  intro region rest next node hlexed hrun hnode
  obtain ⟨selectors, items, middle, hselectors, hitems, rfl⟩ := ruleBlock_run_eq_ok.mp hrun
  obtain ⟨stop, hmiddle, hkind, -⟩ := block_run_eq_ok.mp hitems
  have hstop : stop.isBraces := (braces_contains stop.kind).symm.trans hkind
  obtain ⟨-, hselectors'⟩ := selectorList_run_jss hlexed hselectors hmiddle hstop
  obtain ⟨used, rfl, -⟩ := (keeps_selectorList .css).exists_used hselectors
  have hitems' := (hbodies.block.block braces).run hlexed.of_append hitems hnode.self
  exact ruleBlock_run_eq_ok.mpr ⟨_, _, middle, hselectors', hitems', rfl⟩

/-- A media rule carries over. -/
theorem carries_mediaRule (hbodies : bodies.Extend) :
    (mediaRule bodies .css).Carries (Node.Everywhere Node.KeywordsOnOneLine) Node.extended
      (mediaRule bodies .jss) := by
  refine Carries.bind_pure (Carries.capture <| Carries.attempt <| Carries.after (keeps_symbol _)
    fun _ => Carries.after ((keeps_keyword _).step 1) fun _ =>
      Carries.after (keeps_mediaQueryList.step 2) fun queries =>
        ((hbodies.media.block braces).step 3).paired queries) ?_
  rintro ⟨⟨queries, items⟩, source⟩ hnode
  refine ⟨hnode.items, ?_⟩
  rw [Node.extended, Node.extendedAll_eq_map]
  · rfl
  · simp

/-- A page rule carries over. -/
theorem carries_pageRule (hbodies : bodies.Extend) :
    (pageRule bodies .css).Carries (Node.Everywhere Node.KeywordsOnOneLine) Node.extended
      (pageRule bodies .jss) := by
  refine Carries.bind_pure (Carries.capture <| Carries.attempt <| Carries.after (keeps_symbol _)
    fun _ => Carries.after ((keeps_keyword _).step 1) fun _ =>
      Carries.after (keeps_pagePseudo.optional.step 2) fun pseudo =>
        ((hbodies.page.block braces).step 3).paired pseudo) ?_
  rintro ⟨⟨pseudo, items⟩, source⟩ hnode
  refine ⟨trivial, ?_⟩
  rw [Node.extended, Node.extendedAll_eq_map]
  · rfl
  · simp

/-- The rule for a name carries over. -/
theorem carries_namedRule (hbodies : bodies.Extend) (name : Token) :
    (namedRule bodies .css name).Carries (Node.Everywhere Node.KeywordsOnOneLine) Node.extended
      (namedRule bodies .jss name) := by
  unfold namedRule
  split_ifs
  · constructor
    intro region rest next node _ hrun _
    obtain ⟨_, _, _, hnode⟩ := bind_run_eq_ok.mp hrun
    obtain ⟨rfl, rfl⟩ := pure_run_eq_ok.mp hnode
    exact hrun
  · constructor
    intro region rest next node _ hrun _
    obtain ⟨_, _, _, hnode⟩ := bind_run_eq_ok.mp hrun
    obtain ⟨rfl, rfl⟩ := pure_run_eq_ok.mp hnode
    exact hrun
  · exact carries_mediaRule hbodies
  · exact carries_pageRule hbodies
  · exact carries_fail _

/-- An at-rule carries over. -/
theorem carries_atRule (hbodies : bodies.Extend) :
    (atRule bodies .css).Carries (Node.Everywhere Node.KeywordsOnOneLine) Node.extended
      (atRule bodies .jss) := by
  constructor
  intro region rest next node hlexed hrun hnode
  unfold atRule at hrun ⊢
  dsimp only at hrun ⊢
  cases hrest : dropTrivia rest with
  | nil =>
    rw [hrest] at hrun
    cases hrun
  | cons sign following =>
    rw [hrest] at hrun
    dsimp only at hrun ⊢
    split_ifs at hrun ⊢
    · cases following with
      | nil => cases hrun
      | cons name more => exact (carries_namedRule hbodies name).run hlexed hrun hnode
    · cases hrun

/-- A semicolon is an item of both languages. -/
theorem straySemicolon_run_extended (h : straySemicolon.run region rest = ⟨.ok node, next⟩) :
    node.extended = node ∧ node.extendedInRule = node := by
  obtain ⟨source, _, rfl⟩ := map_run_eq_ok.mp h
  exact ⟨rfl, rfl⟩

/-- A plain statement is a rule, or a semicolon or an at-rule; these two are what the extended
language tries first as well. -/
theorem plainStatement_cases (hbodies : bodies.Extend) (hlexed : IsLexed region.config rest)
    (h : (firstOf (mediaStatements bodies .css)).run region rest = ⟨.ok node, next⟩)
    (hnode : node.Everywhere Node.KeywordsOnOneLine) :
    (ruleBlock bodies .css).run region rest = ⟨.ok node, next⟩ ∨
      ∀ others, (firstOf (probe Token.isSemicolon straySemicolon ::
        probe Token.isAt (atRule bodies .jss) :: others)).run region rest =
          ⟨.ok node.extended, next⟩ := by
  rcases firstOf_cons_run_eq_ok.mp h with ⟨haccepts, hsemicolon⟩ | ⟨hdeclines, h⟩
  · refine .inr fun others => ?_
    rw [(straySemicolon_run_extended hsemicolon).1]
    exact firstOf_cons_run_eq_ok.mpr (.inl ⟨haccepts, hsemicolon⟩)
  · rcases firstOf_cons_run_eq_ok.mp h with ⟨haccepts, hat⟩ | ⟨-, h⟩
    · have hat' := (carries_atRule hbodies).run hlexed hat hnode
      exact .inr fun others => firstOf_cons_run_eq_ok.mpr
        (.inr ⟨hdeclines, firstOf_cons_run_eq_ok.mpr (.inl ⟨haccepts, hat'⟩)⟩)
    · obtain ⟨p, hp, hrule⟩ := exists_mem_of_firstOf_run h
      obtain rfl := List.mem_singleton.mp hp
      exact .inl hrule

/-- The statements of a media rule carry over. -/
theorem carries_mediaStatements (hbodies : bodies.Extend) :
    (firstOf (mediaStatements bodies .css)).Carries (Node.Everywhere Node.KeywordsOnOneLine)
      Node.extended (firstOf (mediaStatements bodies .jss)) := by
  constructor
  intro region rest next node hlexed hrun hnode
  rcases plainStatement_cases hbodies hlexed hrun hnode with hrule | hothers
  · obtain ⟨stop, hstop, hleads⟩ := exists_leadsTo_of_ruleBlock hlexed hrule
    exact run_firstOf_of_declines (p := ruleBlock bodies .jss)
      (declines_of_leadsTo hleads hstop .jss) rfl
      ((carries_ruleBlock hbodies).run hlexed hrule hnode)
  · exact hothers _

/-- Where a plain declaration stands none of the statements that are tried before script does. -/
theorem ruleStatements_decline (hlexed : IsLexed region.config rest)
    (h : (declaration .css).run region rest = ⟨.ok node, next⟩) :
    ∀ p ∈ earlyStatements bodies ++ [probe isSpreadStart spread], p.Declines region rest := by
  obtain ⟨token, following, hrest, hunit, -⟩ := exists_first_of_declaration hlexed h
  obtain ⟨hsemicolon, hat⟩ :=
    isSemicolon_and_isAt_of_isSelectorToken (.inl (isSelectorToken_of_isUnit token hunit))
  have hspread := isSpreadStart_of_isUnit hunit
  have hfirst : firstSignificant rest = some token := by
    rw [firstSignificant_eq_head?, hrest, List.head?_cons]
  simp only [earlyStatements, List.cons_append, List.nil_append, List.forall_mem_cons]
  refine ⟨fun haccepts => ?_, fun haccepts => ?_,
    fun _ => variableBlock_refuses_declaration hlexed h, fun haccepts => ?_, by simp⟩
  · simp [probe, hfirst, hsemicolon] at haccepts
  · simp [probe, hfirst, hat] at haccepts
  · simp [probe, hfirst, hspread] at haccepts

/-- A plain declaration in a rule body carries over as script when it begins with a keyword, and
otherwise as a declaration. -/
theorem declaration_run_extendedInRule (hlexed : IsLexed region.config rest)
    (h : (declaration .css).run region rest = ⟨.ok node, next⟩)
    (hline : startsWithKeyword node.source → '\n' ∉ node.source) :
    (firstOf (ruleStatements bodies .jss)).run region rest = ⟨.ok node.extendedInRule, next⟩ := by
  obtain ⟨token, following, hrest, -, hkeyword⟩ := exists_first_of_declaration hlexed h
  have hfirst : firstSignificant rest = some token := by
    rw [firstSignificant_eq_head?, hrest, List.head?_cons]
  have hfront : ∀ p ∈ earlyStatements bodies ++ [probe isSpreadStart spread],
      p.Declines region rest := ruleStatements_decline hlexed h
  obtain ⟨_, _, _, _, _, _, _, _, _, _, _, _, _, hleaf⟩ := declaration_run_eq_ok.mp h
  by_cases hscript : isScriptKeyword token
  · rw [hscript] at hkeyword
    have hrun := script_run_of_declaration hlexed h (hline hkeyword)
    have hextended : node.extendedInRule = .leaf (.script node.excerpt) := by
      rw [hleaf] at hkeyword ⊢
      exact congrArg Node.leaf (if_pos hkeyword)
    have haccepts : (firstSignificant rest).any isScriptKeyword := by
      rw [hfirst]
      exact hscript
    rw [hextended]
    exact run_firstOf_of_declines (p := probe isScriptKeyword script) hfront haccepts hrun
  · rw [Bool.not_eq_true] at hscript
    rw [hscript] at hkeyword
    have hextended : node.extendedInRule = node.relabelled := by
      rw [hleaf] at hkeyword ⊢
      exact congrArg Node.leaf (if_neg (Bool.eq_false_iff.mp hkeyword))
    have hlast : ∀ p ∈ [probe isScriptKeyword script], p.Declines region rest := by
      refine List.forall_mem_singleton.mpr fun haccepts => ?_
      simp [probe, hfirst, hscript] at haccepts
    rw [hextended]
    exact run_firstOf_of_declines (p := declaration .jss)
      (List.forall_mem_append.mpr ⟨hfront, hlast⟩) rfl (declaration_run_jss h)

/-- The statements of a rule body carry over, when those with a keyword are on one line. -/
theorem carries_ruleStatements (bodies : Bodies) :
    (firstOf (ruleStatements bodies .css)).Carries
      (fun node => ∀ d ∈ node.declaration?, startsWithKeyword d.source → '\n' ∉ d.source)
      Node.extendedInRule (firstOf (ruleStatements bodies .jss)) := by
  constructor
  intro region rest next node hlexed hrun hnode
  rcases firstOf_cons_run_eq_ok.mp hrun with ⟨haccepts, hsemicolon⟩ | ⟨-, hrun⟩
  · rw [(straySemicolon_run_extended hsemicolon).2]
    exact firstOf_cons_run_eq_ok.mpr (.inl ⟨haccepts, hsemicolon⟩)
  · obtain ⟨p, hp, hdeclaration⟩ := exists_mem_of_firstOf_run hrun
    obtain rfl := List.mem_singleton.mp hp
    refine declaration_run_extendedInRule hlexed hdeclaration ?_
    obtain ⟨_, _, _, _, _, _, _, _, _, _, _, _, _, rfl⟩ := declaration_run_eq_ok.mp hdeclaration
    exact hnode _ rfl

/-- Plain semicolons and declarations carry over where there is no script. -/
theorem carries_declarationItems :
    (declarationItems .css).Carries (fun _ => True) (List.map Node.extended)
      (declarationItems .jss) := by
  have hstatements :
      (firstOf [probe Token.isSemicolon straySemicolon, declaration .css]).Carries (fun _ => True)
        Node.extended (firstOf [probe Token.isSemicolon straySemicolon, declaration .jss]) := by
    constructor
    intro region rest next node _ hrun _
    rcases firstOf_cons_run_eq_ok.mp hrun with ⟨haccepts, hsemicolon⟩ | ⟨hdeclines, hrun⟩
    · rw [(straySemicolon_run_extended hsemicolon).1]
      exact firstOf_cons_run_eq_ok.mpr (.inl ⟨haccepts, hsemicolon⟩)
    · obtain ⟨p, hp, hdeclaration⟩ := exists_mem_of_firstOf_run hrun
      obtain rfl := List.mem_singleton.mp hp
      obtain ⟨_, _, _, _, _, _, _, _, _, _, _, _, _, rfl⟩ := declaration_run_eq_ok.mp hdeclaration
      exact run_firstOf_of_declines (List.forall_mem_singleton.mpr hdeclines) rfl
        (declaration_run_jss hdeclaration)
  have hkeeps : (firstOf (declarationStatements .css)).Keeps .any (Promise.statement .css .page) :=
    keeps_declarationStatements .css (.inr rfl)
  refine ((carries_item hstatements fun _ => rfl).all (keeps_item hkeeps)).mono fun _ _ => ?_
  exact ⟨fun _ _ => trivial, rfl⟩

/-- The parsers of plain bodies carry over at every depth. -/
theorem Bodies.within_extend (depth : Nat) : (Bodies.within depth).Extend := by
  induction depth with
  | zero => exact ⟨carries_fail _, carries_fail _, carries_fail _⟩
  | succ depth ih =>
    have hkeep : (Bodies.within depth).Keep .any := Bodies.within_keep depth
    have hstatement := keeps_ruleStatements hkeep .css
    have hmedia := keeps_mediaStatements hkeep .css
    refine ⟨Carries.delay ?_, Carries.delay ?_, carries_declarationItems⟩
    · rw [blockItems_eq, blockItems_eq]
      have hitem := carries_item (carries_ruleStatements (.within depth)) fun _ => rfl
      refine (hitem.all (keeps_item hstatement)).mono fun nodes hnodes => ?_
      refine ⟨fun node hnode d hd => ?_, rfl⟩
      exact hnodes d (List.mem_filterMap.mpr ⟨node, hnode, hd⟩)
    · exact (carries_item (carries_mediaStatements ih) fun _ => rfl).all (keeps_item hmedia)

/-- A plain rule whose first token is a keyword begins with it. -/
theorem isKeywordRule_of_ruleBlock (hkeep : bodies.Keep .any) (hlexed : IsLexed region.config rest)
    (h : (ruleBlock bodies .css).run region rest = ⟨.ok node, next⟩)
    (hkeyword : (firstSignificant rest).any isScriptKeyword) : node.IsKeywordRule := by
  have hrules : Place.sheet.HasRules .css := trivial
  obtain ⟨token, more, hrest, hpart, hsource⟩ :=
    exists_source_of_statement (keeps_ruleBlock hkeep hrules) hlexed h
  rw [firstSignificant_eq_head?, hrest, List.head?_cons, Option.any_some] at hkeyword
  have hkind : token.kind = .literal := by
    rw [isScriptKeyword, Bool.and_eq_true, beq_iff_eq] at hkeyword
    exact hkeyword.1
  have hstarts : startsWithKeyword node.source := by
    rw [hsource, hpart.startsWithKeyword_spelling hkind]
    exact hkeyword
  obtain ⟨selectors, items, _, -, -, rfl⟩ := ruleBlock_run_eq_ok.mp h
  exact hstarts

/-- The statements of a sheet carry over if none of them is a rule that begins with a keyword. -/
theorem carries_sheetStatements (hbodies : bodies.Extend) (hkeep : bodies.Keep .any) :
    (firstOf (sheetStatements bodies .css)).Carries
      (fun node => node.Everywhere Node.KeywordsOnOneLine ∧ ¬ node.IsKeywordRule)
      Node.extended (firstOf (sheetStatements bodies .jss)) := by
  constructor
  intro region rest next node hlexed hrun hnode
  rcases plainStatement_cases hbodies hlexed hrun hnode.1 with hrule | hothers
  · obtain ⟨stop, hstop, hleads⟩ := exists_leadsTo_of_ruleBlock hlexed hrule
    -- Here alone it matters that the rule does not begin with a keyword.
    have hscript : ∀ p ∈ [probe isScriptKeyword script], p.Declines region rest :=
      List.forall_mem_singleton.mpr fun haccepts =>
        absurd (isKeywordRule_of_ruleBlock hkeep hlexed hrule haccepts) hnode.2
    exact run_firstOf_of_declines (p := ruleBlock bodies .jss)
      (List.forall_mem_append.mpr ⟨earlyStatements_decline hstop hleads, hscript⟩) rfl
      ((carries_ruleBlock hbodies).run hlexed hrule hnode.1)
  · exact hothers _

/-- The items of a sheet carry over if none of them is a rule that begins with a keyword. -/
theorem carries_stylesheetItems (depth : Nat) :
    (stylesheetItems (.within depth) .css).Carries
      (fun sheet => ∀ node ∈ sheet,
        node.Everywhere Node.KeywordsOnOneLine ∧ ¬ node.IsKeywordRule)
      (List.map Node.extended) (stylesheetItems (.within depth) .jss) := by
  have hkeep : (Bodies.within depth).Keep .any := Bodies.within_keep depth
  rw [stylesheetItems_eq, stylesheetItems_eq]
  exact (carries_item (carries_sheetStatements (Bodies.within_extend depth) hkeep) fun _ => rfl).all
    (keeps_item (keeps_sheetStatements hkeep .css))

end Grammar

end StyleSyntax
