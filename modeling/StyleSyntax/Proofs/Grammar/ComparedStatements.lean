import StyleSyntax.Proofs.Grammar.ComparedValues

/-!
# Statements and stylesheets in two runs

Where nothing is barred, all statements agree with themselves as soon as the bodies between their
braces do: the parts of a statement are compared one by one, and its source is compared as the
source of all that is consumed for it. From the statements the item lists follow.
-/

namespace StyleSyntax

open StyleSyntax.Parser StyleSyntax.Grammar

variable {α β : Type} {c : Comparison}

/-- The source of a statement is that of what is consumed, behind the gap. -/
theorem Promise.statement.isOf {dialect : Dialect} {place : Place} {region : Region}
    {used next : List Token} {node : Node}
    (h : Promise.statement dialect place region used next node) :
    node.excerpt.IsOf (dropTrivia used) := by
  obtain ⟨hends, hnode⟩ := h
  generalize htokens : dropTrivia used = tokens at hnode
  cases hnode with
  | @trivia _ first more htrivia =>
    have hfirst := isSignificant_of_dropTrivia_eq_cons htokens
    have htriviaFirst := htrivia first List.mem_cons_self
    rw [isTrivia_eq_false_of_significant hfirst] at htriviaFirst
    cases htriviaFirst
  | leaf hleaf => exact hleaf.source
  | block hhead => exact hhead.source

namespace Parser

/-- A statement that is built from captured parts looks the same when its parts do. -/
theorem Agrees.statement {p q : Parser α} {f : α → β} {build : α × Excerpt → Node}
    {dialect : Dialect} {place : Place} (h : p.Agrees c f q)
    (hp : (Parser.capture p >>= fun captured => pure (build captured)).Keeps .any
      (Promise.statement dialect place))
    (hq : (Parser.capture q >>= fun captured => pure (build captured)).Keeps .any
      (Promise.statement dialect place))
    (hbuild : ∀ parts parts' source source', f parts' = f parts →
      c.view.excerpt (build (parts', source')).excerpt =
        c.view.excerpt (build (parts, source)).excerpt →
      c.view.node (build (parts', source')) = c.view.node (build (parts, source))) :
    (Parser.capture p >>= fun captured => pure (build captured)).Agrees c c.view.node
      (Parser.capture q >>= fun captured => pure (build captured)) := by
  refine ⟨fun {rest rest'} hleaves => ?_, fun _ => rfl⟩
  have hreply := h.capture_fst.reply hleaves
  have hkept := hp.reply c.left rest trivial
  have hkept' := hq.reply c.right rest' trivial
  rw [run_bind] at hkept hkept'
  rw [run_bind, run_bind]
  generalize (Parser.capture p).run c.left rest = reply at hreply hkept ⊢
  generalize (Parser.capture q).run c.right rest' = reply' at hreply hkept' ⊢
  cases hreply with
  | ok hrest hrest' htakes hnext hvalue =>
    obtain ⟨used, rfl, hused⟩ := hkept
    obtain ⟨used', rfl, hused'⟩ := hkept'
    obtain rfl := List.append_cancel_right hrest
    obtain rfl := List.append_cancel_right hrest'
    exact .ok rfl rfl htakes hnext
      (hbuild _ _ _ _ hvalue (c.excerpt_eq htakes hused.isOf hused'.isOf))
  | failed hblock => exact .failed hblock
  | endless => exact .endless

end Parser

namespace Grammar

/-- The bodies of the two runs look the same inside tokens that are left in both. -/
structure Bodies.Agree (c : Comparison) (bodies bodies' : Bodies) : Prop where
  keeps : bodies.Keep .any
  keeps' : bodies'.Keep .any
  feature : mediaFeature.AgreesInside c (fun _ => ()) mediaFeature
  block (dialect : Dialect) :
    (bodies.blockItems dialect).AgreesInside c c.view.items (bodies'.blockItems dialect)
  media (dialect : Dialect) :
    (bodies.mediaItems dialect).AgreesInside c c.view.items (bodies'.mediaItems dialect)
  page (dialect : Dialect) :
    (bodies.pageItems dialect).AgreesInside c c.view.items (bodies'.pageItems dialect)

variable {dialect : Dialect} (hc : c.IsWhole dialect)

include hc

/-- Signs are matched in both runs. -/
theorem agrees_sign {f : Text → β} (sign : Char) :
    (symbol [sign]).Agrees c f (symbol [sign]) :=
  agrees_symbol (List.cons_ne_nil _ _) fun token htoken => absurd htoken (hc.not_bars token)

/-- Statements end together. -/
theorem agrees_statementEnd : statementEnd.Agrees c id statementEnd :=
  agrees_firstOf (.cons ((agrees_sign (f := id) hc ';').map fun _ _ _ => rfl)
    (.cons agrees_endOfInput .nil))

/-- Braces agree when their interiors do. -/
theorem agrees_braces {p q : Parser α} {f : α → β} (h : p.AgreesInside c f q) :
    (block braces p).Agrees c f (block braces q) :=
  h.block fun token htoken => absurd htoken (hc.not_bars token)

/-! ## Statements without a body -/

/-- Lone semicolons look the same. -/
theorem agrees_straySemicolon : straySemicolon.Agrees c c.view.node straySemicolon := by
  have hkeeps : (symbol [';']).Keeps .any Promise.significant :=
    keeps_symbol_significant (List.cons_ne_nil _ _)
  refine ((agrees_sign (f := id) hc ';').excerpt hkeeps hkeeps).map fun _ _ hsource => ?_
  exact congrArg (Node.leaf ∘ Leaf.ignored) hsource

/-- Declarations look the same. -/
theorem agrees_declaration :
    (declaration dialect).Agrees c c.view.node (declaration dialect) := by
  have hvalue : (declarationValue dialect).Agrees c id (declarationValue dialect) := by
    refine agrees_value hc.not_bars _ (fun token htoken => ?_) (fun _ _ _ _ => rfl)
      (seesNoGap_valueAllows dialect)
    rw [← Bool.not_eq_true]
    intro hmark
    rw [isTrivia_eq_false_of_significant (isSignificant_of_isSymbol hmark)] at htoken
    cases htoken
  have hmark : importantMark.Agrees c c.view.token importantMark :=
    Agrees.attempt ((agrees_sign (f := id) hc '!').bind fun _ _ _ =>
      (agrees_keyword hc.sparesPhrases (by decide)).step 1)
  have hkeeps : (declaration dialect).Keeps .any (Promise.statement dialect .block) :=
    keeps_declaration dialect (.inl rfl)
  refine Agrees.statement (f := Prod.map c.view.name (Prod.map c.view.excerpt id))
    (Agrees.attempt ?_) hkeeps hkeeps ?_
  · refine (agrees_identifier hc.sparesPhrases fun _ => hc.jumps).bind fun _ _ hproperty => ?_
    refine ((agrees_sign (f := id) hc ':').step 1).bind fun _ _ _ => ?_
    refine ((hvalue.excerpt (keeps_declarationValue dialect)
      (keeps_declarationValue dialect)).step 2).bind fun _ _ hexcerpt => ?_
    refine (hmark.optional.step 3).bind fun mark mark' hmarks => ?_
    refine ((agrees_statementEnd hc).step 4).bind fun _ _ _ => agrees_pure ?_
    have hsome : mark'.isSome = mark.isSome := by
      simpa using congrArg Option.isSome hmarks
    rw [Prod.map_apply, Prod.map_apply, Prod.map_apply, Prod.map_apply, hproperty, hexcerpt, hsome]
  · rintro ⟨property, value, mark⟩ ⟨property', value', mark'⟩ source source' hparts hexcerpt
    obtain ⟨hproperty, hrest⟩ := Prod.ext_iff.mp hparts
    obtain ⟨hvalue, hmark⟩ := Prod.ext_iff.mp hrest
    obtain rfl : mark' = mark := hmark
    have htext : c.view.text source'.text = c.view.text source.text :=
      congrArg Excerpt.text hexcerpt
    have hname : c.view.name property' = c.view.name property := hproperty
    have hseen : c.view.excerpt value' = c.view.excerpt value := hvalue
    rw [View.node, View.node, View.leaf, View.leaf, View.declaration, View.declaration, hname,
      hseen, htext]

/-- The rules that name the character set look the same. -/
theorem agrees_charset : charset.Agrees c c.view.node charset := by
  have hkeeps : charset.Keeps .any (Promise.statement .css .sheet) := keeps_charset trivial
  refine Agrees.statement (f := Token.value) (Agrees.attempt ?_) hkeeps hkeeps ?_
  · refine (agrees_sign (f := id) hc '@').bind fun _ _ _ => ?_
    refine ((agrees_keyword hc.sparesPhrases (by decide)).step 1).bind fun _ _ _ => ?_
    refine ((agrees_anyString hc.sparesPhrases).step 2).bind fun _ _ hname => ?_
    refine ((agrees_statementEnd hc).step 3).bind fun _ _ _ => agrees_pure ?_
    exact (congrArg Token.value hname :)
  · intro name name' source source' hname hsource
    have hseen : c.view.excerpt source' = c.view.excerpt source := hsource
    rw [View.node, View.node, View.leaf, View.leaf, hname, hseen]

/-- The rules that import a sheet look the same. -/
theorem agrees_importRule (hfeature : mediaFeature.AgreesInside c (fun _ => ()) mediaFeature) :
    importRule.Agrees c c.view.node importRule := by
  have hkeeps : importRule.Keeps .any (Promise.statement .css .sheet) := keeps_importRule trivial
  refine Agrees.statement (f := Prod.map id (Option.map c.view.excerpt)) (Agrees.attempt ?_) hkeeps
    hkeeps ?_
  · refine (agrees_sign (f := id) hc '@').bind fun _ _ _ => ?_
    refine ((agrees_keyword hc.sparesPhrases (by decide)).step 1).bind fun _ _ _ => ?_
    refine ((agrees_importPath hc.sparesPhrases).step 2).bind fun _ _ hpath => ?_
    refine ((agrees_mediaQueryList hc.sparesPhrases hfeature).optional.step 3).bind
      fun _ _ hqueries => ?_
    refine ((agrees_statementEnd hc).step 4).bind fun _ _ _ => agrees_pure ?_
    rw [Prod.map_apply, Prod.map_apply, hpath, hqueries]
  · rintro ⟨path, queries⟩ ⟨path', queries'⟩ source source' hparts hsource
    obtain ⟨hpath, hqueries⟩ := Prod.ext_iff.mp hparts
    obtain rfl : path' = path := hpath
    have hseen : c.view.excerpt source' = c.view.excerpt source := hsource
    have htexts : (queries'.map Excerpt.text).map c.view.text =
        (queries.map Excerpt.text).map c.view.text := by
      have htexts := congrArg (Option.map Excerpt.text) hqueries
      simpa [View.excerpt, Function.comp_def] using htexts
    rw [View.node, View.node, View.leaf, View.leaf, htexts, hseen]

/-- Spreads look the same. -/
theorem agrees_spread : spread.Agrees c c.view.node spread := by
  have hvalue : (value "expression".toList (fun _ => false) fun _ _ => true).Agrees c id
      (value "expression".toList (fun _ => false) fun _ _ => true) :=
    agrees_value hc.not_bars _ (fun _ _ => rfl) (fun _ _ _ _ => rfl)
      ⟨fun _ _ _ => rfl, fun _ _ => rfl⟩
  have hdots : (symbol ['.', '.', '.']).Agrees c id (symbol ['.', '.', '.']) :=
    agrees_symbol (List.cons_ne_nil _ _) fun token htoken => absurd htoken (hc.not_bars token)
  refine Agrees.statement (f := c.view.excerpt) (Agrees.attempt ?_) keeps_spread keeps_spread ?_
  · refine hdots.bind fun _ _ _ => ?_
    refine ((hvalue.excerpt (keeps_value _ _ _) (keeps_value _ _ _)).step 1).bind
      fun _ _ hexpression => ?_
    exact ((agrees_statementEnd hc).step 2).bind fun _ _ _ => agrees_pure hexpression
  · intro expression expression' source source' hexpression hsource
    have hseen : c.view.excerpt source' = c.view.excerpt source := hsource
    rw [View.node, View.node, View.leaf, View.leaf, hexpression, hseen]

/-! ## Statements with a body -/

variable {bodies bodies' : Bodies} (hbodies : bodies.Agree c bodies')

include hbodies

omit hc hbodies in
/-- A head and the body behind it make statements that look the same. -/
theorem node_eq_of_parts {head head' : Head} {items items' : List Node} {source source' : Excerpt}
    (hhead : c.view.head head' = c.view.head head)
    (hitems : c.view.items items' = c.view.items items)
    (hsource : c.view.excerpt source' = c.view.excerpt source) :
    c.view.node (.block head' items' source') = c.view.node (.block head items source) := by
  rw [View.node, View.node, hhead, hitems, hsource]

/-- Rule blocks look the same. -/
theorem agrees_ruleBlock :
    (ruleBlock bodies dialect).Agrees c c.view.node (ruleBlock bodies' dialect) := by
  have hplace : Place.sheet.HasRules dialect := trivial
  refine Agrees.statement (f := Prod.map (List.map c.view.selector) c.view.items)
    (Agrees.attempt ?_) (keeps_ruleBlock hbodies.keeps hplace)
    (keeps_ruleBlock hbodies.keeps' hplace) ?_
  · refine (agrees_selectorList hc.toIsEven hc.sparesPhrases fun _ => hc.jumps).bind
      fun _ _ hselectors => ?_
    refine ((agrees_braces hc (hbodies.block dialect)).step 1).bind fun _ _ hitems =>
      agrees_pure ?_
    rw [Prod.map_apply, Prod.map_apply, hselectors, hitems]
  · rintro ⟨selectors, items⟩ ⟨selectors', items'⟩ source source' hparts hsource
    obtain ⟨hselectors, hitems⟩ := Prod.ext_iff.mp hparts
    exact node_eq_of_parts (congrArg (Head.rule dialect) hselectors) hitems hsource

/-- Media rules look the same. -/
theorem agrees_mediaRule :
    (mediaRule bodies dialect).Agrees c c.view.node (mediaRule bodies' dialect) := by
  have hplace : Place.sheet.HasRules dialect := trivial
  refine Agrees.statement (f := Prod.map c.view.excerpt c.view.items) (Agrees.attempt ?_)
    (keeps_mediaRule hbodies.keeps hplace) (keeps_mediaRule hbodies.keeps' hplace) ?_
  · refine (agrees_sign (f := id) hc '@').bind fun _ _ _ => ?_
    refine ((agrees_keyword hc.sparesPhrases (by decide)).step 1).bind fun _ _ _ => ?_
    refine ((agrees_mediaQueryList hc.sparesPhrases hbodies.feature).step 2).bind
      fun _ _ hqueries => ?_
    refine ((agrees_braces hc (hbodies.media dialect)).step 3).bind fun _ _ hitems =>
      agrees_pure ?_
    rw [Prod.map_apply, Prod.map_apply, hqueries, hitems]
  · rintro ⟨queries, items⟩ ⟨queries', items'⟩ source source' hparts hsource
    obtain ⟨hqueries, hitems⟩ := Prod.ext_iff.mp hparts
    exact node_eq_of_parts (congrArg Head.media hqueries) hitems hsource

/-- Page rules look the same. -/
theorem agrees_pageRule :
    (pageRule bodies dialect).Agrees c c.view.node (pageRule bodies' dialect) := by
  have hplace : Place.sheet.HasRules dialect := trivial
  refine Agrees.statement (f := Prod.map (Option.map Excerpt.text) c.view.items)
    (Agrees.attempt ?_) (keeps_pageRule hbodies.keeps hplace)
    (keeps_pageRule hbodies.keeps' hplace) ?_
  · refine (agrees_sign (f := id) hc '@').bind fun _ _ _ => ?_
    refine ((agrees_keyword hc.sparesPhrases (by decide)).step 1).bind fun _ _ _ => ?_
    have hpseudo : pagePseudo.Agrees c Excerpt.text pagePseudo :=
      (agrees_pagePseudo hc.toIsEven hc.sparesPhrases).mono fun _ _ hsource =>
        (congrArg Prod.fst hsource :)
    refine (hpseudo.optional.step 2).bind fun _ _ hpseudo => ?_
    refine ((agrees_braces hc (hbodies.page dialect)).step 3).bind fun _ _ hitems =>
      agrees_pure ?_
    rw [Prod.map_apply, Prod.map_apply, hpseudo, hitems]
  · rintro ⟨pseudo, items⟩ ⟨pseudo', items'⟩ source source' hparts hsource
    obtain ⟨hpseudo, hitems⟩ := Prod.ext_iff.mp hparts
    exact node_eq_of_parts (congrArg Head.page hpseudo) hitems hsource

/-- Variable blocks look the same. -/
theorem agrees_variableBlock :
    (variableBlock bodies).Agrees c c.view.node (variableBlock bodies') := by
  have hname : anyLiteral.Agrees c c.view.token anyLiteral :=
    agrees_anyToken fun token htoken => absurd htoken (hc.not_bars token)
  have hplace : Place.sheet.HasScript .jss := ⟨rfl, .inl rfl⟩
  refine Agrees.statement (f := fun parts : Option Token × VarKeyword × Token × List Node =>
      (parts.1.isSome, parts.2.1, parts.2.2.1.value, c.view.items parts.2.2.2))
    (Agrees.attempt ?_) (keeps_variableBlock hbodies.keeps hplace)
    (keeps_variableBlock hbodies.keeps' hplace) ?_
  · refine (agrees_keyword hc.sparesPhrases (by decide)).optional.bind
      fun exporting exporting' hexporting => ?_
    refine ((agrees_varKeyword hc.sparesPhrases).step 1).bind fun _ _ hword => ?_
    refine (hname.step 2).bind fun name name' hnames => ?_
    refine ((agrees_sign (f := id) hc '=').step 3).bind fun _ _ _ => ?_
    refine ((agrees_braces hc (hbodies.block .jss)).step 4).bind fun _ _ hitems => ?_
    refine ((agrees_sign (f := id) hc ';').optional.step 5).bind fun _ _ _ => agrees_pure ?_
    have hsome : exporting'.isSome = exporting.isSome := by
      simpa using congrArg Option.isSome hexporting
    have hvalue : name'.value = name.value := (congrArg Token.value hnames :)
    rw [id, id] at hword
    rw [hsome, hword, hvalue, hitems]
  · rintro ⟨exporting, word, name, items⟩ ⟨exporting', word', name', items'⟩ source source' hparts
      hsource
    simp only [Prod.mk.injEq] at hparts
    obtain ⟨hexporting, rfl, hvalue, hitems⟩ := hparts
    refine node_eq_of_parts ?_ hitems hsource
    rw [View.head, View.head, hvalue, hexporting]

/-- The rules for names that look the same do so. -/
theorem agrees_namedRule {name name' : Token} (hname : c.view.Same name name') :
    (namedRule bodies dialect name).Agrees c c.view.node (namedRule bodies' dialect name') := by
  have hword (text : Text) : name'.isLiteral text = name.isLiteral text :=
    hname.test_eq (fun token => token.isLiteral text) fun _ _ _ _ => rfl
  unfold namedRule
  rw [hword, hword, hword, hword]
  split_ifs
  · exact agrees_charset hc
  · exact agrees_importRule hc hbodies.feature
  · exact agrees_mediaRule hc hbodies
  · exact agrees_pageRule hc hbodies
  · exact agrees_fail (fun _ _ => rfl) fun _ _ => rfl

omit hc hbodies in
/-- Without a name right behind its sign there is no at-rule. -/
theorem atRule_refuses {region : Region} {rest following : List Token} {sign : Token}
    (hrest : dropTrivia rest = sign :: following)
    (htrivia : ∀ token ∈ following.head?, token.isTrivia) :
    (atRule bodies dialect).Refuses region rest := by
  unfold Refuses atRule
  dsimp only
  rw [hrest]
  dsimp only
  split_ifs
  · cases following with
    | nil => exact ⟨_, _, rfl, isBlock_expected _ _ _⟩
    | cons name more =>
      have hword (text : Text) : name.isLiteral text = false := by
        have hkind : name.kind ≠ .literal := by
          intro hkind
          have hname := htrivia name rfl
          rw [Token.isTrivia, hkind] at hname
          cases hname
        rw [Token.isLiteral, beq_false_of_ne hkind, Bool.false_and]
      dsimp only
      rw [namedRule, hword, hword, hword, hword]
      exact ⟨_, _, rfl, rfl⟩
  · exact ⟨_, _, rfl, isBlock_expected _ _ _⟩

/-- At-rules look the same. -/
theorem agrees_atRule :
    (atRule bodies dialect).Agrees c c.view.node (atRule bodies' dialect) := by
  refine ⟨fun {rest rest'} hleaves => ?_, fun _ => rfl⟩
  obtain ⟨hrest, hrest'⟩ | ⟨sign, sign', following, following', hrest, hrest', hsign, -, hnext⟩ :=
    c.behind hleaves
  · unfold atRule
    dsimp only
    rw [hrest, hrest']
    exact .failed (by rw [isBlock_expected, isBlock_expected])
  · obtain ⟨-, hbehind⟩ :=
      c.pass hnext (isSignificant_of_dropTrivia_eq_cons hrest) (hc.not_bars sign)
    obtain ⟨name, name', next, next', rfl, rfl, -, hname⟩ | ⟨htrivia, htrivia'⟩ := c.here hbehind
    · have hrule := (agrees_namedRule hc hbodies hname).reply hleaves
      unfold atRule
      dsimp only
      rw [hrest, hrest']
      dsimp only
      rw [hsign.test_eq Token.isAt fun _ _ _ _ => rfl]
      split_ifs
      · exact hrule
      · exact .failed (by rw [isBlock_expected, isBlock_expected])
    · exact (atRule_refuses hrest htrivia).agrees (atRule_refuses hrest' htrivia')

/-! ## Item lists -/

omit hbodies in
/-- Items look the same when statements do. -/
theorem agrees_item {statement statement' : Parser Node}
    (h : statement.Agrees c c.view.node statement') :
    (item statement).Agrees c c.view.node (item statement') := by
  have hignored : ignored.Agrees c c.view.node ignored :=
    (agrees_trivia hc.toIsEven).map fun _ _ hsource => congrArg (Node.leaf ∘ Leaf.ignored) hsource
  refine ⟨fun {rest rest'} hleaves => ?_, fun _ => rfl⟩
  unfold item
  dsimp only
  rw [hc.head_isTrivia_eq hleaves]
  split_ifs
  · exact hignored.reply hleaves
  · exact h.reply hleaves

omit hbodies in
/-- Item lists look the same when the alternatives for a statement do. -/
theorem agrees_items {alternatives others : List (Parser Node)}
    (h : List.Forall₂ (Agrees c c.view.node) alternatives others) :
    (items (firstOf alternatives)).Agrees c (List.map c.view.node) (items (firstOf others)) :=
  (agrees_item hc (agrees_firstOf h)).all hc.toIsEven

omit hbodies in
/-- Lists of declarations look the same. -/
theorem agrees_declarationItems :
    (declarationItems dialect).Agrees c (List.map c.view.node) (declarationItems dialect) :=
  agrees_items hc (.cons ((agrees_straySemicolon hc).probe fun _ _ _ _ => rfl)
    (.cons (agrees_declaration hc) .nil))

/-- The items of rule blocks look the same. -/
theorem agrees_blockItems :
    (blockItems bodies dialect).Agrees c (List.map c.view.node) (blockItems bodies' dialect) := by
  cases dialect with
  | css => exact agrees_declarationItems hc
  | jss =>
    exact agrees_items hc (.cons ((agrees_straySemicolon hc).probe fun _ _ _ _ => rfl)
      (.cons ((agrees_atRule hc hbodies).probe fun _ _ _ _ => rfl)
      (.cons ((agrees_variableBlock hc hbodies).probe fun _ _ _ _ => rfl)
      (.cons ((agrees_spread hc).probe fun _ _ _ _ => rfl)
      (.cons ((agrees_script hc).probe fun _ _ _ _ => rfl)
      (.cons (agrees_declaration hc)
      (.cons (agrees_ruleBlock hc hbodies) .nil)))))))

/-- The items of media rules look the same. -/
theorem agrees_mediaItems :
    (mediaItems bodies dialect).Agrees c (List.map c.view.node) (mediaItems bodies' dialect) :=
  agrees_items hc (.cons ((agrees_straySemicolon hc).probe fun _ _ _ _ => rfl)
    (.cons ((agrees_atRule hc hbodies).probe fun _ _ _ _ => rfl)
    (.cons (agrees_ruleBlock hc hbodies) .nil)))

/-- The items of sheets look the same. -/
theorem agrees_stylesheetItems :
    (stylesheetItems bodies dialect).Agrees c (List.map c.view.node)
      (stylesheetItems bodies' dialect) := by
  cases dialect with
  | css => exact agrees_mediaItems hc hbodies
  | jss =>
    exact agrees_items hc (.cons ((agrees_straySemicolon hc).probe fun _ _ _ _ => rfl)
      (.cons ((agrees_atRule hc hbodies).probe fun _ _ _ _ => rfl)
      (.cons ((agrees_variableBlock hc hbodies).probe fun _ _ _ _ => rfl)
      (.cons ((agrees_script hc).probe fun _ _ _ _ => rfl)
      (.cons (agrees_ruleBlock hc hbodies)
      (.cons (agrees_script hc) .nil))))))

end Grammar

end StyleSyntax
