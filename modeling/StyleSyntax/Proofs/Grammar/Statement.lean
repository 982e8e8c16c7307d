import StyleSyntax.Grammar.Statement
import StyleSyntax.Proofs.Grammar.Phrases
import StyleSyntax.Proofs.Grammar.Reading

/-!
# Contracts of statements

What a statement consumes is a gap and the tokens that its node is read from, up to a significant
one. Statements without a body record the source of all of them. Those with a body find it between
the braces of one token, and keep their promise whenever the parsers of the bodies keep theirs.
-/

namespace StyleSyntax

/-- The node is read from what is consumed, behind its gap. -/
def Promise.statement (dialect : Dialect) (place : Place) : Promise Node :=
  fun region used _ node => EndsSignificant used ∧
    NodeOf region.config dialect place (dropTrivia used) node

/-- Everything is consumed and the items are read from it. -/
def Promise.items (dialect : Dialect) (place : Place) : Promise (List Node) :=
  fun region used next nodes => next = [] ∧ ItemsOf region.config dialect place used nodes

/-- A head with these properties is followed by a body. -/
def Promise.bodied {α : Type} (dialect : Dialect) (place : Place)
    (head : List Token → α → Prop) : Promise (α × List Node) :=
  fun region used next result => ∃ front middle, used = front ++ middle ∧ head front result.1 ∧
    Promise.block Grammar.braces (Promise.items dialect place) region middle next result.2

/-- A leaf is a statement when its source is that of what is consumed and its parts lie within. -/
theorem Promise.statement_leaf {dialect : Dialect} {place : Place} {region : Region}
    {used next : List Token} {leaf : Leaf} (hfits : leaf.Fits dialect place)
    (hsource : leaf.excerpt.IsOf (dropTrivia used))
    (hparts : ∀ excerpt ∈ leaf.parts, excerpt.IsWithin used) :
    Promise.statement dialect place region used next (.leaf leaf) := by
  refine ⟨hsource.endsSignificant, .leaf ⟨hfits, hsource, ?_⟩⟩
  intro excerpt hexcerpt
  exact (hparts excerpt hexcerpt).dropTrivia

/-- A block is a statement when what is consumed is a head, a body and what may follow it. -/
theorem Promise.statement_block {dialect : Dialect} {place : Place} {region : Region}
    {front middle back next later : List Token} {head : Head} {items : List Node}
    {source : Excerpt} (hfits : head.Fits dialect place)
    (hparts : ∀ excerpt ∈ head.parts, excerpt.IsWithin front)
    (hbody : Promise.block Grammar.braces (Promise.items dialect head.place) region middle later
      items)
    (hback : head.EndsWith back)
    (hsource : source.IsOf (dropTrivia (front ++ (middle ++ back)))) :
    Promise.statement dialect place region (front ++ (middle ++ back)) next
      (.block head items source) := by
  refine ⟨hsource.endsSignificant, ?_⟩
  obtain ⟨gap, token, rfl, _, htoken, hkind, text, origin, tokens, hinterior, htokens, hinside⟩ :=
    hbody
  obtain ⟨inner, left, hsplit, _, rfl, hitems⟩ := hinside
  have hused : dropTrivia (front ++ (gap ++ [token] ++ back)) =
      dropTrivia (front ++ gap) ++ token :: back := by
    rw [← dropTrivia_append_cons _ htoken]
    simp
  have hbraces : token.isBraces := by
    rwa [Grammar.braces_contains] at hkind
  rw [List.append_nil] at hsplit
  rw [hused] at hsource ⊢
  rw [← hsplit] at hitems
  refine .block ⟨hfits, hsource, ?_, hbraces, hback⟩ hinterior htokens hitems
  intro excerpt hexcerpt
  exact ((hparts excerpt hexcerpt).mono (List.prefix_append _ _).isInfix).dropTrivia

/-- A head and the body behind it are a statement when nothing may follow the body. -/
theorem Promise.bodied.statement {α : Type} {dialect : Dialect} {place : Place} {region : Region}
    {used next : List Token} {holds : List Token → α → Prop} {value : α} {head : Head}
    {items : List Node} {source : Excerpt}
    (h : Promise.bodied dialect head.place holds region used next (value, items))
    (hfits : head.Fits dialect place)
    (hparts : ∀ front, holds front value → ∀ excerpt ∈ head.parts, excerpt.IsWithin front)
    (hback : head.EndsWith []) (hsource : source.IsOf (dropTrivia used)) :
    Promise.statement dialect place region used next (.block head items source) := by
  obtain ⟨front, middle, rfl, hholds, hbody⟩ := h
  rw [← List.append_nil middle] at hsource ⊢
  exact Promise.statement_block hfits (hparts front hholds) hbody hback hsource

/-- A body ends with a significant token. -/
theorem Promise.bodied.endsSignificant {α : Type} {dialect : Dialect} {place : Place}
    {head : List Token → α → Prop} {region : Region} {used next : List Token}
    {result : α × List Node} (h : Promise.bodied dialect place head region used next result) :
    EndsSignificant used := by
  obtain ⟨front, middle, rfl, _, hbody⟩ := h
  exact hbody.endsSignificant.append_left front

namespace Grammar

open StyleSyntax.Parser

variable {setting : Setting}

/-- The end of a statement is nothing or a semicolon behind a gap. -/
theorem keeps_statementEnd : statementEnd.Keeps setting Promise.trimmed := by
  refine keeps_firstOf ?_
  simp only [List.forall_mem_cons]
  refine ⟨Keeps.map ?_, keeps_endOfInput.mono fun _ _ _ _ h => .inl h, by simp⟩
  exact (keeps_symbol_significant (List.cons_ne_nil _ _)).mono fun _ _ _ _ h => .inr h

/-- A lone semicolon is a statement at any place. -/
theorem keeps_straySemicolon (dialect : Dialect) (place : Place) :
    straySemicolon.Keeps setting (Promise.statement dialect place) := by
  have hends : ∀ (region : Region) (used next : List Token) (text : Text),
      text = [';'] ∧ Promise.symbols region used next text → EndsSignificant used := by
    rintro region used next text ⟨rfl, hsymbols⟩
    exact hsymbols.endsSignificant (List.cons_ne_nil _ _)
  refine Keeps.map (Keeps.map (((keeps_symbol [';']).capture hends).mono ?_))
  rintro region used next ⟨text, source⟩ ⟨⟨rfl, gap, signs, rfl, hgap, hspelling, hsigns⟩, hsource⟩
  refine Promise.statement_leaf ?_ hsource (by simp [Leaf.parts])
  have hdropped : dropTrivia (gap ++ signs) = signs := by
    rw [dropTrivia_append_of_allTrivia hgap]
    cases signs with
    | nil => rfl
    | cons sign more =>
      exact dropTrivia_cons
        (isSignificant_of_kind (by rw [hsigns sign List.mem_cons_self]; rfl)) more
  obtain ⟨first, more, _, _, hexcerpt⟩ := hsource.begins
  rw [Leaf.Fits, hexcerpt, hdropped]
  exact hspelling

/-- The value of a declaration ends with a significant token. -/
theorem keeps_declarationValue (dialect : Dialect) :
    (declarationValue dialect).Keeps setting Promise.significant :=
  keeps_value _ _ _

/-- The mark of importance ends with a significant token. -/
theorem keeps_importantMark : importantMark.Keeps setting Promise.significant :=
  Keeps.attempt ((keeps_symbol ['!']).bind_significant fun _ => (keeps_keyword _).step 1)

/-- A declaration begins with its property, and its value lies within. -/
theorem keeps_declaration (dialect : Dialect) {place : Place} (hplace : place.HasDeclarations) :
    (declaration dialect).Keeps setting (Promise.statement dialect place) := by
  refine Keeps.bind_capture (fun _ used _ parts => EndsSignificant used ∧
    (∃ front back, used = front ++ back ∧ parts.1.IsOf (dropTrivia front)) ∧
      parts.2.1.IsWithin used) (Keeps.attempt ?_) (fun _ _ _ _ h => h.1) ?_
  · refine (keeps_identifier dialect).bind fun property =>
      ((keeps_symbol [':']).step 1).bind fun _ =>
        ((keeps_declarationValue dialect).excerpt.step 2).bind fun value =>
          (keeps_importantMark.optional_trimmed.step 3).bind fun mark =>
            (keeps_statementEnd.step 4).bind fun _ => keeps_pure ?_
    intro region next close hclose sign hsign middle hmiddle colon _ front hfront
    rw [List.append_nil]
    refine ⟨?_, ⟨front, colon ++ (middle ++ (sign ++ close)), rfl, hfront⟩, ?_⟩
    · exact ((hmiddle.endsSignificant.append_right (hsign.append hclose)).append_left
        colon).append_left front
    · exact hmiddle.isWithin_of_isInfix ⟨front ++ colon, sign ++ close, by simp⟩
  · rintro region used next ⟨property, value, important⟩ source
      ⟨_, ⟨front, back, rfl, hproperty⟩, hvalue⟩ hsource
    refine Promise.statement_leaf ⟨rfl, hplace⟩ ?_ ?_
    · rw [Leaf.excerpt, hproperty.position_eq hsource]
      exact hsource
    · simp only [Leaf.parts, List.forall_mem_cons]
      exact ⟨hproperty.isWithin_of_isInfix (List.prefix_append _ _).isInfix, hvalue, by simp⟩

/-- The rule for the character set records the source of what is consumed. -/
theorem keeps_charset {dialect : Dialect} {place : Place} (hplace : place.HasRules dialect) :
    charset.Keeps setting (Promise.statement dialect place) := by
  refine Keeps.bind_capture Promise.significant (Keeps.attempt ?_) (fun _ _ _ _ h => h) ?_
  · refine (keeps_symbol ['@']).bind_significant fun _ =>
      ((keeps_keyword _).step 1).bind_significant fun _ => (keeps_anyString.step 2).bind fun name =>
        (keeps_statementEnd.step 3).bind fun _ => keeps_pure ?_
    intro region next close hclose quoted hquoted
    rw [List.append_nil]
    exact EndsSignificant.append_right hquoted hclose
  · intro region used next parts source _ hsource
    exact Promise.statement_leaf hplace hsource (by simp [Leaf.parts])

/-- The path of an import ends with a significant token. -/
theorem keeps_importPath : importPath.Keeps setting Promise.significant := by
  have haddress : (attempt do
      let _ ← keyword "url".toList
      step 1 noSpacesHere
      step 2 roundBrackets : Parser Token).Keeps setting Promise.significant :=
    Keeps.attempt ((keeps_keyword _).bind_significant fun _ =>
      (keeps_noSpacesHere.step 1).bind_significant fun _ => (keeps_anyToken .roundBrackets).step 2)
  refine keeps_firstOf ?_
  simp only [List.forall_mem_cons]
  refine ⟨Keeps.map (f := Token.value) keeps_anyString,
    Keeps.map (haddress.excerpt.mono ?_), by simp⟩
  intro region used next source hsource
  exact hsource.endsSignificant

/-- The rule that imports a sheet records the source of what is consumed. -/
theorem keeps_importRule {dialect : Dialect} {place : Place} (hplace : place.HasRules dialect) :
    importRule.Keeps setting (Promise.statement dialect place) := by
  have hqueries : mediaQueryList.Keeps setting Promise.significant :=
    keeps_mediaQueryList.mono fun _ _ _ _ h => h.endsSignificant
  refine Keeps.bind_capture Promise.significant (Keeps.attempt ?_) (fun _ _ _ _ h => h) ?_
  · refine (keeps_symbol ['@']).bind_significant fun _ =>
      ((keeps_keyword _).step 1).bind_significant fun _ =>
        (keeps_importPath.step 2).bind fun path =>
          (hqueries.optional_trimmed.step 3).bind fun queries =>
            (keeps_statementEnd.step 4).bind fun _ => keeps_pure ?_
    intro region next close hclose media hmedia address haddress
    rw [List.append_nil]
    exact EndsSignificant.append_right haddress (hmedia.append hclose)
  · intro region used next parts source _ hsource
    exact Promise.statement_leaf hplace hsource (by simp [Leaf.parts])

/-- A spread has its expression within. -/
theorem keeps_spread : spread.Keeps setting (Promise.statement .jss .block) := by
  refine Keeps.bind_capture (fun _ used _ expression => EndsSignificant used ∧
    expression.IsWithin used) (Keeps.attempt ?_) (fun _ _ _ _ h => h.1) ?_
  · refine (keeps_symbol ['.', '.', '.']).bind fun _ =>
      ((keeps_value _ _ _).excerpt.step 1).bind fun expression =>
        (keeps_statementEnd.step 2).bind fun _ => keeps_pure ?_
    intro region next close hclose middle hmiddle dots _
    rw [List.append_nil]
    refine ⟨(hmiddle.endsSignificant.append_right hclose).append_left dots, ?_⟩
    exact hmiddle.isWithin_of_isInfix ⟨dots, close, by simp⟩
  · rintro region used next expression source ⟨_, hexpression⟩ hsource
    refine Promise.statement_leaf ⟨rfl, rfl⟩ hsource ?_
    simpa [Leaf.parts] using hexpression

/-- The tokens of a script statement end with a significant one. -/
theorem endsSignificant_take_scriptLength {tokens : List Token} (h : scriptLength tokens ≠ 0) :
    EndsSignificant (tokens.take (scriptLength tokens)) := by
  fun_induction scriptLength tokens with
  | case1 => exact absurd rfl h
  | case2 => exact absurd rfl h
  | case3 => exact absurd rfl h
  | case4 token rest _ _ length hlength ih =>
    rw [hlength] at ih
    exact (ih (Nat.succ_ne_zero _)).append_left [token]
  | case5 token rest htrivia =>
    exact endsSignificant_concat [] (by simpa [Token.isSignificant] using htrivia)
  | case6 token rest htrivia _ _ hsemicolon =>
    obtain ⟨next, hnext, hkind⟩ := (Option.any_eq_true _ _).mp hsemicolon
    obtain ⟨more, rfl⟩ := List.head?_eq_some_iff.mp hnext
    rw [Token.isSemicolon, Token.isSymbol, Bool.and_eq_true, beq_iff_eq] at hkind
    exact endsSignificant_concat [token] (isSignificant_of_kind (by rw [hkind.1]; rfl))
  | case7 token rest htrivia =>
    exact endsSignificant_concat [] (by simpa [Token.isSignificant] using htrivia)
  | case8 token rest htrivia _ _ ih =>
    by_cases hrest : scriptLength rest = 0
    · rw [hrest]
      exact endsSignificant_concat [] (by simpa [Token.isSignificant] using htrivia)
    · exact (ih hrest).append_left [token]

/-- In trivia there is no script. -/
theorem scriptLength_of_allTrivia {tokens : List Token} (h : AllTrivia tokens) :
    scriptLength tokens = 0 := by
  induction tokens with
  | nil => rfl
  | cons token tokens ih =>
    obtain ⟨htoken, htokens⟩ := List.forall_mem_cons.mp h
    rw [scriptLength, if_pos htoken, ih htokens]
    simp

/-- A script statement takes at least the significant token that it begins with. -/
theorem scriptLength_ne_zero {token : Token} (h : token.isSignificant) (rest : List Token) :
    scriptLength (token :: rest) ≠ 0 := by
  rw [scriptLength, if_neg (by simp [isTrivia_eq_false_of_significant h])]
  split_ifs <;> simp

/-- Script is the source of what is consumed, behind its gap. -/
theorem keeps_script {place : Place} (hplace : place.HasScript .jss) :
    script.Keeps setting (Promise.statement .jss place) := by
  constructor
  intro region rest hscope
  obtain ⟨gap, hrest, hgap⟩ := exists_gap rest
  unfold script
  dsimp only
  cases hdropped : dropTrivia rest with
  | nil => exact Setting.admits_expected hscope _
  | cons token following =>
    have htoken := isSignificant_of_dropTrivia_eq_cons hdropped
    have hlength := scriptLength_ne_zero htoken following
    have hends := endsSignificant_take_scriptLength hlength
    obtain ⟨length, hsucc⟩ := Nat.exists_eq_succ_of_ne_zero hlength
    dsimp only
    rw [hsucc] at hends ⊢
    rw [List.take_succ_cons] at hends ⊢
    refine ⟨gap ++ token :: following.take length, ?_, Promise.statement_leaf hplace ?_ ?_⟩
    · rw [hdropped] at hrest
      simpa using hrest
    · rw [dropTrivia_gap hgap htoken]
      exact ⟨⟨token, _, rfl, htoken, rfl⟩, hends⟩
    · simp [Leaf.parts]

/-- The parsers of the bodies keep the promises of the items between their braces. -/
structure Bodies.Keep (setting : Setting) (bodies : Bodies) : Prop where
  block (dialect : Dialect) :
    (bodies.blockItems dialect).Keeps setting (Promise.items dialect .block)
  media (dialect : Dialect) :
    (bodies.mediaItems dialect).Keeps setting (Promise.items dialect .media)
  page (dialect : Dialect) :
    (bodies.pageItems dialect).Keeps setting (Promise.items dialect .page)

variable {bodies : Bodies}

/-- A rule block is read from its selectors and its body. -/
theorem keeps_ruleBlock (hbodies : bodies.Keep setting) {dialect : Dialect} {place : Place}
    (hplace : place.HasRules dialect) :
    (ruleBlock bodies dialect).Keeps setting (Promise.statement dialect place) := by
  refine Keeps.bind_capture (Promise.bodied dialect .block fun front selectors =>
    selectors ≠ [] ∧ ∀ selector ∈ selectors, selector.dialect = dialect ∧ selector.fragments ≠ [] ∧
      selector.source.IsWithin front) (Keeps.attempt ?_) (fun _ _ _ _ h => h.endsSignificant) ?_
  · refine (keeps_selectorList dialect).bind fun selectors =>
      (((hbodies.block dialect).block braces).step 1).bind fun items => keeps_pure ?_
    rintro region next middle hmiddle front ⟨_, hne, heach⟩
    rw [List.append_nil]
    refine ⟨front, middle, rfl, ⟨hne, ?_⟩, hmiddle⟩
    intro selector hselector
    obtain ⟨part, later, hpart, hdialect, hfragments, hsource⟩ := heach selector hselector
    exact ⟨hdialect, hfragments, hsource.isWithin_of_isInfix hpart⟩
  · intro region used next ⟨selectors, items⟩ source hparts hsource
    have ⟨_, _, _, ⟨hne, heach⟩, _⟩ := hparts
    refine hparts.statement ⟨rfl, hplace, hne, ?_⟩ ?_ rfl hsource
    · intro selector hselector
      exact ⟨(heach selector hselector).1, (heach selector hselector).2.1⟩
    · intro front hfront
      simp only [Head.parts, List.forall_mem_map]
      intro selector hselector
      exact (hfront.2 selector hselector).2.2

/-- A media rule is read from its queries and its body. -/
theorem keeps_mediaRule (hbodies : bodies.Keep setting) {dialect : Dialect} {place : Place}
    (hplace : place.HasRules dialect) :
    (mediaRule bodies dialect).Keeps setting (Promise.statement dialect place) := by
  refine Keeps.bind_capture (Promise.bodied dialect .media fun front queries =>
    queries.IsWithin front) (Keeps.attempt ?_) (fun _ _ _ _ h => h.endsSignificant) ?_
  · refine (keeps_symbol ['@']).bind fun _ => ((keeps_keyword _).step 1).bind fun _ =>
      (keeps_mediaQueryList.step 2).bind fun queries =>
        (((hbodies.media dialect).block braces).step 3).bind fun items => keeps_pure ?_
    intro region next middle hmiddle front hfront name _ sign _
    rw [List.append_nil]
    refine ⟨sign ++ (name ++ front), middle, by simp, ?_, hmiddle⟩
    exact hfront.isWithin_of_isInfix ⟨sign ++ name, [], by simp⟩
  · intro region used next ⟨queries, items⟩ source hparts hsource
    refine hparts.statement hplace ?_ rfl hsource
    intro front hqueries
    simpa [Head.parts] using hqueries

/-- The pseudo class of a page fails with admitted errors alone. -/
theorem keeps_pagePseudo : pagePseudo.Keeps setting Promise.excerpt :=
  Keeps.excerpt (Keeps.attempt ((keeps_symbol [':']).bind_significant fun _ =>
    (keeps_noSpacesHere.step 1).bind_significant fun _ =>
      (keeps_identifier_significant .css).step 2))

/-- A page rule is read from its pseudo class and its body. -/
theorem keeps_pageRule (hbodies : bodies.Keep setting) {dialect : Dialect} {place : Place}
    (hplace : place.HasRules dialect) :
    (pageRule bodies dialect).Keeps setting (Promise.statement dialect place) := by
  refine Keeps.bind_capture (Promise.bodied dialect .page fun _ _ => True) (Keeps.attempt ?_)
    (fun _ _ _ _ h => h.endsSignificant) ?_
  · refine (keeps_symbol ['@']).bind fun _ => ((keeps_keyword _).step 1).bind fun _ =>
      (keeps_pagePseudo.optional.step 2).bind fun pseudo =>
        (((hbodies.page dialect).block braces).step 3).bind fun items => keeps_pure ?_
    intro region next middle hmiddle front _ name _ sign _
    rw [List.append_nil]
    exact ⟨sign ++ (name ++ front), middle, by simp, trivial, hmiddle⟩
  · intro region used next ⟨pseudo, items⟩ source hparts hsource
    exact hparts.statement hplace (by simp [Head.parts]) rfl hsource

/-- The word that introduces a variable is one token. -/
theorem keeps_varKeyword : varKeyword.Keeps setting Promise.significant := by
  refine keeps_firstOf ?_
  simp only [List.forall_mem_cons]
  exact ⟨Keeps.map (keeps_keyword _), Keeps.map (keeps_keyword _), Keeps.map (keeps_keyword _),
    by simp⟩

/-- A variable block is read from its name, its body, and perhaps a semicolon. -/
theorem keeps_variableBlock (hbodies : bodies.Keep setting) {place : Place}
    (hplace : place.HasScript .jss) :
    (variableBlock bodies).Keeps setting (Promise.statement .jss place) := by
  refine Keeps.bind_capture (fun region used next parts =>
    ∃ front middle back, used = front ++ (middle ++ back) ∧
      Promise.block braces (Promise.items .jss .block) region middle next parts.2.2.2 ∧
      EndsTrimmed back ∧ (back = [] ∨
        ∃ gap signs, back = gap ++ signs ∧ AllTrivia gap ∧ spelling signs = [';']))
    (Keeps.attempt ?_) ?_ ?_
  · refine (keeps_keyword _).optional.bind fun exporting =>
      (keeps_varKeyword.step 1).bind fun keyword =>
      ((keeps_anyToken .literal).step 2).bind fun name =>
        ((keeps_symbol ['=']).step 3).bind fun _ =>
          (((hbodies.block .jss).block braces).step 4).bind fun items =>
            ((keeps_symbol [';']).optional.step 5).bind fun close => keeps_pure ?_
    intro region next back hback middle hmiddle equals _ name _ word _ before _
    rw [List.append_nil]
    refine ⟨before ++ (word ++ (name ++ equals)), middle, back, by simp, hmiddle, ?_⟩
    cases close with
    | none => exact ⟨.inl hback, .inl hback⟩
    | some text =>
      obtain ⟨rfl, hsymbols⟩ := hback
      refine ⟨.inr (hsymbols.endsSignificant (List.cons_ne_nil _ _)), .inr ?_⟩
      obtain ⟨gap, signs, hsigns, hgap, hspelling, _⟩ := hsymbols
      exact ⟨gap, signs, hsigns, hgap, hspelling⟩
  · rintro region used next parts ⟨front, middle, back, rfl, hbody, hback, _⟩
    exact (hbody.endsSignificant.append_right hback).append_left front
  · rintro region used next ⟨exporting, keyword, name, items⟩ source
      ⟨front, middle, back, rfl, hbody, _, hback⟩ hsource
    exact Promise.statement_block hplace (by simp [Head.parts]) hbody hback hsource

/-- The rule for a name keeps the promise of statements wherever the name stands in scope. -/
theorem namedRule_keeps (hbodies : bodies.Keep setting) {dialect : Dialect} {place : Place}
    (hplace : place.HasRules dialect) {region : Region} {rest more : List Token} {name : Token}
    (hscope : setting.scope region rest) (hname : setting.scope region (name :: more)) :
    ((namedRule bodies dialect name).run region rest).Keeps setting
      (Promise.statement dialect place) region rest := by
  unfold namedRule
  split_ifs
  · exact (keeps_charset hplace).reply region rest hscope
  · exact (keeps_importRule hplace).reply region rest hscope
  · exact (keeps_mediaRule hbodies hplace).reply region rest hscope
  · exact (keeps_pageRule hbodies hplace).reply region rest hscope
  · exact setting.admits_expectedAt _ hname

/-- An at-rule is the rule for its name. -/
theorem keeps_atRule (hbodies : bodies.Keep setting) {dialect : Dialect} {place : Place}
    (hplace : place.HasRules dialect) :
    (atRule bodies dialect).Keeps setting (Promise.statement dialect place) := by
  constructor
  intro region rest hscope
  have hdropped := Setting.scope_dropTrivia hscope
  unfold atRule
  dsimp only
  split
  · exact Setting.admits_expected hscope _
  · next sign following hrest =>
    rw [hrest] at hdropped
    split_ifs
    · cases following with
      | nil => exact Setting.admits_expected (Setting.scope_nil hscope) _
      | cons name more =>
        have hname : setting.scope region ([sign] ++ name :: more) := hdropped
        exact namedRule_keeps hbodies hplace hscope (setting.scope_append hname)
    · exact Setting.admits_expected hscope _

end Grammar

end StyleSyntax
