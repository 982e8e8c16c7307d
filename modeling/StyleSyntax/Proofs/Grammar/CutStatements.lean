import StyleSyntax.Proofs.Grammar.KeywordRules
import StyleSyntax.Proofs.Parser.Cut

/-!
# Statements of a sheet cut out of it

Every statement of a sheet but script ends at a stop, and is read in the same way when nothing
stands behind that stop. Selectors end before their body and no dollar sign at their end makes an
interpolation of it; a rule for an at-sign is chosen by its name, which stands before the stop; and
the alternatives that come before the right one decline, since they look at the first token.
-/

namespace StyleSyntax.Grammar

open StyleSyntax.Parser

variable {k : Cut} {mayEnd : Bool} {rest next stop : List Token}

/-- A statement ends with a semicolon or before trivia at the end. -/
theorem cuts_statementEnd : statementEnd.Cuts k true statementEnd := by
  refine ⟨fun {rest next value} hlexed hrun => ?_⟩
  rcases firstOf_cons_run_eq_ok.mp hrun with ⟨-, hsign⟩ | ⟨-, hend⟩
  · obtain ⟨front, stop, hrest, hstop, hcut⟩ := (cuts_semicolon.map fun _ => ()).run hlexed hsign
    exact ⟨front, stop, hrest, hstop,
      fun hbound => firstOf_cons_run_eq_ok.mpr (.inl ⟨rfl, hcut hbound⟩)⟩
  · obtain ⟨p, hp, hend⟩ := exists_mem_of_firstOf_run hend
    obtain rfl := List.mem_singleton.mp hp
    obtain ⟨rfl, htrivia⟩ := endOfInput_run_eq_ok.mp hend
    exact ⟨[], [], rfl, .finish htrivia, fun _ => rfl⟩

/-- Lone semicolons are cut. -/
theorem cuts_straySemicolon : straySemicolon.Cuts k mayEnd straySemicolon := by
  refine ((cuts_semicolon.capture fun used next value hrun => ?_).map Prod.snd).map _
  obtain ⟨used', hused, hends⟩ :=
    (keeps_symbol_significant (List.cons_ne_nil _ _) : (symbol [';']).Keeps .any _).exists_used hrun
  obtain rfl := List.append_cancel_right hused
  exact hends

/-- A sign that is no semicolon may be read before what is cut. -/
theorem agrees_sign_cut (hstop : IsStop next mayEnd stop) (front : List Token) {sign : Char}
    (hsign : sign ≠ ';') :
    (symbol [sign]).Agrees (k.comparison hstop front) id (symbol [sign]) := by
  refine agrees_symbol (List.cons_ne_nil _ _) fun token htoken hkind hsub => ?_
  rcases hstop.isMark htoken with hbraces | hsemicolon
  · exact kind_ne_of_isBraces hbraces rfl hkind
  · rw [Token.isSemicolon, Token.isSymbol, Bool.and_eq_true, beq_iff_eq, beq_iff_eq] at hsemicolon
    rw [hsemicolon.2] at hsub
    exact hsign (List.mem_singleton.mp (hsub List.mem_cons_self)).symm

/-- A word may be read before what is cut. -/
theorem agrees_keyword_cut (hstop : IsStop next mayEnd stop) (front : List Token) {text : Text}
    (htext : '$' ∉ text) :
    (keyword text).Agrees (k.comparison hstop front) id (keyword text) :=
  (agrees_keyword (Cut.sparesPhrases hstop front) htext).mono fun _ _ h => h

/-- A name may be read before what is cut. -/
theorem agrees_anyLiteral_cut (hstop : IsStop next mayEnd stop) (front : List Token) :
    anyLiteral.Agrees (k.comparison hstop front) id anyLiteral := by
  have hname : anyLiteral.Agrees (k.comparison hstop front) View.full.token anyLiteral :=
    agrees_anyToken fun token htoken hkind => by
      rcases hstop.isMark htoken with hbraces | hsemicolon
      · exact kind_ne_of_isBraces hbraces rfl hkind
      · rw [Token.isSemicolon, Token.isSymbol, hkind] at hsemicolon
        cases hsemicolon
  exact hname.mono fun _ _ h => h

/-- The sign and the word of an at-rule may be read before what is cut. -/
theorem cuts_signed {α : Type} {text : Text} (htext : '$' ∉ text)
    {following others : Token → Parser α}
    (h : ∀ word, (following word).Cuts k mayEnd (others word)) :
    (symbol ['@'] >>= fun _ => step 1 (keyword text) >>= following).Cuts k mayEnd
      (symbol ['@'] >>= fun _ => step 1 (keyword text) >>= others) :=
  Agrees.bind_cuts (keeps_symbol ['@']) (fun hstop front => agrees_sign_cut hstop front (by decide))
    fun _ => Agrees.bind_cuts ((keeps_keyword text).step 1)
      (fun hstop front => (agrees_keyword_cut hstop front htext).step 1) h

/-- Queries may be read before what is cut. -/
theorem agrees_mediaQueryList_cut (hstop : IsStop next mayEnd stop) (front : List Token) :
    mediaQueryList.Agrees (k.comparison hstop front) id mediaQueryList :=
  (agrees_mediaQueryList (Cut.sparesPhrases hstop front)
    (Cut.agreesInside hstop front mediaFeature _)).mono fun _ _ h => h

/-- A part that may be left out may be read before what is cut. -/
theorem agrees_optional_cut {α : Type} {p : Parser α} {c : Comparison} (h : p.Agrees c id p) :
    p.optional.Agrees c id p.optional :=
  h.optional.mono fun _ _ hvalue => by simpa using hvalue

/-- Rules that name the character set are cut. -/
theorem cuts_charset : charset.Cuts k true charset := by
  have hplace : Place.sheet.HasRules .css := trivial
  refine Cuts.statement (Cuts.attempt (cuts_signed (by decide) fun _ => ?_)) (keeps_charset hplace)
  refine Agrees.bind_cuts (keeps_anyString.step 2) (fun hstop front => ?_) fun name =>
    (cuts_statementEnd.step 3).bind_pure fun _ => name
  exact ((agrees_anyString (Cut.sparesPhrases hstop front)).mono fun _ _ h => h).step 2

/-- Rules that import a sheet are cut. -/
theorem cuts_importRule : importRule.Cuts k true importRule := by
  have hplace : Place.sheet.HasRules .css := trivial
  refine Cuts.statement (Cuts.attempt (cuts_signed (by decide) fun _ => ?_))
    (keeps_importRule hplace)
  refine Agrees.bind_cuts (keeps_importPath.step 2)
    (fun hstop front => (agrees_importPath (Cut.sparesPhrases hstop front)).step 2) fun path => ?_
  exact Agrees.bind_cuts (keeps_mediaQueryList.optional.step 3)
    (fun hstop front => (agrees_optional_cut (agrees_mediaQueryList_cut hstop front)).step 3)
    fun queries => (cuts_statementEnd.step 4).bind_pure fun _ => (path, queries)

variable {bodies bodies' : Bodies} (hbodies : bodies.SameWithin k.bound bodies')

include hbodies

/-- Media rules are cut. -/
theorem cuts_mediaRule (dialect : Dialect) :
    (mediaRule bodies dialect).Cuts k mayEnd (mediaRule bodies' dialect) := by
  have hplace : Place.sheet.HasRules dialect := trivial
  refine Cuts.statement (Cuts.attempt (cuts_signed (by decide) fun _ => ?_))
    (keeps_mediaRule hbodies.keeps hplace)
  have hbody : InteriorsAgree k (bodies.mediaItems dialect) (bodies'.mediaItems dialect) :=
    fun _ htoken => hbodies.media dialect _ htoken
  exact Agrees.bind_cuts (keeps_mediaQueryList.step 2)
    (fun hstop front => (agrees_mediaQueryList_cut hstop front).step 2)
    fun queries => ((cuts_braces hbody).step 3).bind_pure fun items => (queries, items)

/-- Page rules are cut. -/
theorem cuts_pageRule (dialect : Dialect) :
    (pageRule bodies dialect).Cuts k mayEnd (pageRule bodies' dialect) := by
  have hbody : InteriorsAgree k (bodies.pageItems dialect) (bodies'.pageItems dialect) :=
    fun _ htoken => hbodies.page dialect _ htoken
  have hplace : Place.sheet.HasRules dialect := trivial
  refine Cuts.of_mark (Cuts.statement (Cuts.attempt (cuts_signed (by decide) fun _ => ?_))
    (keeps_pageRule hbodies.keeps hplace))
  refine Agrees.bind_cuts (keeps_pagePseudo.optional.step 2) (fun hstop front => ?_)
    fun pseudo => ((cuts_braces hbody).step 3).bind_pure fun items => (pseudo, items)
  have hpseudo := agrees_pagePseudo (c := k.comparison hstop front) (Cut.isEven hstop front)
    (Cut.sparesPhrases hstop front)
  exact (agrees_optional_cut (hpseudo.mono fun _ _ hsource => congrArg Prod.snd hsource)).step 2

/-- Variables are cut. -/
theorem cuts_variableBlock : (variableBlock bodies).Cuts k mayEnd (variableBlock bodies') := by
  have hbody : InteriorsAgree k (bodies.blockItems .jss) (bodies'.blockItems .jss) :=
    fun _ htoken => hbodies.block .jss _ htoken
  have hplace : Place.sheet.HasScript .jss := ⟨rfl, .inl rfl⟩
  refine Cuts.statement (Cuts.attempt ?_) (keeps_variableBlock hbodies.keeps hplace)
  refine Agrees.bind_cuts (keeps_keyword _).optional (fun hstop front => agrees_optional_cut
    (agrees_keyword_cut hstop front (by decide))) fun exporting => ?_
  refine Agrees.bind_cuts (keeps_varKeyword.step 1)
    (fun hstop front => (agrees_varKeyword (Cut.sparesPhrases hstop front)).step 1) fun word => ?_
  refine Agrees.bind_cuts ((keeps_anyToken .literal).step 2)
    (fun hstop front => (agrees_anyLiteral_cut hstop front).step 2) fun name => ?_
  refine Agrees.bind_cuts ((keeps_symbol ['=']).step 3)
    (fun hstop front => (agrees_sign_cut hstop front (by decide)).step 3) fun _ => ?_
  exact cuts_braces_semicolon hbody 4 5 fun items => (exporting, word, name, items)

omit hbodies in
/-- Selectors leave no interpolation open, and a gap opens none. -/
theorem opensInterpolation_of_onlyOpen {used gap : List Token} (hused : OnlyOpen IsForeign used)
    (hgap : AllTrivia gap) {last : Token} (hlast : last ∈ (used ++ gap).getLast?) (region : Token) :
    last.opensInterpolation region = false := by
  rw [← Bool.not_eq_true]
  intro hopens
  have hsignificant := (isSignificant_of_opensInterpolation hopens).1
  obtain ⟨front, hsplit⟩ := List.getLast?_eq_some_iff.mp hlast
  rcases List.eq_nil_or_concat' gap with rfl | ⟨start, trivium, rfl⟩
  · rw [List.append_nil] at hsplit
    have hforeign : IsForeign last := by
      simp only [Token.opensInterpolation, Bool.and_eq_true, beq_iff_eq] at hopens
      exact .inr (.inr ⟨hopens.1.1.1, List.mem_of_getLast? hopens.1.1.2⟩)
    have hnothing := hused front last [] hsplit hsignificant hforeign
    cases hnothing
  · rw [← List.append_assoc] at hsplit
    obtain ⟨-, htoken⟩ := List.append_inj' hsplit rfl
    obtain rfl : trivium = last := List.singleton_inj.mp htoken
    have htrivia := hgap trivium (by simp)
    rw [isTrivia_eq_false_of_significant hsignificant] at htrivia
    cases htrivia

/-- Rules are cut: their selectors stop before the body, and no dollar sign at their end makes the
body an interpolation. -/
theorem cuts_ruleBlock (dialect : Dialect) :
    (ruleBlock bodies dialect).Cuts k mayEnd (ruleBlock bodies' dialect) := by
  have hbody : InteriorsAgree k (bodies.blockItems dialect) (bodies'.blockItems dialect) :=
    fun _ htoken => hbodies.block dialect _ htoken
  have hplace : Place.sheet.HasRules dialect := trivial
  refine Cuts.statement (Cuts.attempt ⟨fun {rest next parts} hlexed hrun => ?_⟩)
    (keeps_ruleBlock hbodies.keeps hplace)
  obtain ⟨selectors, middle, hselectors, hlater⟩ := bind_run_eq_ok.mp hrun
  obtain ⟨items, last, hitems, hparts⟩ := bind_run_eq_ok.mp hlater
  obtain ⟨rfl, rfl⟩ := pure_run_eq_ok.mp hparts
  obtain ⟨token, htoken, hkind, hvalue⟩ := block_run_eq_ok.mp (step_run_eq_ok.mp hitems)
  have hmark : token.isBraces := (braces_contains token.kind).symm.trans hkind
  obtain ⟨used, rfl, -⟩ := (keeps_selectorList dialect).exists_used hselectors
  obtain ⟨gap, hgap, htrivia⟩ := exists_gap middle
  rw [htoken] at hgap
  subst hgap
  have hstop : IsStop last false [token] := .mark (.inl hmark)
  have hjumps : (k.comparison hstop (used ++ gap)).Jumps :=
    Cut.jumps hstop fun before hbefore _ _ =>
      opensInterpolation_of_onlyOpen (onlyOpen_of_selectorList hselectors) htrivia hbefore _
  have hagrees : (selectorList dialect).Agrees (k.comparison hstop (used ++ gap)) id
      (selectorList dialect) :=
    (agrees_selectorList (Cut.isEven hstop _) (Cut.sparesPhrases hstop _) fun _ => hjumps).mono
      fun _ _ h => (List.map_id _).symm.trans (h.trans (List.map_id _))
  refine ⟨used ++ gap, [token], by simp, hstop.of_mark, fun hbound => ?_⟩
  rw [List.append_assoc] at hbound ⊢
  simp only [spelling_append, spelling_cons, List.length_append] at hbound
  exact bind_run_eq_ok.mpr ⟨selectors, gap ++ [token], hagrees.run_cut hselectors,
    bind_run_eq_ok.mpr ⟨items, [], step_run_eq_ok.mpr (block_run_eq_ok.mpr
      ⟨token, dropTrivia_gap_mark htrivia (.inl hmark), hkind,
        hbody.interior_eq_ok hvalue (by omega)⟩), rfl⟩⟩

omit hbodies in
/-- The sign of an at-rule has a token behind it. -/
theorem exists_of_signed {region : Region} {config : LexerConfig} {α : Type} {text : Text}
    {following : Token → Parser α} {build : α × Excerpt → Node} {node : Node}
    (hlexed : IsLexed config rest)
    (h : (Parser.capture (Parser.attempt
      (symbol ['@'] >>= fun _ => step 1 (keyword text) >>= following)) >>= fun captured =>
        pure (build captured)).run region rest = ⟨.ok node, next⟩) :
    ∃ sign word later, dropTrivia rest = sign :: word :: later := by
  obtain ⟨captured, middle, hcaptured, -⟩ := bind_run_eq_ok.mp h
  have hparts := attempt_run_eq_ok.mp (capture_run_eq_ok.mp hcaptured).1
  obtain ⟨value, behind, hsign, hlater⟩ := bind_run_eq_ok.mp hparts
  obtain ⟨word, last, hword, -⟩ := bind_run_eq_ok.mp hlater
  obtain ⟨-, sign, hrest, -⟩ := (symbol_run_eq_ok_of_isLexed hlexed).mp hsign
  obtain ⟨hbehind, -⟩ := tokenWhere_run_eq_ok.mp (step_run_eq_ok.mp hword)
  cases behind with
  | nil => cases hbehind
  | cons name later => exact ⟨sign, name, later, hrest⟩

omit hbodies in
/-- An at-rule begins with two tokens. -/
theorem exists_of_namedRule {region : Region} {config : LexerConfig} {dialect : Dialect}
    {name : Token} {node : Node} (hlexed : IsLexed config rest)
    (h : (namedRule bodies dialect name).run region rest = ⟨.ok node, next⟩) :
    ∃ sign word later, dropTrivia rest = sign :: word :: later := by
  unfold namedRule at h
  split_ifs at h
  · exact exists_of_signed hlexed h
  · exact exists_of_signed hlexed h
  · exact exists_of_signed hlexed h
  · exact exists_of_signed hlexed h
  · cases h

/-- The rule for a name is cut. -/
theorem cuts_namedRule (dialect : Dialect) (name : Token) :
    (namedRule bodies dialect name).Cuts k true (namedRule bodies' dialect name) := by
  unfold namedRule
  split_ifs
  · exact cuts_charset
  · exact cuts_importRule
  · exact cuts_mediaRule hbodies dialect
  · exact cuts_pageRule hbodies dialect
  · exact ⟨fun _ hrun => by cases hrun⟩

omit hbodies in
/-- An at-rule is the rule for the name behind its sign. -/
theorem atRule_run_eq_ok {region : Region} {dialect : Dialect} {node : Node} :
    (atRule bodies dialect).run region rest = ⟨.ok node, next⟩ ↔
      ∃ sign name later, dropTrivia rest = sign :: name :: later ∧ sign.isAt ∧
        (namedRule bodies dialect name).run region rest = ⟨.ok node, next⟩ := by
  unfold atRule
  dsimp only
  constructor
  · intro h
    split at h
    · cases h
    · next sign following hrest =>
      split_ifs at h with hat
      · split at h
        · cases h
        · next name later => exact ⟨sign, name, later, hrest, hat, h⟩
      · cases h
  · rintro ⟨sign, name, later, hrest, hat, h⟩
    rw [hrest]
    dsimp only
    rw [if_pos hat]
    exact h

/-- At-rules are cut: the name that chooses the rule stands before the stop. -/
theorem cuts_atRule (dialect : Dialect) :
    (atRule bodies dialect).Cuts k true (atRule bodies' dialect) := by
  refine ⟨fun {rest next node} hlexed hrun => ?_⟩
  obtain ⟨sign, name, later, hrest, hat, hnamed⟩ := atRule_run_eq_ok.mp hrun
  obtain ⟨front, stop, rfl, hstop, hcut⟩ := (cuts_namedRule hbodies dialect name).run hlexed hnamed
  refine ⟨front, stop, rfl, hstop, fun hbound => ?_⟩
  rw [← List.append_assoc] at hlexed hrest
  have hpart := hlexed.of_isInfix (List.prefix_append _ _).isInfix
  obtain ⟨sign', name', later', hused⟩ := exists_of_namedRule hpart (hcut hbound)
  obtain ⟨gap, hgap, htrivia⟩ := exists_gap (front ++ stop)
  have hsign := isSignificant_of_dropTrivia_eq_cons hused
  rw [hgap, hused, List.append_assoc, List.cons_append, dropTrivia_gap htrivia hsign,
    List.cons_append] at hrest
  obtain ⟨rfl, hlater⟩ := List.cons.inj hrest
  obtain ⟨rfl, -⟩ := List.cons.inj hlater
  exact atRule_run_eq_ok.mpr ⟨_, _, later', hused, hat, hcut hbound⟩

/-! ## Items of a sheet -/

omit hbodies in
/-- A rule begins with no foreign sign. -/
theorem isSemicolon_and_isAt_of_ruleBlock {region : Region} {dialect : Dialect} {token : Token}
    {node : Node} (htoken : token.isSignificant)
    (h : (ruleBlock bodies dialect).run region (token :: rest) = ⟨.ok node, next⟩) :
    token.isSemicolon = false ∧ token.isAt = false := by
  obtain ⟨selectors, items, middle, hselectors, -⟩ := ruleBlock_run_eq_ok.mp h
  obtain ⟨used, hused, hpromise⟩ := (keeps_selectorList dialect).exists_used hselectors
  obtain ⟨first, back, rfl⟩ := List.exists_cons_of_ne_nil hpromise.1.ne_nil
  obtain ⟨rfl, rfl⟩ := List.cons.inj hused
  have hopen := onlyOpen_of_selectorList hselectors [] token back rfl htoken
  have hsign {c : Char} (hsymbol : token.isSymbol [c]) :
      back.head?.any token.opensInterpolation = false := by
    rw [Token.isSymbol, Bool.and_eq_true, beq_iff_eq] at hsymbol
    have hnever : token.opensInterpolation = fun _ => false := by
      funext region
      rw [Token.opensInterpolation, hsymbol.1]
      rfl
    rw [hnever]
    cases back.head? <;> rfl
  rw [← Bool.not_eq_true, ← Bool.not_eq_true]
  refine ⟨fun hsemicolon => ?_, fun hat => ?_⟩
  · exact absurd (hopen (.inl hsemicolon)) (by rw [hsign hsemicolon]; exact Bool.false_ne_true)
  · exact absurd (hopen (.inr (.inl hat))) (by rw [hsign hat]; exact Bool.false_ne_true)

omit hbodies in
/-- The statements of a sheet begin with lone semicolons and at-rules in both languages. -/
theorem sheetStatements_eq_cons (bodies : Bodies) (dialect : Dialect) :
    sheetStatements bodies dialect = probe Token.isSemicolon straySemicolon ::
      probe Token.isAt (atRule bodies dialect) :: (sheetStatements bodies dialect).drop 2 := by
  cases dialect <;> rfl

omit hbodies in
/-- The sign of an at-rule is no semicolon. -/
theorem isSemicolon_eq_false_of_isAt {token : Token} (h : token.isAt) :
    token.isSemicolon = false := by
  rw [Token.isAt, Token.isSymbol, Bool.and_eq_true, beq_iff_eq, beq_iff_eq] at h
  rw [Token.isSemicolon, Token.isSymbol, h.1, h.2]
  rfl

omit hbodies in
/-- A literal is no sign. -/
theorem isSymbol_eq_false_of_isVariableStart {token : Token} (h : isVariableStart token)
    (text : Text) : token.isSymbol text = false := by
  rw [isVariableStart, Bool.and_eq_true, beq_iff_eq] at h
  rw [Token.isSymbol, h.1]
  rfl

omit hbodies in
/-- Where script has been tried in vain no word begins it, since script refuses nothing. -/
theorem isScriptKeyword_eq_false_of_declines {region : Region} {token : Token}
    {following : List Token} (hrest : dropTrivia rest = token :: following)
    (h : (probe isScriptKeyword script).Declines region rest) : isScriptKeyword token = false := by
  rw [← Bool.not_eq_true]
  intro hword
  obtain ⟨error, left, hfailed, -⟩ := h ((accepts_probe hrest script).trans hword)
  obtain ⟨source, hscript⟩ := exists_run_script region hrest
  cases hscript.symm.trans hfailed

/-- A rule, or a variable in the extended language, is read from its own tokens, and begins like no
statement that is tried before it. -/
theorem firstOf_drop_sheetStatements {dialect : Dialect} {token : Token} {later : List Token}
    {node : Node} (htoken : token.isSignificant)
    (hcut : ∀ {p p' : Parser Node}, p.Cuts k true p' →
      p.run k.left (token :: rest) = ⟨.ok node, next⟩ →
      p'.run k.right (token :: later) = ⟨.ok node, []⟩)
    (hrun : (firstOf ((sheetStatements bodies dialect).drop 2)).run k.left (token :: rest) =
      ⟨.ok node, next⟩) (hnode : ∀ source, node ≠ .leaf (.script source)) :
    token.isSemicolon = false ∧ token.isAt = false ∧
      (firstOf ((sheetStatements bodies' dialect).drop 2)).run k.right (token :: later) =
        ⟨.ok node, []⟩ := by
  have hleft := dropTrivia_cons htoken rest
  have hright := dropTrivia_cons htoken later
  obtain ⟨source, hscript⟩ := exists_run_script k.left hleft
  have hother (hp : script.run k.left (token :: rest) = ⟨.ok node, next⟩) : False := by
    rw [hscript] at hp
    cases hp
    exact hnode source rfl
  have hrule (hp : (ruleBlock bodies dialect).run k.left (token :: rest) = ⟨.ok node, next⟩) :
      token.isSemicolon = false ∧ token.isAt = false ∧
        (ruleBlock bodies' dialect).run k.right (token :: later) = ⟨.ok node, []⟩ := by
    obtain ⟨hsemicolon, hat⟩ := isSemicolon_and_isAt_of_ruleBlock htoken hp
    exact ⟨hsemicolon, hat, hcut (cuts_ruleBlock hbodies dialect) hp⟩
  cases dialect with
  | css =>
    obtain ⟨p, hp, hrun⟩ := exists_mem_of_firstOf_run hrun
    obtain rfl := List.mem_singleton.mp hp
    obtain ⟨hsemicolon, hat, hrun⟩ := hrule hrun
    exact ⟨hsemicolon, hat, firstOf_cons_run_eq_ok.mpr (.inl ⟨rfl, hrun⟩)⟩
  | jss =>
    rcases firstOf_cons_run_eq_ok.mp hrun with ⟨hstart, hp⟩ | ⟨-, hrun⟩
    · rw [accepts_probe hleft] at hstart
      refine ⟨isSymbol_eq_false_of_isVariableStart hstart _,
        isSymbol_eq_false_of_isVariableStart hstart _, firstOf_cons_run_eq_ok.mpr (.inl ⟨?_, ?_⟩)⟩
      · rwa [accepts_probe hright]
      · exact hcut ((cuts_variableBlock hbodies).probe _) hp
    · rcases firstOf_cons_run_eq_ok.mp hrun with ⟨-, hp⟩ | ⟨hdeclines, hrun⟩
      · exact (hother hp).elim
      · rcases firstOf_cons_run_eq_ok.mp hrun with ⟨-, hp⟩ | ⟨-, hrun⟩
        · obtain ⟨hsemicolon, hat, hrun⟩ := hrule hp
          have hkeyword := isScriptKeyword_eq_false_of_declines hleft hdeclines
          have hvariable : isVariableStart token = false := by
            rw [← Bool.not_eq_true] at hkeyword ⊢
            exact fun hstart => hkeyword (isScriptKeyword_of_isVariableStart hstart)
          refine ⟨hsemicolon, hat, firstOf_cons_run_eq_ok.mpr (.inr
            ⟨declines_probe hright hvariable _, firstOf_cons_run_eq_ok.mpr (.inr
              ⟨declines_probe hright hkeyword _, firstOf_cons_run_eq_ok.mpr (.inl ⟨rfl, hrun⟩)⟩)⟩)⟩
        · obtain ⟨p, hp, hrun⟩ := exists_mem_of_firstOf_run hrun
          obtain rfl := List.mem_singleton.mp hp
          exact (hother hrun).elim

/-- A statement of a sheet that is no script is read from its own tokens as it was in the sheet. -/
theorem exists_cut_of_sheetStatements {dialect : Dialect} {token : Token} {node : Node}
    (hlexed : IsLexed k.left.config (token :: rest)) (htoken : token.isSignificant)
    (hrun : (firstOf (sheetStatements bodies dialect)).run k.left (token :: rest) =
      ⟨.ok node, next⟩) (hnode : ∀ source, node ≠ .leaf (.script source)) :
    ∃ later, token :: rest = (token :: later) ++ next ∧
      ((spelling (token :: later)).length ≤ k.bound →
        (firstOf (sheetStatements bodies' dialect)).run k.right (token :: later) =
          ⟨.ok node, []⟩) := by
  obtain ⟨used, hused, hpromise⟩ :=
    (keeps_sheetStatements hbodies.keeps dialect).exists_used hrun
  obtain ⟨first, later, rfl⟩ := List.exists_cons_of_ne_nil hpromise.1.ne_nil
  obtain ⟨rfl, -⟩ := List.cons.inj hused
  refine ⟨later, hused, fun hbound => ?_⟩
  have hleft := dropTrivia_cons htoken rest
  have hright := dropTrivia_cons htoken later
  have hcut {p p' : Parser Node} (hcuts : p.Cuts k true p')
      (hp : p.run k.left (token :: rest) = ⟨.ok node, next⟩) :
      p'.run k.right (token :: later) = ⟨.ok node, []⟩ := by
    obtain ⟨front, stop, hrest, -, hcut⟩ := hcuts.run hlexed hp
    rw [hused, ← List.append_assoc] at hrest
    rw [List.append_cancel_right hrest] at hbound ⊢
    exact hcut hbound
  rw [sheetStatements_eq_cons] at hrun ⊢
  rcases firstOf_cons_run_eq_ok.mp hrun with ⟨hsemicolon, hp⟩ | ⟨-, hrun⟩
  · rw [accepts_probe hleft] at hsemicolon
    refine firstOf_cons_run_eq_ok.mpr (.inl ⟨?_, hcut (cuts_straySemicolon.probe _) hp⟩)
    rwa [accepts_probe hright]
  rcases firstOf_cons_run_eq_ok.mp hrun with ⟨hat, hp⟩ | ⟨-, hrun⟩
  · rw [accepts_probe hleft] at hat
    refine firstOf_cons_run_eq_ok.mpr (.inr
      ⟨declines_probe hright (isSemicolon_eq_false_of_isAt hat) _, firstOf_cons_run_eq_ok.mpr
        (.inl ⟨?_, hcut ((cuts_atRule hbodies dialect).probe _) hp⟩)⟩)
    rwa [accepts_probe hright]
  · obtain ⟨hsemicolon, hat, hlater⟩ := firstOf_drop_sheetStatements hbodies htoken hcut hrun hnode
    exact firstOf_cons_run_eq_ok.mpr (.inr ⟨declines_probe hright hsemicolon _,
      firstOf_cons_run_eq_ok.mpr (.inr ⟨declines_probe hright hat _, hlater⟩)⟩)

/-- An item of a sheet that is no script is read from its own tokens as it was in the sheet. -/
theorem exists_cut_of_item {dialect : Dialect} {token : Token} {node : Node}
    (hlexed : IsLexed k.left.config (token :: rest))
    (hrun : (item (firstOf (sheetStatements bodies dialect))).run k.left (token :: rest) =
      ⟨.ok node, next⟩) (hnode : ∀ source, node ≠ .leaf (.script source)) :
    ∃ later, token :: rest = (token :: later) ++ next ∧
      ((spelling (token :: later)).length ≤ k.bound →
        (item (firstOf (sheetStatements bodies' dialect))).run k.right (token :: later) =
          ⟨.ok node, []⟩) := by
  by_cases htrivia : token.isTrivia
  · have hgap : (token :: rest).takeWhile Token.isTrivia =
        token :: rest.takeWhile Token.isTrivia := List.takeWhile_cons_of_pos htrivia
    rw [item_run_of_isTrivia htrivia, ignored_run_of_isTrivia _ _ htrivia, hgap] at hrun
    cases hrun
    refine ⟨rest.takeWhile Token.isTrivia, ?_, fun _ => ?_⟩
    · rw [← hgap, takeWhile_append_dropTrivia]
    · have hall : AllTrivia (token :: rest.takeWhile Token.isTrivia) := by
        rw [← hgap]
        exact fun _ hmember => List.mem_takeWhile_imp hmember
      rw [item_run_of_isTrivia htrivia, ignored_run_of_isTrivia _ _ htrivia,
        List.takeWhile_eq_self_iff.mpr hall, dropTrivia, List.dropWhile_eq_nil_iff.mpr hall]
  · have htoken : token.isSignificant := by simpa [Token.isSignificant] using htrivia
    rw [item_run_of_significant htoken] at hrun
    obtain ⟨later, hused, hcut⟩ := exists_cut_of_sheetStatements hbodies hlexed htoken hrun hnode
    refine ⟨later, hused, fun hbound => ?_⟩
    rw [item_run_of_significant htoken]
    exact hcut hbound

end StyleSyntax.Grammar
