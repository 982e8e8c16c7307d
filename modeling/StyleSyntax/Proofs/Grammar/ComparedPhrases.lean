import StyleSyntax.Grammar.MediaQuery
import StyleSyntax.Grammar.Selector
import StyleSyntax.Proofs.Grammar.SolidPhrases
import StyleSyntax.Proofs.Parser.ComparisonRepetition

/-!
# Identifiers, selectors and media queries in two runs

The phrases that stand before a body or a semicolon agree with themselves in a comparison that bars
no other tokens than these. Selectors ask where gaps are, and need an even comparison; identifiers
of the extended language pass over interpolations. Names, selector pieces and paths are written in
one piece and have the same text in both runs.
-/

namespace StyleSyntax

variable {α : Type} {c : Comparison}

/-- Of the tokens that make up phrases none is barred: only braces, semicolons, the signs of
at-rules and literals with a dollar sign are. -/
def Comparison.SparesPhrases (c : Comparison) : Prop :=
  ∀ token, c.bars token → token.isBraces ∨ token.isSemicolon ∨ token.isAt ∨
    token.kind = .literal ∧ '$' ∈ token.value

namespace Comparison.SparesPhrases

variable (hbars : c.SparesPhrases)

include hbars

/-- No token of another kind is barred. -/
theorem kind_ne {kind : TokenKind} (hkind : kind ∉ [.symbol, .literal, .lazyBlock, .block])
    (token : Token) (htoken : c.bars token) : token.kind ≠ kind := by
  rintro rfl
  simp only [List.mem_cons, List.not_mem_nil, or_false, not_or] at hkind
  obtain h | h | h | h := hbars token htoken
  · cases htokenKind : token.kind <;> simp_all [Token.isBraces, TokenKind.isBraces]
  · rw [Token.isSemicolon, Token.isSymbol, Bool.and_eq_true, beq_iff_eq] at h
    exact hkind.1 h.1
  · rw [Token.isAt, Token.isSymbol, Bool.and_eq_true, beq_iff_eq] at h
    exact hkind.1 h.1
  · exact hkind.2.1 h.1

/-- Of the symbols only the semicolon and the sign of at-rules are barred. -/
theorem not_subset {text : Text} (htext : ';' ∉ text ∧ '@' ∉ text) (token : Token)
    (htoken : c.bars token) (hkind : token.kind = .symbol) : ¬token.value ⊆ text := by
  intro hsub
  obtain h | h | h | h := hbars token htoken
  · rw [Token.isBraces, hkind] at h
    cases h
  · rw [Token.isSemicolon, Token.isSymbol, Bool.and_eq_true, beq_iff_eq, beq_iff_eq] at h
    exact htext.1 (hsub (by simp [h.2]))
  · rw [Token.isAt, Token.isSymbol, Bool.and_eq_true, beq_iff_eq, beq_iff_eq] at h
    exact htext.2 (hsub (by simp [h.2]))
  · rw [hkind] at h
    cases h.1

/-- Of the literals only those with a dollar sign are barred. -/
theorem isLiteral_eq_false {text : Text} (htext : '$' ∉ text) (token : Token)
    (htoken : c.bars token) : token.isLiteral text = false := by
  rw [← Bool.not_eq_true]
  intro hliteral
  rw [Token.isLiteral, Bool.and_eq_true, beq_iff_eq, beq_iff_eq] at hliteral
  obtain h | h | h | h := hbars token htoken
  · rw [Token.isBraces, hliteral.1] at h
    cases h
  · rw [Token.isSemicolon, Token.isSymbol, hliteral.1] at h
    cases h
  · rw [Token.isAt, Token.isSymbol, hliteral.1] at h
    cases h
  · exact htext (hliteral.2 ▸ h.2)

end Comparison.SparesPhrases

/-- An excerpt without gaps has the same text in both runs, and looks the same. -/
theorem Parser.Agrees.excerpt_solid {β : Type} {p : Parser α} {f : α → β} (h : p.Agrees c f p)
    (hsolid : p.Keeps .any Promise.solid) (hends : p.Keeps .any Promise.significant) :
    (Parser.excerpt p).Agrees c (fun source => (source.text, c.view.excerpt source))
      (Parser.excerpt p) := by
  refine (h.excerpt hends hends).and_keeps (hsolid.excerpt_solid hends)
    (hsolid.excerpt_solid hends) ?_
  rintro used used' next next' source source' htakes ⟨hused, hsource⟩ ⟨-, hsource'⟩ hseen
  obtain ⟨_, _, _, _, rfl⟩ := hsource.begins
  obtain ⟨_, _, _, _, rfl⟩ := hsource'.begins
  exact Prod.ext (c.trimmedSpelling_eq htakes hused) hseen

namespace Grammar

open StyleSyntax.Parser

/-- The units of an identifier are counted one after another. -/
theorem identifierLength_cons (dialect : Dialect) (token : Token) (rest : List Token) :
    identifierLength dialect (token :: rest) =
      if isName token || isDashes token then identifierLength dialect rest + 1
      else if dialect == .jss && rest.head?.any token.opensInterpolation then
        identifierLength dialect rest.tail + 2
      else 0 := by
  cases rest with
  | nil => simp [identifierLength]
  | cons next rest => rfl

/-- No identifier begins with trivia. -/
theorem identifierLength_of_head_isTrivia (dialect : Dialect) {rest : List Token}
    (h : ∀ token ∈ rest.head?, token.isTrivia) : identifierLength dialect rest = 0 := by
  cases rest with
  | nil => rfl
  | cons token rest =>
    have htrivia := h token rfl
    have hunit : (isName token || isDashes token) = false := by
      rw [← Bool.not_eq_true]
      intro hunit
      rw [isTrivia_eq_false_of_significant (isSignificant_of_unit hunit)] at htrivia
      cases htrivia
    have hopens (next : Token) : token.opensInterpolation next = false := by
      rw [← Bool.not_eq_true]
      intro hopens
      have hsignificant := (isSignificant_of_opensInterpolation hopens).1
      rw [isTrivia_eq_false_of_significant hsignificant] at htrivia
      cases htrivia
    rw [identifierLength_cons, hunit, if_neg Bool.false_ne_true, if_neg]
    cases rest.head? <;> simp [hopens]

/-- No unit of an identifier is barred. -/
theorem not_bars_of_unit (hbars : c.SparesPhrases) {token : Token}
    (h : isName token || isDashes token) : ¬c.bars token := by
  intro htoken
  rcases unit_cases h with ⟨hkind, hdollar⟩ | ⟨hkind, hvalue⟩
  · have hliteral := hbars.isLiteral_eq_false hdollar token htoken
    rw [Token.isLiteral, hkind] at hliteral
    simp at hliteral
  · exact hbars.not_subset (by decide) token htoken hkind hvalue

/-- Behind what opens an interpolation stands the rest of it. -/
theorem exists_of_opensInterpolation {token : Token} {next : List Token}
    (h : next.head?.any token.opensInterpolation) :
    ∃ region later, next = region :: later ∧ token.opensInterpolation region := by
  obtain ⟨region, hregion, hopens⟩ := (Option.any_eq_true _ _).mp h
  obtain ⟨later, rfl⟩ := List.head?_eq_some_iff.mp hregion
  exact ⟨region, later, rfl, hopens⟩

/-- An identifier has the same units in both runs. -/
theorem identifierLength_agrees (hbars : c.SparesPhrases) {dialect : Dialect}
    (hjumps : dialect = .jss → c.Jumps) {rest rest' : List Token} (hleaves : c.leaves rest rest') :
    ∃ used used' next next', rest = used ++ next ∧ rest' = used' ++ next' ∧
      identifierLength dialect rest = used.length ∧
      identifierLength dialect rest' = used'.length ∧
      List.Forall₂ c.view.Same used used' ∧ c.takes used used' ∧ c.leaves next next' := by
  induction hlength : rest.length using Nat.strong_induction_on generalizing rest rest' with
  | _ length ih =>
    subst hlength
    obtain ⟨token, token', next, next', rfl, rfl, hsignificant, hsame⟩ | ⟨htrivia, htrivia'⟩ :=
      c.here hleaves
    · rw [identifierLength_cons, identifierLength_cons,
        hsame.test_eq (fun token => isName token || isDashes token) fun _ _ _ _ => rfl]
      have hagrees : (dialect == .jss && next'.head?.any token'.opensInterpolation) =
          (dialect == .jss && next.head?.any token.opensInterpolation) := by
        cases dialect with
        | css => rfl
        | jss => exact (hjumps rfl).opens_eq hleaves hsignificant hsame
      rw [hagrees]
      split_ifs with hunit hopens
      · obtain ⟨htoken, hnext⟩ := c.pass hleaves hsignificant (not_bars_of_unit hbars hunit)
        obtain ⟨used, used', later, later', rfl, rfl, hused, hused', hall, htakes, hlater⟩ :=
          ih _ (by simp) hnext rfl
        exact ⟨token :: used, token' :: used', later, later', rfl, rfl, by rw [hused]; rfl,
          by rw [hused']; rfl, .cons hsame hall, c.takes_append htoken htakes, hlater⟩
      · rw [hopens, Bool.and_eq_true, beq_iff_eq] at hagrees
        rw [Bool.and_eq_true, beq_iff_eq] at hopens
        obtain ⟨region, later, rfl, hregion⟩ := exists_of_opensInterpolation hopens.2
        obtain ⟨region', later', rfl, -⟩ := exists_of_opensInterpolation hagrees.2
        obtain ⟨hboth, hpair, hlater⟩ := (hjumps hopens.1).pass hleaves hregion
        obtain ⟨used, used', last, last', rfl, rfl, hused, hused', hall, htakes, hlast⟩ :=
          ih _ (by simp only [List.length_cons]; omega) hlater rfl
        exact ⟨token :: region :: used, token' :: region' :: used', last, last', rfl, rfl,
          congrArg (· + 2) hused, congrArg (· + 2) hused', .cons hsame (.cons hboth hall),
          c.takes_append hpair htakes, hlast⟩
      · exact ⟨[], [], _, _, rfl, rfl, rfl, rfl, .nil, c.takes_nil, hleaves⟩
    · exact ⟨[], [], rest, rest', rfl, rfl, identifierLength_of_head_isTrivia dialect htrivia,
        identifierLength_of_head_isTrivia dialect htrivia', .nil, c.takes_nil, hleaves⟩

/-- Tokens that look the same one by one spell the same and are literals together. -/
theorem units_agree {view : View} {used used' : List Token}
    (h : List.Forall₂ view.Same used used') :
    spelling used' = spelling used ∧
      used'.any (fun token => token.kind == .literal) =
        used.any fun token => token.kind == .literal := by
  induction h with
  | nil => exact ⟨rfl, rfl⟩
  | cons hsame _ ih =>
    rw [spelling_cons, spelling_cons, List.any_cons, List.any_cons, hsame.value, hsame.kind, ih.1,
      ih.2]
    exact ⟨rfl, rfl⟩

/-- An identifier has the same text in both runs. -/
theorem agrees_identifier (hbars : c.SparesPhrases) {dialect : Dialect}
    (hjumps : dialect = .jss → c.Jumps) :
    (identifier dialect).Agrees c c.view.name (identifier dialect) := by
  refine ⟨fun {rest rest'} hleaves => ?_, fun _ => rfl⟩
  unfold identifier
  dsimp only
  obtain ⟨hrest, hrest'⟩ | ⟨token, token', next, next', hrest, hrest', -, hgap, hnext⟩ :=
    c.behind hleaves
  · rw [hrest, hrest']
    exact .failed (by rw [isBlock_expected, isBlock_expected])
  · obtain ⟨used, used', later, later', hused, hused', hlength, hlength', hunits, htakes, hlater⟩ :=
      identifierLength_agrees hbars hjumps hnext
    obtain ⟨hspelling, hliteral⟩ := units_agree hunits
    refine Reply.Agrees.behind_gap hgap ?_
    rw [hrest, hlength, hrest', hlength', hused, hused', List.take_left, List.take_left,
      List.drop_left, List.drop_left, hliteral]
    split_ifs with hname
    · refine .ok rfl rfl htakes hlater ?_
      cases hunits with
      | nil => cases hname
      | cons hsame _ =>
        rw [View.name, View.name, hspelling]
        exact congrArg (Excerpt.mk _) hsame.position
    · exact .failed (by rw [isBlock_expected, isBlock_expected])

/-! ## Selectors -/

section Selectors

variable (hc : c.IsEven) (hbars : c.SparesPhrases) {dialect : Dialect}
  (hjumps : dialect = .jss → c.Jumps)

include hbars

/-- Symbols that are not barred are matched in both runs. -/
theorem agrees_symbol_of_notMem {β : Type} {f : Text → β} {text : Text} (htext : text ≠ [])
    (hsign : ';' ∉ text ∧ '@' ∉ text) : (symbol text).Agrees c f (symbol text) :=
  agrees_symbol htext (hbars.not_subset hsign)

/-- Combinators agree. -/
theorem agrees_combinator : combinator.Agrees c id combinator := by
  refine agrees_oneOfSymbols ?_
  simp only [List.forall_mem_cons]
  exact ⟨⟨by simp, hbars.not_subset (by decide)⟩, ⟨by simp, hbars.not_subset (by decide)⟩,
    ⟨by simp, hbars.not_subset (by decide)⟩, by simp⟩

/-- An extended selector begins with the same combinator. -/
theorem agrees_leadingCombinator :
    (leadingCombinator dialect).Agrees c id (leadingCombinator dialect) := by
  cases dialect with
  | css => exact agrees_pure rfl
  | jss =>
    refine (agrees_combinator hbars).optional.bind fun value value' hvalue => agrees_pure ?_
    obtain rfl : value' = value := by simpa using hvalue
    rfl

include hjumps

/-- Names of elements agree. -/
theorem agrees_elementName : (elementName dialect).Agrees c id (elementName dialect) := by
  have hname : ((identifier dialect).map Excerpt.text).Agrees c id
      ((identifier dialect).map Excerpt.text) :=
    (agrees_identifier hbars hjumps).map fun _ _ hvalue => (congrArg Excerpt.text hvalue :)
  have hsign (sign : Char) (hsign : ';' ∉ [sign] ∧ '@' ∉ [sign]) :
      (symbol [sign]).Agrees c id (symbol [sign]) :=
    agrees_symbol_of_notMem hbars (List.cons_ne_nil _ _) hsign
  cases dialect with
  | css => exact agrees_firstOf (.cons hname (.cons (hsign '*' (by decide)) .nil))
  | jss =>
    exact agrees_firstOf
      (.cons hname (.cons (hsign '*' (by decide)) (.cons (hsign '&' (by decide)) .nil)))

include hc

/-- Signs with names agree. -/
theorem agrees_signedName {sign : Parser Text} (hsign : sign.Agrees c (fun _ => ()) sign) :
    (signedName sign dialect).Agrees c (fun _ => ()) (signedName sign dialect) := by
  refine Agrees.rawValue (f := fun _ => ()) (Agrees.attempt (hsign.bind fun _ _ _ => ?_))
  refine (Agrees.step (agrees_noSpacesHere (f := id) hc) 1).bind fun _ _ _ => ?_
  exact ((agrees_identifier hbars hjumps).step 2).bind fun _ _ _ => agrees_pure rfl

omit hbars hjumps in
/-- Arguments of pseudo selectors agree. -/
theorem agrees_pseudoArguments (hround : ∀ token, c.bars token → token.kind ≠ .roundBrackets) :
    pseudoArguments.Agrees c c.view.token pseudoArguments := by
  refine Agrees.attempt ((agrees_noSpacesHere (f := id) hc).bind fun _ _ _ => ?_)
  exact (agrees_anyToken hround).step 1

/-- Pseudo selectors agree. -/
theorem agrees_pseudoSelector :
    (pseudoSelector dialect).Agrees c (fun _ => ()) (pseudoSelector dialect) := by
  have hcolons : (oneOfSymbols [[':'], [':', ':']]).Agrees c id
      (oneOfSymbols [[':'], [':', ':']]) := by
    refine agrees_oneOfSymbols ?_
    simp only [List.forall_mem_cons]
    exact ⟨⟨by simp, hbars.not_subset (by decide)⟩, ⟨by simp, hbars.not_subset (by decide)⟩,
      by simp⟩
  refine Agrees.rawValue (f := fun _ => ()) (Agrees.attempt (hcolons.bind fun _ _ _ => ?_))
  refine (Agrees.step (agrees_noSpacesHere (f := id) hc) 1).bind fun _ _ _ => ?_
  refine ((agrees_identifier hbars hjumps).step 2).bind fun _ _ _ => ?_
  have harguments := agrees_pseudoArguments hc (hbars.kind_ne (by decide))
  exact (harguments.optional.step 3).bind fun _ _ _ => agrees_pure rfl

/-- Id, class, attribute and pseudo selectors agree. -/
theorem agrees_subclassSelector :
    (subclassSelector dialect).Agrees c (fun _ => ()) (subclassSelector dialect) := by
  have hsign (sign : Char) (hsign : ';' ∉ [sign] ∧ '@' ∉ [sign]) :=
    agrees_signedName hc hbars hjumps
      (agrees_symbol_of_notMem hbars (List.cons_ne_nil sign []) hsign)
  have hbrackets : squareBrackets.Agrees c c.view.token squareBrackets :=
    agrees_anyToken (hbars.kind_ne (by decide))
  exact agrees_firstOf (.cons (hsign '#' (by decide)) (.cons (hsign '.' (by decide))
    (.cons hbrackets.rawValue (.cons (agrees_pseudoSelector hc hbars hjumps) .nil))))

/-- Pieces that stand right behind what is before have the same text in both runs. -/
theorem agrees_piece :
    (do noSpacesHere; subclassSelector dialect : Parser Text).Agrees c id
      (do noSpacesHere; subclassSelector dialect) := by
  have hpiece : (do noSpacesHere; subclassSelector dialect : Parser Text).Agrees c (fun _ => ())
      (do noSpacesHere; subclassSelector dialect) :=
    (agrees_noSpacesHere (f := id) hc).bind fun _ _ _ => agrees_subclassSelector hc hbars hjumps
  have hkeeps : (do noSpacesHere; subclassSelector dialect : Parser Text).Keeps .any
      fun _ used _ text => IsSolid used ∧ text = trimmedSpelling used := by
    refine keeps_noSpacesHere_touching.bind fun _ => (keeps_subclassSelector_solid dialect).mono ?_
    rintro region used next text ⟨hsolid, rfl⟩ before ⟨rfl, hhead⟩
    have hused : ∀ token ∈ used, token.isSignificant := by
      refine hsolid.forall fun token htoken => hhead token ?_
      obtain ⟨more, rfl⟩ := List.head?_eq_some_iff.mp htoken
      rfl
    rw [List.nil_append, trimmedSpelling, dropTrivia_of_forall hused]
    exact ⟨hsolid, rfl⟩
  refine hpiece.and_keeps hkeeps hkeeps ?_
  rintro used used' next next' text text' htakes ⟨hsolid, rfl⟩ ⟨-, rfl⟩ -
  exact c.trimmedSpelling_eq htakes hsolid

/-- Compound selectors have the same pieces. -/
theorem agrees_compoundSelector :
    (compoundSelector dialect).Agrees c id (compoundSelector dialect) := by
  refine Agrees.attempt ((agrees_skipTrivia (f := id) hc).bind fun _ _ _ => ?_)
  refine (agrees_elementName hbars hjumps).optional.bind fun element element' helement => ?_
  refine ((agrees_piece hc hbars hjumps).many hc).bind fun others others' hothers => ?_
  obtain rfl : element' = element := by simpa using helement
  obtain rfl : others' = others := by simpa using hothers
  dsimp only
  split_ifs
  · exact agrees_expected _
  · exact agrees_pure rfl

omit hjumps in
/-- Joints look the same: whitespace stands as one space. -/
theorem agrees_joint : joint.Agrees c id joint :=
  agrees_firstOf (.cons (agrees_combinator hbars)
    (.cons ((agrees_trivia hc).map fun _ _ _ => rfl) .nil))

/-- Selectors have the same fragments. -/
theorem agrees_selectorFragments :
    (selectorFragments dialect).Agrees c id (selectorFragments dialect) := by
  refine (agrees_leadingCombinator hbars).bind fun leading leading' hleading => ?_
  refine (agrees_compoundSelector hc hbars hjumps).bind fun first first' hfirst => ?_
  refine ((agrees_joint hc hbars).separated (agrees_compoundSelector hc hbars hjumps)).bind
    fun others others' hothers => agrees_pure ?_
  obtain rfl : leading' = leading := hleading
  obtain rfl : first' = first := hfirst
  obtain rfl : others' = others := by simpa using hothers
  rfl

/-- Selectors look the same. -/
theorem agrees_selector :
    (selector dialect).Agrees c c.view.selector (selector dialect) := by
  have hfragments : (selectorFragments dialect).Keeps .any _ := keeps_selectorFragments dialect
  refine ((agrees_selectorFragments hc hbars hjumps).capture hfragments hfragments
    (fun _ _ _ _ hused => hused.2) fun _ _ _ _ hused => hused.2).bind
    fun captured captured' hcaptured => agrees_pure ?_
  obtain ⟨fragments, source⟩ := captured
  obtain ⟨fragments', source'⟩ := captured'
  obtain ⟨hfirst, hsource⟩ := Prod.ext_iff.mp hcaptured
  obtain rfl : fragments' = fragments := hfirst
  exact congrArg (Selector.mk dialect fragments') hsource

/-- Lists of selectors look the same. -/
theorem agrees_selectorList :
    (selectorList dialect).Agrees c (List.map c.view.selector) (selectorList dialect) :=
  (agrees_selector hc hbars hjumps).commaList (hbars.kind_ne (by decide))

end Selectors

/-! ## Media queries -/

section MediaQueries

variable (hbars : c.SparesPhrases)
  (hfeature : mediaFeature.AgreesInside c (fun _ => ()) mediaFeature)

include hbars

/-- Words agree. -/
theorem agrees_keyword {text : Text} (htext : '$' ∉ text) :
    (keyword text).Agrees c c.view.token (keyword text) :=
  agrees_tokenWhere _ (fun _ _ _ _ => rfl) (hbars.isLiteral_eq_false htext)

/-- Media agree. -/
theorem agrees_medium : medium.Agrees c (fun _ => ()) medium := by
  have hmodifier : (firstOf [keyword "only".toList, keyword "not".toList]).Agrees c c.view.token
      (firstOf [keyword "only".toList, keyword "not".toList]) :=
    agrees_firstOf (.cons (agrees_keyword hbars (by decide))
      (.cons (agrees_keyword hbars (by decide)) .nil))
  refine Agrees.rawValue (f := c.view.name) (Agrees.attempt ?_)
  exact hmodifier.optional.bind fun _ _ _ => (agrees_identifier hbars (by simp)).step 1

include hfeature

/-- Expressions agree. -/
theorem agrees_mediaExpression : mediaExpression.Agrees c (fun _ => ()) mediaExpression := by
  refine Agrees.rawValue (hfeature.block fun token htoken => ?_)
  have hkind : token.kind ≠ .roundBrackets := hbars.kind_ne (by decide) token htoken
  simpa using hkind

/-- Joined expressions agree. -/
theorem agrees_andExpression : andExpression.Agrees c (fun _ => ()) andExpression := by
  refine Agrees.rawValue (f := fun _ => ()) (Agrees.attempt ?_)
  exact (agrees_keyword hbars (by decide)).bind fun _ _ _ =>
    (agrees_mediaExpression hbars hfeature).step 1

/-- Queries agree. -/
theorem agrees_mediaQuery : mediaQuery.Agrees c (fun _ => ()) mediaQuery := by
  have hmore := agrees_andExpression hbars hfeature
  exact agrees_firstOf (.cons ((agrees_medium hbars).leftRecursive hmore)
    (.cons ((agrees_mediaExpression hbars hfeature).leftRecursive hmore) .nil))

/-- Lists of queries look the same. -/
theorem agrees_mediaQueryList : mediaQueryList.Agrees c c.view.excerpt mediaQueryList := by
  have hlist : (commaList mediaQuery).Keeps .any Promise.significant :=
    (keeps_mediaQuery.commaList fun _ _ _ _ h => h).mono fun _ _ _ _ h => h.1
  exact ((agrees_mediaQuery hbars hfeature).commaList (hbars.kind_ne (by decide))).excerpt
    hlist hlist

end MediaQueries

/-! ## Variables, paths and pages -/

/-- The words that introduce variables are the same. -/
theorem agrees_varKeyword (hbars : c.SparesPhrases) : varKeyword.Agrees c id varKeyword := by
  have hword {text : Text} (htext : '$' ∉ text) (word : VarKeyword) :
      ((keyword text).map fun _ => word).Agrees c id ((keyword text).map fun _ => word) :=
    (agrees_keyword hbars htext).map fun _ _ _ => rfl
  exact agrees_firstOf (.cons (hword (by decide) _) (.cons (hword (by decide) _)
    (.cons (hword (by decide) _) .nil)))

/-- Strings agree. -/
theorem agrees_anyString (hbars : c.SparesPhrases) :
    anyString.Agrees c c.view.token anyString := by
  refine agrees_tokenWhere _ (fun _ _ _ _ => rfl) fun token htoken => ?_
  have hquoted : token.kind ≠ .string := hbars.kind_ne (by decide) token htoken
  have htemplate : token.kind ≠ .templateString := hbars.kind_ne (by decide) token htoken
  rw [beq_false_of_ne hquoted, beq_false_of_ne htemplate]
  rfl

/-- Paths of imports are the same. -/
theorem agrees_importPath (hbars : c.SparesPhrases) : importPath.Agrees c id importPath := by
  have haddress : (attempt do
      let _ ← keyword "url".toList
      step 1 noSpacesHere
      step 2 roundBrackets : Parser Token).Agrees c c.view.token (attempt do
        let _ ← keyword "url".toList
        step 1 noSpacesHere
        step 2 roundBrackets) := by
    refine Agrees.attempt ((agrees_keyword hbars (by decide)).bind fun _ _ _ => ?_)
    refine agrees_adjacent 1 2 _ (fun _ _ _ _ => rfl) fun token htoken => ?_
    exact beq_false_of_ne (hbars.kind_ne (by decide) token htoken)
  have hsolid : (attempt do
      let _ ← keyword "url".toList
      step 1 noSpacesHere
      step 2 roundBrackets : Parser Token).Keeps .any Promise.solid := by
    refine Keeps.attempt ((keeps_tokenWhere_solid _ _).bind_tokens_solid fun _ => ?_)
    exact (keeps_noSpacesHere_touching.step 1).bind_solid fun _ =>
      (keeps_tokenWhere_solid _ _).step 2
  have hends : (attempt do
      let _ ← keyword "url".toList
      step 1 noSpacesHere
      step 2 roundBrackets : Parser Token).Keeps .any Promise.significant :=
    Keeps.attempt ((keeps_keyword _).bind_significant fun _ =>
      (keeps_noSpacesHere.step 1).bind_significant fun _ => (keeps_anyToken .roundBrackets).step 2)
  refine agrees_firstOf (.cons ((agrees_anyString hbars).map fun _ _ hvalue => ?_)
    (.cons ((haddress.excerpt_solid hsolid hends).map fun _ _ hsource => ?_) .nil))
  · exact (congrArg Token.value hvalue :)
  · exact (congrArg Prod.fst hsource :)

/-- Pseudo classes of pages have the same text and look the same. -/
theorem agrees_pagePseudo (hc : c.IsEven) (hbars : c.SparesPhrases) :
    pagePseudo.Agrees c (fun source => (source.text, c.view.excerpt source)) pagePseudo := by
  refine Agrees.excerpt_solid (f := c.view.name) (Agrees.attempt ?_) (Keeps.attempt ?_)
    (Keeps.attempt ?_)
  · refine (agrees_symbol_of_notMem (f := id) hbars (by simp) (by decide)).bind fun _ _ _ => ?_
    refine (Agrees.step (agrees_noSpacesHere (f := id) hc) 1).bind fun _ _ _ => ?_
    exact (agrees_identifier hbars (by simp)).step 2
  · refine (keeps_symbol_solid _).bind_tokens_solid fun _ => ?_
    exact (keeps_noSpacesHere_touching.step 1).bind_solid fun _ =>
      (keeps_identifier_solid .css).step 2
  · exact (keeps_symbol [':']).bind_significant fun _ =>
      (keeps_noSpacesHere.step 1).bind_significant fun _ =>
        (keeps_identifier_significant .css).step 2

end Grammar

end StyleSyntax
