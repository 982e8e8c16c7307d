import StyleSyntax.Grammar.MediaQuery
import StyleSyntax.Grammar.Selector
import StyleSyntax.Proofs.Parser.Bracketed
import StyleSyntax.Proofs.Parser.Repetition

/-!
# Contracts of identifiers, values, selectors and media queries

The parts of statements that are read without a body. An identifier, a selector and a list of media
queries are excerpts of the tokens consumed for them, behind a gap, and a value ends with a
significant token although it is found by its end.
-/

namespace StyleSyntax

/-- The pieces are some exactly when something is consumed, which then ends with a significant
token. -/
def Promise.pieces {α : Type} : Promise (List α) :=
  fun _ used _ pieces => pieces = [] ∧ used = [] ∨ EndsSignificant used

/-- The selector is one of the language, has fragments, and is the source of what is consumed. -/
def Promise.selector (dialect : Dialect) : Promise Selector :=
  fun region used next selector => selector.dialect = dialect ∧ selector.fragments ≠ [] ∧
    Promise.excerpt region used next selector.source

namespace Grammar

open StyleSyntax.Parser

variable {setting : Setting}

/-- A unit of an identifier is a literal without a dollar sign, or a symbol of dashes alone. -/
theorem unit_cases {token : Token} (h : isName token || isDashes token) :
    token.kind = .literal ∧ '$' ∉ token.value ∨ token.kind = .symbol ∧ token.value ⊆ ['-'] := by
  simp only [isName, isDashes, Bool.or_eq_true, Bool.and_eq_true, beq_iff_eq, Bool.not_eq_true',
    List.all_eq_true, List.contains_eq_mem, decide_eq_false_iff_not] at h
  exact h.imp_right fun hdashes =>
    ⟨hdashes.1, fun c hc => List.mem_singleton.mpr (hdashes.2 c hc)⟩

/-- Units of identifiers are significant. -/
theorem isSignificant_of_unit {token : Token} (h : isName token || isDashes token) :
    token.isSignificant := by
  rcases unit_cases h with ⟨hkind, -⟩ | ⟨hkind, -⟩ <;>
    exact isSignificant_of_kind (by rw [hkind]; rfl)

/-- Both tokens of an interpolation are significant. -/
theorem isSignificant_of_opensInterpolation {token next : Token}
    (h : token.opensInterpolation next) : token.isSignificant ∧ next.isSignificant := by
  simp only [Token.opensInterpolation, Bool.and_eq_true, beq_iff_eq] at h
  obtain ⟨⟨⟨hkind, _⟩, _⟩, hbraces⟩ := h
  refine ⟨isSignificant_of_kind (by rw [hkind]; rfl), isSignificant_of_kind ?_⟩
  rw [Token.isBraces] at hbraces
  cases hnext : next.kind <;> simp [hnext, TokenKind.isBraces, TokenKind.isTrivia] at hbraces ⊢

/-- A token that may stand in an identifier: a unit, and in the extended language also the tokens of
interpolations. -/
def isIdentifierToken : Dialect → Token → Bool
  | .css, token => isName token || isDashes token
  | .jss, token => isName token || isDashes token || token.kind == .literal || token.isBraces

/-- Units may stand in the identifiers of both languages. -/
theorem isIdentifierToken_of_unit (dialect : Dialect) {token : Token}
    (h : isName token || isDashes token) : isIdentifierToken dialect token := by
  cases dialect <;> simp [isIdentifierToken, h]

/-- An identifier holds no other tokens. -/
theorem isIdentifierToken_of_mem {dialect : Dialect} {token : Token} {tokens : List Token}
    (h : token ∈ tokens.take (identifierLength dialect tokens)) :
    isIdentifierToken dialect token := by
  fun_induction identifierLength dialect tokens with
  | case1 => cases h
  | case2 only hunit =>
    obtain rfl := List.mem_singleton.mp h
    exact isIdentifierToken_of_unit dialect hunit
  | case3 => cases h
  | case4 first next rest hunit ih =>
    rcases List.mem_cons.mp h with rfl | h
    · exact isIdentifierToken_of_unit dialect hunit
    · exact ih h
  | case5 first next rest _ hinterpolation ih =>
    simp only [Token.opensInterpolation, Bool.and_eq_true, beq_iff_eq] at hinterpolation
    obtain ⟨rfl, ⟨⟨hkind, -⟩, -⟩, hbraces⟩ := hinterpolation
    rw [List.take_succ_cons, List.take_succ_cons, List.mem_cons, List.mem_cons] at h
    rcases h with rfl | rfl | h
    · simp [isIdentifierToken, hkind]
    · simp [isIdentifierToken, hbraces]
    · exact ih h
  | case6 => cases h

/-- What may stand in an identifier is a unit, a literal or braces. -/
theorem isIdentifierToken_cases {dialect : Dialect} {token : Token}
    (h : isIdentifierToken dialect token) :
    (isName token || isDashes token) ∨ token.kind = .literal ∨ token.isBraces := by
  cases dialect with
  | css => exact .inl h
  | jss =>
    rw [isIdentifierToken, Bool.or_assoc, Bool.or_eq_true] at h
    exact h.imp_right fun h => by simpa using h

/-- What may stand in an identifier is no trivia. -/
theorem isSignificant_of_isIdentifierToken {dialect : Dialect} {token : Token}
    (h : isIdentifierToken dialect token) : token.isSignificant := by
  rcases isIdentifierToken_cases h with hunit | hkind | hbraces
  · exact isSignificant_of_unit hunit
  · exact isSignificant_of_kind (by rw [hkind]; rfl)
  · exact isSignificant_of_isBraces hbraces

/-- An identifier consumes its units behind a gap, and is their source. -/
theorem keeps_identifier_units (dialect : Dialect) :
    (identifier dialect).Keeps setting fun _ used _ source => ∃ gap units, used = gap ++ units ∧
      AllTrivia gap ∧ (∀ token ∈ units, isIdentifierToken dialect token) ∧ source.IsOf units := by
  constructor
  intro region rest hscope
  obtain ⟨gap, hrest, hgap⟩ := exists_gap rest
  have hall : ∀ token ∈ (dropTrivia rest).take (identifierLength dialect (dropTrivia rest)),
      isIdentifierToken dialect token := fun _ htoken => isIdentifierToken_of_mem htoken
  have hsplit :=
    List.take_append_drop (identifierLength dialect (dropTrivia rest)) (dropTrivia rest)
  unfold identifier
  dsimp only
  generalize (dropTrivia rest).take _ = units at hall hsplit ⊢
  generalize (dropTrivia rest).drop _ = next at hsplit ⊢
  split_ifs with hany
  · cases units with
    | nil => cases hany
    | cons first more =>
      have hsignificant : ∀ token ∈ first :: more, token.isSignificant :=
        fun token htoken => isSignificant_of_isIdentifierToken (hall token htoken)
      refine ⟨gap ++ first :: more, ?_, gap, first :: more, rfl, hgap, hall, ?_⟩
      · rw [List.append_assoc, hsplit]
        exact hrest
      · rw [← hsplit]
        exact ⟨⟨first, more, rfl, hsignificant first List.mem_cons_self, rfl⟩,
          endsSignificant_of_forall (List.cons_ne_nil _ _) hsignificant⟩
  · exact Setting.admits_expected hscope _

/-- An identifier is the source of what stands behind a gap. -/
theorem keeps_identifier (dialect : Dialect) :
    (identifier dialect).Keeps setting Promise.excerpt := by
  refine (keeps_identifier_units dialect).mono ?_
  rintro region used next source ⟨gap, units, rfl, hgap, -, hsource⟩
  obtain ⟨first, more, rfl, hfirst, -⟩ := hsource.1
  rwa [Promise.excerpt, dropTrivia_gap hgap hfirst]

/-- An identifier ends with a significant token. -/
theorem keeps_identifier_significant (dialect : Dialect) :
    (identifier dialect).Keeps setting Promise.significant :=
  (keeps_identifier dialect).mono fun _ _ _ _ h => Excerpt.IsOf.endsSignificant h

/-- The tokens up to the last significant one end with it. -/
theorem endsSignificant_take_significantLength {tokens : List Token}
    (h : significantLength tokens ≠ 0) :
    EndsSignificant (tokens.take (significantLength tokens)) := by
  have hlength : significantLength tokens = (tokens.rdropWhile Token.isTrivia).length := by
    rw [significantLength, List.rdropWhile, List.length_reverse]
  rw [hlength] at h ⊢
  rw [← List.prefix_iff_eq_take.mp (List.rdropWhile_prefix Token.isTrivia tokens)]
  have hne := List.ne_nil_of_length_pos (Nat.pos_of_ne_zero h)
  refine ⟨_, _, (List.dropLast_concat_getLast hne).symm, ?_⟩
  simpa [Token.isSignificant] using List.rdropWhile_last_not Token.isTrivia tokens hne

/-- The trivia behind the last significant token does not count. -/
theorem significantLength_append {used gap : List Token} (hused : EndsTrimmed used)
    (hgap : AllTrivia gap) : significantLength (used ++ gap) = used.length := by
  rw [significantLength, List.reverse_append, List.dropWhile_append_of_pos]
  · obtain rfl | ⟨front, last, rfl, hlast⟩ := hused
    · rfl
    · rw [List.reverse_append, List.reverse_singleton, List.singleton_append,
        List.dropWhile_cons_of_neg (by simp [isTrivia_eq_false_of_significant hlast])]
      simp
  · intro token htoken
    exact hgap token (List.mem_reverse.mp htoken)

/-- There are no more tokens up to the last significant one than there are tokens. -/
theorem significantLength_le (tokens : List Token) : significantLength tokens ≤ tokens.length := by
  have hle := (List.dropWhile_sublist Token.isTrivia (l := tokens.reverse)).length_le
  rw [List.length_reverse] at hle
  exact hle

/-- A value ends with a significant token. -/
theorem keeps_value (wanted : Text) (stops : Token → Bool)
    (allows : Option Token → Token → Bool) :
    (value wanted stops allows).Keeps setting Promise.significant := by
  constructor
  intro region rest hscope
  have hnext (n : Nat) : setting.scope region (rest.drop n) :=
    setting.scope_append (by rwa [List.take_append_drop])
  unfold value
  dsimp only
  generalize (valueExtent stops allows none rest).1 = length
  split_ifs with hbroken hkept
  · exact Setting.admits_expected (hnext length) _
  · exact Setting.admits_expected (hnext length) _
  · have hle : significantLength (rest.take length) ≤ length :=
      (significantLength_le _).trans (List.length_take_le _ _)
    have hends := endsSignificant_take_significantLength hkept
    rw [List.take_take, Nat.min_eq_left hle] at hends
    exact ⟨_, (List.take_append_drop _ _).symm, hends⟩

/-- A sign with a name behind it ends with a significant token. -/
theorem keeps_signedName {sign : Parser Text} (h : sign.Keeps setting Promise.significant)
    (dialect : Dialect) : (signedName sign dialect).Keeps setting Promise.significant := by
  refine Keeps.rawValue (Keeps.attempt ?_)
  refine h.bind_significant fun _ => (keeps_noSpacesHere.step 1).bind_significant fun _ =>
    ((keeps_identifier_significant dialect).step 2).bind fun _ => keeps_pure ?_
  intro region next name hname
  rwa [List.append_nil]

/-- A combinator sign ends with a significant token. -/
theorem keeps_combinator : combinator.Keeps setting Promise.significant :=
  keeps_oneOfSymbols (by decide)

/-- An element name ends with a significant token. -/
theorem keeps_elementName (dialect : Dialect) :
    (elementName dialect).Keeps setting Promise.significant := by
  have hname : ((identifier dialect).map Excerpt.text).Keeps setting Promise.significant :=
    Keeps.map (f := Excerpt.text) (keeps_identifier_significant dialect)
  have hstar : (symbol ['*']).Keeps setting Promise.significant :=
    keeps_symbol_significant (List.cons_ne_nil _ _)
  have hparent : (symbol ['&']).Keeps setting Promise.significant :=
    keeps_symbol_significant (List.cons_ne_nil _ _)
  cases dialect with
  | css => exact keeps_firstOf (by simp only [List.forall_mem_cons]; exact ⟨hname, hstar, by simp⟩)
  | jss =>
    exact keeps_firstOf
      (by simp only [List.forall_mem_cons]; exact ⟨hname, hstar, hparent, by simp⟩)

/-- The arguments of a pseudo selector end with a significant token. -/
theorem keeps_pseudoArguments : pseudoArguments.Keeps setting Promise.significant := by
  refine Keeps.attempt (keeps_noSpacesHere.bind_significant fun _ => ?_)
  exact (keeps_anyToken .roundBrackets).step 1

/-- A pseudo selector ends with a significant token, with or without arguments. -/
theorem keeps_pseudoSelector (dialect : Dialect) :
    (pseudoSelector dialect).Keeps setting Promise.significant := by
  refine Keeps.rawValue (Keeps.attempt ?_)
  refine (keeps_oneOfSymbols (by decide)).bind_significant fun _ =>
    (keeps_noSpacesHere.step 1).bind_significant fun _ =>
      ((keeps_identifier_significant dialect).step 2).bind fun _ =>
        (keeps_pseudoArguments.optional_trimmed.step 3).bind fun _ => keeps_pure ?_
  intro region next arguments harguments name hname
  rw [List.append_nil]
  exact EndsSignificant.append_right hname harguments

/-- An id, class, attribute or pseudo selector ends with a significant token. -/
theorem keeps_subclassSelector (dialect : Dialect) :
    (subclassSelector dialect).Keeps setting Promise.significant := by
  refine keeps_firstOf ?_
  simp only [List.forall_mem_cons]
  refine ⟨keeps_signedName (keeps_symbol_significant (List.cons_ne_nil _ _)) dialect,
    keeps_signedName (keeps_symbol_significant (List.cons_ne_nil _ _)) dialect,
    (keeps_anyToken .squareBrackets).rawValue, keeps_pseudoSelector dialect, by simp⟩

/-- A compound selector has pieces and ends with a significant token. -/
theorem keeps_compoundSelector (dialect : Dialect) :
    (compoundSelector dialect).Keeps setting fun region used next pieces =>
      pieces ≠ [] ∧ Promise.significant region used next pieces := by
  have hother : (do noSpacesHere; subclassSelector dialect : Parser Text).Keeps setting
      Promise.significant :=
    keeps_noSpacesHere.bind_significant fun _ => keeps_subclassSelector dialect
  have hothers : (many (do noSpacesHere; subclassSelector dialect)).Keeps setting
      Promise.pieces := by
    refine hother.many (fun _ _ => .inl ⟨rfl, rfl⟩) ?_
    intro region used between next value values hused hbetween
    exact .inr (EndsSignificant.append_right hused (hbetween.imp_left And.right))
  refine Keeps.attempt (keeps_skipTrivia.bind fun _ =>
    (keeps_elementName dialect).optional.bind fun element => hothers.bind fun others => ?_)
  dsimp only
  split_ifs with hempty
  · exact keeps_expected _
  · refine keeps_pure ?_
    intro region next after hafter name hname gap _
    rw [List.isEmpty_iff] at hempty
    rw [List.append_nil]
    refine ⟨hempty, EndsSignificant.append_left ?_ gap⟩
    cases element with
    | none =>
      rcases hafter with ⟨rfl, rfl⟩ | hafter
      · exact absurd rfl hempty
      · exact hafter.append_left name
    | some text => exact EndsSignificant.append_right hname (hafter.imp_left And.right)

/-- What joins two compound selectors fails with admitted errors alone. -/
theorem keeps_joint : joint.Keeps setting Promise.anything := by
  refine keeps_firstOf ?_
  simp only [List.forall_mem_cons]
  exact ⟨keeps_combinator.mono fun _ _ _ _ _ => trivial,
    Keeps.map (keeps_trivia.mono fun _ _ _ _ _ => trivial), by simp⟩

/-- A leading combinator fails with admitted errors alone. -/
theorem keeps_leadingCombinator (dialect : Dialect) :
    (leadingCombinator dialect).Keeps setting Promise.anything := by
  cases dialect with
  | css => exact keeps_pure fun _ _ => trivial
  | jss =>
    exact keeps_combinator.optional.bind fun _ => keeps_pure fun _ _ _ _ => trivial

/-- A whole selector has fragments and ends with a significant token. -/
theorem keeps_selectorFragments (dialect : Dialect) :
    (selectorFragments dialect).Keeps setting fun region used next fragments =>
      fragments ≠ [] ∧ Promise.significant region used next fragments := by
  have hcompound : (compoundSelector dialect).Keeps setting _ := keeps_compoundSelector dialect
  have hothers : (separated joint (compoundSelector dialect)).Keeps setting Promise.trimmed := by
    refine keeps_joint.separated hcompound (fun _ _ _ _ h => h.2.ne_nil) (fun _ _ => .inl rfl) ?_
    intro region before used between next sign value values _ hused hbetween
    exact .inr ((EndsSignificant.append_right hused.2 hbetween).append_left before)
  refine (keeps_leadingCombinator dialect).bind fun leading =>
    hcompound.bind fun first => hothers.bind fun others => keeps_pure ?_
  intro region next after hafter middle hmiddle before _
  rw [List.append_nil]
  refine ⟨?_, (EndsSignificant.append_right hmiddle.2 hafter).append_left before⟩
  simp [hmiddle.1]

/-- A selector is read with its language and its source. -/
theorem keeps_selector (dialect : Dialect) :
    (selector dialect).Keeps setting (Promise.selector dialect) := by
  refine Keeps.bind_capture _ (keeps_selectorFragments dialect) (fun _ _ _ _ h => h.2) ?_
  rintro region used next fragments source ⟨hfragments, _⟩ hsource
  exact ⟨rfl, hfragments, hsource⟩

/-- A list of selectors has each of them. -/
theorem keeps_selectorList (dialect : Dialect) :
    (selectorList dialect).Keeps setting (Promise.each (Promise.selector dialect)) :=
  (keeps_selector dialect).commaList fun _ _ _ _ h => h.2.2.endsSignificant

/-- A feature fails with admitted errors alone. -/
theorem keeps_mediaFeature : mediaFeature.Keeps setting Promise.anything := by
  have hvalue : featureValue.Keeps setting Promise.anything := by
    constructor
    intro region rest hscope
    unfold featureValue
    dsimp only
    split_ifs
    · exact ⟨rest, (List.append_nil rest).symm, trivial⟩
    · exact Setting.admits_expected (Setting.scope_nil hscope) _
  have hgiven : (attempt do
      let _ ← symbol [':']
      step 1 featureValue : Parser Unit).Keeps setting Promise.anything :=
    Keeps.attempt ((keeps_symbol [':']).bind fun _ =>
      (hvalue.step 1).mono fun _ _ _ _ _ _ _ => trivial)
  exact Keeps.attempt ((keeps_identifier .css).bind fun _ =>
    (hgiven.optional.step 1).bind fun _ => keeps_pure fun _ _ _ _ _ _ => trivial)

/-- An expression of a media query ends with a significant token. -/
theorem keeps_mediaExpression : mediaExpression.Keeps setting Promise.significant :=
  Keeps.rawValue ((keeps_mediaFeature.block _).mono fun _ _ _ _ h => h.endsSignificant)

/-- An expression that is joined to others ends with a significant token. -/
theorem keeps_andExpression : andExpression.Keeps setting Promise.significant := by
  refine Keeps.rawValue (Keeps.attempt ?_)
  exact (keeps_keyword _).bind_significant fun _ => keeps_mediaExpression.step 1

/-- A medium ends with a significant token. -/
theorem keeps_medium : medium.Keeps setting Promise.significant := by
  have hmodifier : (firstOf [keyword "only".toList, keyword "not".toList]).Keeps setting
      Promise.significant := by
    refine keeps_firstOf ?_
    simp only [List.forall_mem_cons]
    exact ⟨keeps_keyword _, keeps_keyword _, by simp⟩
  refine Keeps.rawValue (Keeps.attempt (hmodifier.optional.bind_significant fun _ => ?_))
  exact (keeps_identifier_significant .css).step 1

/-- A media query ends with a significant token. -/
theorem keeps_mediaQuery : mediaQuery.Keeps setting Promise.significant := by
  refine keeps_firstOf ?_
  simp only [List.forall_mem_cons]
  exact ⟨keeps_medium.leftRecursive keeps_andExpression,
    keeps_mediaExpression.leftRecursive keeps_andExpression, by simp⟩

/-- A list of media queries is an excerpt. -/
theorem keeps_mediaQueryList : mediaQueryList.Keeps setting Promise.excerpt :=
  Keeps.excerpt ((keeps_mediaQuery.commaList fun _ _ _ _ h => h).mono fun _ _ _ _ h => h.1)

end Grammar

end StyleSyntax
