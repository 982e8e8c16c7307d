import StyleSyntax.Proofs.Grammar.Extension
import StyleSyntax.Proofs.RuleSet.Declarations

/-!
# Declarations and rules among their alternatives

In the extended language a body may hold statements of seven sorts, and they are tried in order. A
declaration and a rule of the model are found by none of the sorts before their own: their first
token is no semicolon, no sign of an at-rule and no keyword, one dot makes no spread, and what looks
like a declaration in a rule, as in `a:hover`, breaks off at the braces.
-/

namespace StyleSyntax

/-- Tokens of a text under the default settings. -/
theorem Lexes.isLexed {text : Text} {tokens : List Token} (h : Lexes text tokens) :
    IsLexed {} tokens := by
  have hpieces := h.splitSymbolRuns_eq
  obtain ⟨position, htokens⟩ := h
  have hinfix : tokens <:+: splitSymbolRuns tokens := hpieces.symm ▸ List.infix_rfl
  exact ⟨text, position, tokens, htokens, hinfix⟩

namespace Grammar

open StyleSyntax.Parser

variable {region : Region} {rest back : List Token} {stop token : Token}

/-- A token of a selector and braces are no sign that stands in no selector. -/
theorem isSymbol_of_isSelectorToken {c : Char} (hc : c ∉ selectorSigns)
    (h : isSelectorToken token ∨ token.isBraces) : token.isSymbol [c] = false := by
  obtain ⟨kind, value, position⟩ := token
  cases kind with
  | symbol =>
    rcases h with h | h
    · have hne : value ≠ [c] := by
        rintro rfl
        simp [isSelectorToken, isName, Token.isTrivia, TokenKind.isTrivia, hc] at h
      simp [Token.isSymbol, hne]
    · cases h
  | _ => rfl

/-- Selectors that lead up to braces break a value there. -/
theorem valueExtent_of_leadsTo (hstop : stop.isBraces) (hrest : LeadsTo (stop :: back) rest)
    (previous : Option Token)
    (hprevious : ∀ before ∈ previous, before.kind = .literal → isName before) :
    (valueExtent (·.isSymbol ['!']) (valueAllows .jss) previous rest).2 = true := by
  obtain ⟨front, rfl, hfront⟩ := hrest
  have hends {token : Token} (h : isSelectorToken token ∨ token.isBraces) :
      (token.isSemicolon || token.isSymbol ['!']) = false := by
    rw [(isSemicolon_and_isAt_of_isSelectorToken h).1, isSymbol_of_isSelectorToken (by decide) h]
    rfl
  induction front generalizing previous with
  | nil =>
    have hallows : valueAllows .jss previous stop = false := by
      cases previous with
      | none => simp [valueAllows, hstop]
      | some before =>
        have hdollar : before.kind = .literal → before.value.getLast? ≠ some '$' := by
          intro hkind hlast
          have hname := hprevious before rfl hkind
          simp [isName, List.mem_of_getLast? hlast] at hname
        simpa [valueAllows, hstop] using hdollar
    rw [List.nil_append, valueExtent, hends (.inr hstop), hallows]
    rfl
  | cons token front ih =>
    rw [List.forall_mem_cons] at hfront
    have hallows : valueAllows .jss previous token = true := by
      rw [valueAllows, isBraces_of_isSelectorToken hfront.1]
      rfl
    rw [List.cons_append, valueExtent, hends (.inl hfront.1), hallows]
    refine ih _ ?_ hfront.2
    rintro before hbefore hkind
    obtain rfl := Option.mem_some.mp hbefore
    exact isName_of_isSelectorToken hfront.1 hkind

/-- Where selectors lead up to braces there is no value. -/
theorem declarationValue_refuses_of_leadsTo (hstop : stop.isBraces)
    (hrest : LeadsTo (stop :: back) rest) (region : Region) :
    (declarationValue .jss).Refuses region rest := by
  have hbroken := valueExtent_of_leadsTo hstop hrest none (by simp)
  unfold Refuses declarationValue value
  dsimp only
  rw [if_pos hbroken]
  exact ⟨_, _, rfl, isBlock_expected region _ _⟩

/-- Where selectors lead up to braces there is no declaration, for braces would stand in its
value. -/
theorem declaration_refuses_of_leadsTo (hstop : stop.isBraces)
    (hrest : LeadsTo (stop :: back) rest) : (declaration .jss).Refuses region rest := by
  refine Refuses.bind (Refuses.capture (Refuses.attempt ?_)) _
  have hname : (identifier .jss).Recasts (.upTo stop back hstop)
      (Recasting.upTo stop back hstop).excerpt (identifier .jss) := recasts_identifier_upTo .jss
  have hsign : (symbol [':']).Recasts (.upTo stop back hstop) id (symbol [':']) :=
    recasts_symbol [':']
  rcases identifier_run_cases .jss region rest with ⟨property, middle, hproperty⟩ | hproperty
  · have hmiddle := (run_eq_of_recasts hname rfl hrest region).2
    rw [hproperty] at hmiddle
    refine Refuses.bind_of_run hproperty ?_
    rcases symbol_run_cases region middle [':'] with ⟨next, hcolon⟩ | hrefuses
    · have hnext := (run_eq_of_recasts hsign rfl hmiddle region).2
      rw [hcolon] at hnext
      refine Refuses.bind_of_run (step_run_eq_ok.mpr hcolon) (Refuses.bind (Refuses.step ?_ 2) _)
      exact (declarationValue_refuses_of_leadsTo hstop hnext region).capture.map _
    · exact (hrefuses.step 1).bind _
  · exact Refuses.bind ⟨_, _, hproperty, isBlock_expected region _ rest⟩ _

end Grammar

namespace RuleSet

open StyleSyntax.Parser StyleSyntax.Grammar

variable {text next body : Text} {tokens : List Token} {dialect : Dialect} {bodies : Bodies}

/-- The first token of a name is a unit of identifiers, and a keyword when the name begins with
one. -/
theorem Name.exists_first (name : Name) (hnext : EndsName next)
    (h : Lexes (name.text ++ next) tokens) :
    ∃ unit more, tokens = unit :: more ∧ isUnit unit ∧
      isScriptKeyword unit = startsWithKeyword name.text := by
  obtain ⟨units, later, rfl, _, hspelling, hunits, hliteral⟩ := name.exists_units hnext h
  cases units with
  | nil => simp at hliteral
  | cons unit units =>
    have hunit := hunits unit List.mem_cons_self
    have hlexed : IsLexed {} (unit :: units) :=
      h.isLexed.of_isInfix (List.prefix_append _ later).isInfix
    refine ⟨unit, units ++ later, rfl, hunit, ?_⟩
    rw [← hlexed.startsWithKeyword_of_unit hunit, hspelling]

/-- The first token of a compound is a keyword when its element begins with one. -/
theorem Compound.exists_first (compound : Compound) (hnext : EndsName next)
    (h : Lexes (compound.text ++ next) tokens) :
    ∃ token more, tokens = token :: more ∧ token.isSignificant ∧
      isScriptKeyword token =
        compound.element.any fun element => startsWithKeyword element.text := by
  rcases compound.text_cases next with ⟨element, helement, htext⟩ | ⟨piece, rest, helement, htext⟩
  · rw [htext] at h
    obtain ⟨unit, more, rfl, hunit, hkeyword⟩ :=
      element.toName.exists_first (endsName_pieces compound.pieces hnext) h
    rw [helement]
    exact ⟨unit, more, rfl, isSignificant_of_unit hunit, hkeyword⟩
  · have hsign : IsLexeme .symbol [piece.sign.char] (piece.name.text ++ rest) := by
      cases piece.sign <;> exact .sign (by decide) (by decide) _
    rw [htext] at h
    obtain ⟨position, more, rfl, _⟩ := hsign.exists_of_lexes h
    rw [helement]
    exact ⟨_, more, rfl, rfl, rfl⟩

/-- The statements that are tried before a declaration, apart from a lone semicolon, decline it. -/
theorem Declaration.declines (declaration : Declaration) {test : Token → Bool}
    (htest : ∀ unit, isUnit unit → isScriptKeyword unit = false → test unit = false)
    (p : Parser Node) : (probe test p).DeclinesText (declaration.text ++ next) := by
  intro region tokens _ htokens
  have htext : declaration.text ++ next = declaration.property.text ++
      (declaration.beforeColon.text ++
        ':' :: (declaration.afterColon.text ++ (declaration.value ++ next))) := by
    simp [Declaration.text]
  rw [htext] at htokens
  obtain ⟨unit, more, rfl, hunit, hkeyword⟩ :=
    declaration.property.toName.exists_first (declaration.beforeColon.endsName_colon _) htokens
  rw [declaration.property.notKeyword] at hkeyword
  exact declines_probe (dropTrivia_cons (isSignificant_of_unit hunit) more)
    (htest unit hunit hkeyword) p

/-- A declaration is read as a statement of a body. -/
theorem reads_bodyStatement_declaration {ending : Text} {declaration : Declaration}
    (h : declaration.IsReadable dialect) (hends : EndsStatement ending next) (bodies : Bodies) :
    (firstOf (ruleStatements bodies dialect)).Reads (declaration.text ++ ending) next
      fun node => node.outline? = some declaration.outline := by
  have hread : (Grammar.declaration dialect).Reads _ next _ := reads_declaration h hends
  have hearly {test : Token → Bool} (p : Parser Node)
      (htest : ∀ unit, isUnit unit → isScriptKeyword unit = false → test unit = false) :
      (probe test p).DeclinesText (declaration.text ++ ending ++ next) := by
    rw [List.append_assoc]
    exact declaration.declines htest p
  have hsigns (unit : Token) (hunit : isUnit unit) : unit.isSemicolon = false ∧ unit.isAt = false :=
    isSemicolon_and_isAt_of_isSelectorToken (.inl (isSelectorToken_of_isUnit unit hunit))
  have hsemicolon := hearly straySemicolon fun unit hunit _ => (hsigns unit hunit).1
  cases dialect with
  | css =>
    exact Reads.firstOf_of_declines hsemicolon (hread.firstOf (fun _ => rfl) [])
  | jss =>
    have hvariable (unit : Token) (_ : isUnit unit) (hkeyword : isScriptKeyword unit = false) :
        isVariableStart unit = false := by
      by_contra hstart
      rw [Bool.not_eq_false] at hstart
      rw [isScriptKeyword_of_isVariableStart hstart] at hkeyword
      cases hkeyword
    refine Reads.firstOf_of_declines hsemicolon <|
      Reads.firstOf_of_declines (hearly _ fun unit hunit _ => (hsigns unit hunit).2) <|
      Reads.firstOf_of_declines (hearly _ hvariable) <|
      Reads.firstOf_of_declines (hearly _ fun _ hunit _ => isSpreadStart_of_isUnit hunit) <|
      Reads.firstOf_of_declines (hearly _ fun _ _ hkeyword => hkeyword) ?_
    exact hread.firstOf (fun _ => rfl) _

/-- The tokens of selectors lead up to the body behind them. -/
theorem RuleParts.exists_leadsTo (parts : RuleParts) (hnext : OpensBody next)
    (h : Lexes (parts.selectorsText ++ next) tokens) :
    ∃ stop back, stop.isBraces ∧ LeadsTo (stop :: back) tokens := by
  have hread := reads_selectorList parts hnext .css
  obtain ⟨selectors, _, later, _, hlater, hrun, _⟩ := @hread ⟨{}, .start⟩ tokens rfl h
  obtain ⟨used, rfl, hused⟩ := keeps_selectorList_tokens.exists_used hrun
  obtain ⟨gap, rest, hgap, rfl⟩ := hnext
  obtain ⟨front, stop, back, rfl, hfront, _, _, hfirst⟩ :=
    (Gap.isGapText hgap).exists_significant (.cons (by decide) rest) hlater
  have hstop : stop.isBraces := by
    have hkinds : ∀ kind : TokenKind, kind.begins '\x7b' → kind.isBraces := by
      intro kind
      cases kind <;> decide
    exact hkinds _ (hfirst _ rfl).2
  refine ⟨stop, back, hstop, used ++ front, by rw [List.append_assoc], ?_⟩
  exact List.forall_mem_append.mpr
    ⟨hused, fun token htoken => isSelectorToken_of_isTrivia token (hfront token htoken)⟩

/-- The selectors of a rule begin with the first compound, behind which its name ends. -/
theorem RuleParts.exists_selectorsText (parts : RuleParts) (hnext : OpensBody next) :
    ∃ rest, parts.selectorsText ++ next = parts.first.first.text ++ rest ∧ EndsName rest := by
  have hends := endsSelector_furtherText parts.others hnext
  refine ⟨joinedText parts.first.others ++ (furtherText parts.others ++ next), ?_,
    (endsCompound_joinedText parts.first.others hends .css).endsName⟩
  simp [selectorsText, Complex.text, joinedText, furtherText]

/-- The selectors of a rule begin with a name or with the sign of a piece. -/
theorem RuleParts.beginsWith (parts : RuleParts) :
    BeginsWith (isCompoundStart ·) parts.selectorsText :=
  ((parts.first.first.beginsWith).append _).append _

/-- One dot makes no spread. -/
theorem spread_refuses (compound : Compound) (next : Text) :
    spread.RefusesText (compound.text ++ next) := by
  have hdots : (symbol ['.', '.', '.']).RefusesText (compound.text ++ next) := by
    have hname (name : Name) (rest : Text) :
        BeginsWith (fun c => isSolid c ∧ '.' ≠ c) (name.text ++ rest) := by
      refine (name.beginsWith.mono fun c hc => ⟨isSolid_of_isNameChar hc, ?_⟩).append rest
      rintro rfl
      cases hc
    rcases compound.text_cases next with ⟨element, _, htext⟩ | ⟨piece, rest, _, htext⟩
    · rw [htext]
      exact symbol_refuses .nil (hname element.toName _) _
    · rw [htext]
      cases piece.sign with
      | dot => exact symbol_refuses_second (by decide) (by decide) (hname piece.name _) _
      | hash => exact symbol_refuses .nil (.cons (by decide) _) _
      | colon => exact symbol_refuses .nil (.cons (by decide) _) _
  exact ((hdots.bind _).attempt.capture).bind _

/-- The statements that are tried before a rule in the extended language decline it, unless its
first element begins with a keyword. -/
theorem RuleParts.declines (parts : RuleParts) (hnext : OpensBody next)
    (hkeyword : parts.beginsWithKeyword = false) (bodies : Bodies) :
    ∀ p ∈ earlyStatements bodies ++
      [probe isSpreadStart spread, probe isScriptKeyword script, declaration .jss],
      p.DeclinesText (parts.selectorsText ++ next) := by
  intro p hp region tokens hregion htokens
  obtain ⟨stop, back, hstop, hleads⟩ := parts.exists_leadsTo hnext htokens
  rcases List.mem_append.mp hp with hearly | hlate
  · exact earlyStatements_decline hstop hleads p hearly
  · obtain ⟨rest, htext, hends⟩ := parts.exists_selectorsText hnext
    rw [htext] at htokens
    simp only [List.mem_cons, List.not_mem_nil, or_false] at hlate
    rcases hlate with rfl | rfl | rfl
    · exact fun _ => spread_refuses _ _ hregion htokens
    · obtain ⟨token, more, rfl, hsignificant, hfirst⟩ :=
        parts.first.first.exists_first hends htokens
      rw [← RuleParts.beginsWithKeyword, hkeyword] at hfirst
      exact declines_probe (dropTrivia_cons hsignificant more) hfirst script
    · exact fun _ => declaration_refuses_of_leadsTo hstop hleads

/-- A rule is read with its selectors and the items of its body. -/
theorem reads_ruleBlock {outlines : List Outline} (parts : RuleParts)
    (hgap : parts.openGap.IsClear) (hbody : IsRegular body)
    (hitems : (bodies.blockItems dialect).Reads body [] fun nodes =>
      Node.outlines nodes = outlines) (next : Text) :
    (ruleBlock bodies dialect).Reads
      (parts.selectorsText ++ (parts.openGap.text ++ ('\x7b' :: body ++ ['\x7d']))) next
      fun node => node.outline? = some (.rule parts.selectors outlines) := by
  have hopens : OpensBody (parts.openGap.text ++ ('\x7b' :: body ++ ['\x7d']) ++ next) :=
    ⟨parts.openGap, body ++ ['\x7d'] ++ next, hgap, by simp⟩
  have hblock := Reads.block (Gap.isGapText hgap) hbody hitems next
  have hparts : (do
      let selectors ← selectorList dialect
      let items ← step 1 (block braces (bodies.blockItems dialect))
      return (selectors, items) : Parser (List Selector × List Node)).Reads
        (parts.selectorsText ++ (parts.openGap.text ++ ('\x7b' :: body ++ ['\x7d']))) next
        fun found => (found.1.map fun selector => selector.source.text) = parts.selectors ∧
          Node.outlines found.2 = outlines :=
    (reads_selectorList parts hopens dialect).bind fun _ hselectors =>
      (hblock.step 1).bind_pure fun _ houtlines => ⟨hselectors, houtlines⟩
  have hsolid : BeginsWith (isSolid ·)
      (parts.selectorsText ++ (parts.openGap.text ++ ('\x7b' :: body ++ ['\x7d']))) :=
    (parts.beginsWith.mono fun _ hc => (isSolid_of_isCompoundStart hc).1).append _
  refine ((hparts.attempt).capture .nil hsolid).bind_pure ?_
  rintro ⟨⟨selectors, items⟩, source⟩ ⟨⟨hselectors, houtlines⟩, -⟩
  rw [Node.outline?, hselectors, houtlines]

end RuleSet

end StyleSyntax
