import StyleSyntax.Proofs.Grammar.Keywords
import StyleSyntax.Proofs.Grammar.PlainSelectors
import StyleSyntax.Proofs.Parser.Success
import StyleSyntax.Proofs.Tree.Extension

/-!
# Selectors of both languages

On tokens of selectors that lead up to braces the grammars of compound selectors differ in nothing,
so the one of the plain language is recast to that of the extended language. The extended language
may besides begin a selector with a combinator, but no compound selector of the plain language
begins there. So a list of plain selectors is read alike in both languages when braces stand behind
it; without them the extended language might go on after the last comma.
-/

namespace StyleSyntax

namespace Grammar

open StyleSyntax.Parser

/-- Tokens of selectors lead up to the tokens of the tail. -/
def LeadsTo (tail rest : List Token) : Prop :=
  ∃ front, rest = front ++ tail ∧ ∀ token ∈ front, isSelectorToken token

variable {stop : Token} {back rest next : List Token} {region : Region}

/-- What leads up to braces still does so behind a token that is no braces. -/
theorem LeadsTo.tail {token : Token} (h : LeadsTo (stop :: back) (token :: rest))
    (hstop : stop.isBraces) (htoken : token.isBraces = false) : LeadsTo (stop :: back) rest := by
  obtain ⟨front, hrest, hfront⟩ := h
  cases front with
  | nil =>
    obtain ⟨rfl, _⟩ := List.cons.inj hrest
    rw [hstop] at htoken
    cases htoken
  | cons first front =>
    obtain ⟨_, rfl⟩ := List.cons.inj hrest
    exact ⟨front, rfl, (List.forall_mem_cons.mp hfront).2⟩

/-- What leads up to a significant token does so behind the gap. -/
theorem leadsTo_dropTrivia (h : LeadsTo (stop :: back) rest)
    (hstop : stop.isSignificant) : LeadsTo (stop :: back) (dropTrivia rest) := by
  obtain ⟨front, rfl, hfront⟩ := h
  rw [dropTrivia_append_cons front hstop]
  exact ⟨_, rfl, fun token htoken => hfront token ((List.dropWhile_sublist _).subset htoken)⟩

/-- What leads up to a token that a matcher does not match still does so behind what it matches. -/
theorem LeadsTo.of_tokenWhere {token : Token} {wanted : Text}
    {test : Token → Bool} (hrest : LeadsTo (stop :: back) rest) (hstop : stop.isSignificant)
    (htest : test stop = false) (h : (tokenWhere wanted test).run region rest = ⟨.ok token, next⟩) :
    LeadsTo (stop :: back) next := by
  obtain ⟨front, rfl, hfront⟩ := hrest
  obtain ⟨hdropped, hpasses⟩ := tokenWhere_run_eq_ok.mp h
  rw [dropTrivia_append_cons front hstop] at hdropped
  cases hgap : dropTrivia front with
  | nil =>
    rw [hgap] at hdropped
    obtain ⟨rfl, -⟩ := List.cons.inj hdropped
    rw [htest] at hpasses
    cases hpasses
  | cons first more =>
    rw [hgap] at hdropped
    obtain ⟨-, rfl⟩ := List.cons.inj hdropped
    refine ⟨more, rfl, fun found hfound => hfront found ?_⟩
    exact (List.dropWhile_sublist _).subset (hgap ▸ List.mem_cons_of_mem first hfound)

/-- Up to braces an identifier is as long in both languages, and it ends before the braces. -/
theorem identifierLength_of_leadsTo (hstop : stop.isBraces) (h : LeadsTo (stop :: back) rest)
    (dialect : Dialect) :
    identifierLength dialect rest = identifierLength .css rest ∧
      LeadsTo (stop :: back) (rest.drop (identifierLength .css rest)) := by
  obtain ⟨front, rfl, hfront⟩ := h
  induction front with
  | nil =>
    have hunit : isUnit stop = false := by
      obtain ⟨kind, value, position⟩ := stop
      cases kind <;> first | rfl | cases hstop
    have hliteral : stop.kind ≠ .literal := kind_ne_of_isBraces hstop rfl
    rw [List.nil_append, identifierLength_cons_eq_zero dialect hunit hliteral,
      identifierLength_cons_eq_zero .css hunit hliteral]
    exact ⟨rfl, [], rfl, hfront⟩
  | cons token front ih =>
    rw [List.forall_mem_cons] at hfront
    rw [List.cons_append]
    cases hunit : isUnit token with
    | true =>
      obtain ⟨hlength, hdrop⟩ := ih hfront.2
      rw [identifierLength_cons_of_isUnit dialect hunit, identifierLength_cons_of_isUnit .css hunit,
        hlength, List.drop_succ_cons]
      exact ⟨rfl, hdrop⟩
    | false =>
      have hliteral : token.kind ≠ .literal := by
        intro hkind
        rw [isUnit, isName_of_isSelectorToken hfront.1 hkind] at hunit
        cases hunit
      rw [identifierLength_cons_eq_zero dialect hunit hliteral,
        identifierLength_cons_eq_zero .css hunit hliteral]
      exact ⟨rfl, token :: front, rfl, List.forall_mem_cons.mpr hfront⟩

/-- No symbols are spelled where braces stand. -/
theorem afterSymbols_of_isBraces (hstop : stop.isBraces) (c : Char) (more : Text) :
    afterSymbols (c :: more) (stop :: back) = none := by
  have hkind : (stop.kind == .symbol) = false :=
    beq_eq_false_iff_ne.mpr (kind_ne_of_isBraces hstop rfl)
  rw [afterSymbols_cons (List.cons_ne_nil _ _), hkind]
  rfl

/-- A sign that no selector holds is not spelled before the tail if it is not spelled there. -/
theorem afterSymbols_of_leadsTo {tail : List Token} {c : Char} {more : Text}
    (htail : afterSymbols (c :: more) tail = none) (hc : c ∉ selectorSigns)
    (h : LeadsTo tail rest) : afterSymbols (c :: more) rest = none := by
  obtain ⟨front, rfl, hfront⟩ := h
  induction front with
  | nil => exact htail
  | cons token front ih =>
    rw [List.forall_mem_cons] at hfront
    rw [List.cons_append, afterSymbols_cons (List.cons_ne_nil _ _)]
    split_ifs with hsign
    · rw [Bool.and_eq_true, beq_iff_eq] at hsign
      cases hvalue : token.value with
      | nil => exact ih hfront.2
      | cons d value =>
        -- The first sign of the token would be the sign that no selector holds.
        have hd : d ∈ selectorSigns := by
          have hsigns := hfront.1
          simp [isSelectorToken, isName, hsign.1, Token.isTrivia, TokenKind.isTrivia, hvalue]
            at hsigns
          exact hsigns.1
        obtain ⟨later, hlater⟩ := List.isPrefixOf_iff_prefix.mp hsign.2
        rw [hvalue, List.cons_append] at hlater
        rw [(List.cons.inj hlater).1] at hd
        exact absurd hd hc
    · rfl

end Grammar

open Grammar in
/-- Tokens of selectors up to braces are seen as themselves. -/
def Recasting.upTo (stop : Token) (back : List Token) (hstop : stop.isBraces) : Recasting where
  kind := id
  position := id
  config := id
  scope _ rest := LeadsTo (stop :: back) rest
  kind_eq := @TokenKind.id_eq
  isBraces_kind := TokenKind.isBraces_id
  scope_tail hscope htoken := hscope.tail hstop htoken

namespace Grammar

open StyleSyntax.Parser

variable {α : Type} {stop : Token} {hstop : stop.isBraces} {back rest next : List Token}
  {region : Region} {config : LexerConfig}

/-- Tokens that are seen as themselves stay as they are. -/
theorem map_token_upTo (tokens : List Token) :
    tokens.map (Recasting.upTo stop back hstop).token = tokens :=
  List.map_id tokens

/-- Errors that are seen as themselves stay as they are. -/
theorem error_upTo (error : ParseError) : (Recasting.upTo stop back hstop).error error = error :=
  Recasting.error_eq_self (fun _ => rfl) error

/-- A reply whose tokens and errors are seen as themselves stays as it is. -/
theorem recast_upTo (reply : Reply α) : reply.recast (.upTo stop back hstop) id = reply := by
  obtain ⟨outcome, left⟩ := reply
  rw [Reply.recast, map_token_upTo]
  cases outcome with
  | ok value => rfl
  | failed error => exact congrArg (fun error => Reply.mk (.failed error) left) (error_upTo error)
  | endless => rfl

/-- A parser that is recast to another one up to braces gives the same replies there. -/
theorem run_eq_of_recasts {p q : Parser α} {f : α → α}
    (h : p.Recasts (.upTo stop back hstop) f q) (hf : f = id) (hrest : LeadsTo (stop :: back) rest)
    (region : Region) :
    q.run region rest = p.run region rest ∧
      LeadsTo (stop :: back) (p.run region rest).rest := by
  subst hf
  obtain ⟨heq, hscope⟩ := h.reply region rest hrest
  rw [map_token_upTo, recast_upTo] at heq
  exact ⟨heq, hscope⟩

/-- An identifier of either language is one of the extended language. -/
theorem recasts_identifier_upTo (dialect : Dialect) :
    (identifier dialect).Recasts (.upTo stop back hstop)
      (Recasting.upTo stop back hstop).excerpt (identifier .jss) := by
  refine ⟨fun region rest hscope => ?_, fun _ => rfl⟩
  have hdropped := Recasting.scope_dropTrivia hscope
  obtain ⟨hlength, hdrop⟩ := identifierLength_of_leadsTo hstop hdropped dialect
  have hjss := (identifierLength_of_leadsTo hstop hdropped .jss).1
  unfold identifier
  dsimp only
  rw [map_token_upTo, hlength, hjss]
  split_ifs
  · exact ⟨congrArg (Reply.mk _) (map_token_upTo _).symm, hdrop⟩
  · exact ⟨congrArg₂ (fun error => Reply.mk (.failed error)) (error_upTo _).symm
      (map_token_upTo _).symm, hscope⟩

/-- An identifier is found, or it is what is expected. -/
theorem identifier_run_cases (dialect : Dialect) (region : Region) (rest : List Token) :
    (∃ name next, (identifier dialect).run region rest = ⟨.ok name, next⟩) ∨
      (identifier dialect).run region rest =
        ⟨.failed (region.expected "identifier".toList rest), rest⟩ := by
  unfold identifier
  dsimp only
  split_ifs
  · exact .inl ⟨_, _, rfl⟩
  · exact .inr rfl

/-- That something is needed is no failure of a later step. -/
theorem isPartial_expected (region : Region) (wanted : Text) (rest : List Token) :
    (region.expected wanted rest).isPartial = false := by
  unfold Region.expected
  cases firstSignificant rest <;> rfl

/-- An element name of either language is one of the extended language, since the sign for the
enclosing rule is no sign of plain selectors. -/
theorem recasts_elementName_upTo (dialect : Dialect) :
    (elementName dialect).Recasts (.upTo stop back hstop) id (elementName .jss) := by
  have hname : ((identifier dialect).map Excerpt.text).Recasts (.upTo stop back hstop) id
      ((identifier .jss).map Excerpt.text) :=
    (recasts_identifier_upTo dialect).map fun _ => rfl
  cases dialect with
  | jss =>
    exact recasts_firstOf (.cons hname (.cons (recasts_symbol _) (.cons (recasts_symbol _) .nil)))
  | css =>
    have hplain := recasts_firstOf (.cons hname (.cons (recasts_symbol ['*']) .nil))
    refine ⟨fun region rest hscope => ?_, fun _ => rfl⟩
    obtain ⟨heq, hstays⟩ := hplain.reply region rest hscope
    refine ⟨Eq.trans ?_ heq, hstays⟩
    rw [map_token_upTo]
    -- The alternative for the enclosing rule fails after the one for the name, so nothing is added.
    have hparent : afterSymbols ['&'] (dropTrivia rest) = none :=
      afterSymbols_of_leadsTo (afterSymbols_of_isBraces hstop _ _) (by simp [selectorSigns])
        (Recasting.scope_dropTrivia hscope)
    change (elementName .jss).run region rest = (firstOf _).run region rest
    rcases identifier_run_cases .jss region rest with ⟨name, next, hrun⟩ | hrun
    · simp [elementName, firstOf, runFirst, hrun, Reply.map, Outcome.map, Parser.map]
    · cases hstar : afterSymbols ['*'] (dropTrivia rest) with
      | some next =>
        simp [elementName, firstOf, runFirst, hrun, Reply.map, Outcome.map, Parser.map, symbol,
          hstar, isBlock_expected]
      | none =>
        simp [elementName, firstOf, runFirst, hrun, Reply.map, Outcome.map, Parser.map, symbol,
          hstar, hparent, isBlock_expected, isPartial_expected, Failures.record, Failures.report]

/-- A compound selector of either language is one of the extended language. -/
theorem recasts_compoundSelector_upTo (dialect : Dialect) :
    (compoundSelector dialect).Recasts (.upTo stop back hstop) id (compoundSelector .jss) :=
  recasts_compoundSelector (recasts_identifier_upTo dialect) (recasts_elementName_upTo dialect)

/-- No symbols are spelled where another sign stands. -/
theorem afterSymbols_of_ne {sign : Token} {c d : Char} (hvalue : sign.value = [c]) (h : c ≠ d)
    (more : Text) (following : List Token) :
    afterSymbols (d :: more) (sign :: following) = none := by
  rw [afterSymbols_cons (List.cons_ne_nil _ _), hvalue]
  simp [Text.startsWith, h]

section Signs

variable {sign : Token} {following : List Token} {c : Char}

/-- Where a sign stands that is no dash there is no identifier. -/
theorem identifier_run_ne_ok (hkind : sign.kind = .symbol) (hvalue : sign.value = [c])
    (hc : c ≠ '-') (name : Excerpt) (next : List Token) :
    (identifier .css).run region (sign :: following) ≠ ⟨.ok name, next⟩ := by
  have hsignificant : sign.isSignificant := isSignificant_of_kind (by rw [hkind]; rfl)
  have hunit : isUnit sign = false := by simp [isUnit, isName, isDashes, hkind, hvalue, hc]
  unfold identifier
  dsimp only
  rw [dropTrivia_cons hsignificant,
    identifierLength_cons_eq_zero .css hunit (by rw [hkind]; simp)]
  simp

/-- Where a sign stands no name begins behind another sign. -/
theorem signedName_run_ne_ok {d : Char} (hsignificant : sign.isSignificant)
    (hvalue : sign.value = [c]) (hd : c ≠ d) (piece : Text) (next : List Token) :
    (signedName (symbol [d]) .css).run region (sign :: following) ≠ ⟨.ok piece, next⟩ := by
  intro h
  obtain ⟨_, h, -⟩ := rawValue_run_eq_ok.mp h
  obtain ⟨_, _, hsymbol, -⟩ := bind_run_eq_ok.mp (attempt_run_eq_ok.mp h)
  have hafter := (symbol_run_eq_ok.mp hsymbol).2
  rw [dropTrivia_cons hsignificant, afterSymbols_of_ne hvalue hd] at hafter
  cases hafter

/-- Where a sign stands that is no colon no pseudo selector begins. -/
theorem pseudoSelector_run_ne_ok (hsignificant : sign.isSignificant) (hvalue : sign.value = [c])
    (hcolon : c ≠ ':') (piece : Text) (next : List Token) :
    (pseudoSelector .css).run region (sign :: following) ≠ ⟨.ok piece, next⟩ := by
  intro h
  obtain ⟨_, h, -⟩ := rawValue_run_eq_ok.mp h
  obtain ⟨_, _, hsymbol, -⟩ := bind_run_eq_ok.mp (attempt_run_eq_ok.mp h)
  rcases oneOfSymbols_run_cases region (sign :: following) [[':'], [':', ':']] with
    ⟨text, htext, _, hafter, -⟩ | ⟨_, _, hfailed, -⟩
  · have hcolons : afterSymbols text (sign :: following) = none := by
      simp only [List.mem_cons, List.not_mem_nil, or_false] at htext
      rcases htext with rfl | rfl
      · exact afterSymbols_of_ne hvalue hcolon _ _
      · exact afterSymbols_of_ne hvalue hcolon _ _
    rw [dropTrivia_cons hsignificant, hcolons] at hafter
    cases hafter
  · rw [hfailed] at hsymbol
    cases hsymbol

/-- Where a combinator stands no part of a compound selector begins. -/
theorem subclassSelector_run_ne_ok (hkind : sign.kind = .symbol) (hvalue : sign.value = [c])
    (hc : c ∉ ['#', '.', ':']) (piece : Text) (next : List Token) :
    (subclassSelector .css).run region (sign :: following) ≠ ⟨.ok piece, next⟩ := by
  have hsignificant : sign.isSignificant := isSignificant_of_kind (by rw [hkind]; rfl)
  simp only [List.mem_cons, List.not_mem_nil, or_false, not_or] at hc
  obtain ⟨hhash, hdot, hcolon⟩ := hc
  intro h
  obtain ⟨p, hmem, hrun⟩ := exists_mem_of_firstOf_run h
  simp only [List.mem_cons, List.not_mem_nil, or_false] at hmem
  rcases hmem with rfl | rfl | rfl | rfl
  · exact signedName_run_ne_ok hsignificant hvalue hhash piece next hrun
  · exact signedName_run_ne_ok hsignificant hvalue hdot piece next hrun
  · obtain ⟨_, h, -⟩ := rawValue_run_eq_ok.mp hrun
    obtain ⟨htoken, htest⟩ := tokenWhere_run_eq_ok.mp h
    rw [dropTrivia_cons hsignificant] at htoken
    obtain ⟨rfl, rfl⟩ := List.cons.inj htoken
    rw [hkind] at htest
    cases htest
  · exact pseudoSelector_run_ne_ok hsignificant hvalue hcolon piece next hrun

/-- Where a sign stands that is no dash and no asterisk no element is named. -/
theorem elementName_run_ne_ok (hkind : sign.kind = .symbol) (hvalue : sign.value = [c])
    (hdash : c ≠ '-') (hasterisk : c ≠ '*') (name : Text) (next : List Token) :
    (elementName .css).run region (sign :: following) ≠ ⟨.ok name, next⟩ := by
  have hsignificant : sign.isSignificant := isSignificant_of_kind (by rw [hkind]; rfl)
  intro h
  obtain ⟨p, hmem, hrun⟩ := exists_mem_of_firstOf_run h
  simp only [List.mem_cons, List.not_mem_nil, or_false] at hmem
  rcases hmem with rfl | rfl
  · obtain ⟨found, hfound, -⟩ := map_run_eq_ok.mp hrun
    exact identifier_run_ne_ok hkind hvalue hdash found next hfound
  · have hafter := (symbol_run_eq_ok.mp hrun).2
    rw [dropTrivia_cons hsignificant, afterSymbols_of_ne hvalue hasterisk] at hafter
    cases hafter

/-- Where a combinator stands no compound selector of the plain language begins. -/
theorem compoundSelector_run_ne_ok (hkind : sign.kind = .symbol) (hvalue : sign.value = [c])
    (hc : c ∉ ['#', '.', ':', '*', '-']) (hrest : dropTrivia rest = sign :: following)
    (pieces : List Text) (next : List Token) :
    (compoundSelector .css).run region rest ≠ ⟨.ok pieces, next⟩ := by
  have hsignificant : sign.isSignificant := isSignificant_of_kind (by rw [hkind]; rfl)
  simp only [List.mem_cons, List.not_mem_nil, or_false, not_or] at hc
  obtain ⟨hhash, hdot, hcolon, hasterisk, hdash⟩ := hc
  have hpart (piece : Text) (next : List Token) :
      (do noSpacesHere; subclassSelector .css : Parser Text).run region (sign :: following) ≠
        ⟨.ok piece, next⟩ := by
    intro h
    obtain ⟨_, middle, hspaces, hrun⟩ := bind_run_eq_ok.mp h
    unfold noSpacesHere at hspaces
    simp only [isTrivia_eq_false_of_significant hsignificant] at hspaces
    cases hspaces
    exact subclassSelector_run_ne_ok hkind hvalue (by simp [hhash, hdot, hcolon]) piece next hrun
  intro h
  obtain ⟨_, middle, hskip, h⟩ := bind_run_eq_ok.mp (attempt_run_eq_ok.mp h)
  obtain rfl : dropTrivia rest = middle := congrArg Reply.rest hskip
  rw [hrest] at h
  obtain ⟨element, middle, hfound, h⟩ := bind_run_eq_ok.mp h
  rcases optional_run_eq_ok.mp hfound with ⟨name, rfl, -, hrun⟩ | ⟨rfl, rfl, -⟩
  · exact elementName_run_ne_ok hkind hvalue hdash hasterisk name middle hrun
  · obtain ⟨others, middle, hothers, h⟩ := bind_run_eq_ok.mp h
    rw [eq_nil_of_many_run hpart hothers] at h
    cases h

end Signs

/-- Where a compound selector of the plain language stands in a text there is no combinator. -/
theorem combinator_refuses (hlexed : IsLexed config rest) {pieces : List Text}
    (h : (compoundSelector .css).run region rest = ⟨.ok pieces, next⟩) :
    combinator.Refuses region rest := by
  refine (oneOfSymbols_run_cases region rest _).resolve_left ?_
  rintro ⟨text, htext, left, hafter, -⟩
  obtain ⟨c, rfl, hc⟩ : ∃ c, text = [c] ∧ c ∉ ['#', '.', ':', '*', '-'] := by
    simp only [List.mem_cons, List.not_mem_nil, or_false] at htext
    rcases htext with rfl | rfl | rfl
    · exact ⟨'>', rfl, by simp⟩
    · exact ⟨'+', rfl, by simp⟩
    · exact ⟨'~', rfl, by simp⟩
  obtain ⟨gap, hrest, -⟩ := exists_gap rest
  obtain ⟨signs, hsigns, hspelling, hkinds⟩ := exists_of_afterSymbols hafter
  rw [hsigns] at hrest
  cases signs with
  | nil => cases hspelling
  | cons sign signs =>
    have hkind := hkinds sign List.mem_cons_self
    have hmem : sign ∈ rest := by
      rw [hrest]
      simp
    obtain ⟨d, hvalue⟩ := hlexed.exists_value_eq hmem hkind
    rw [spelling_cons, hvalue] at hspelling
    obtain ⟨rfl, -⟩ := List.cons.inj hspelling
    exact compoundSelector_run_ne_ok hkind hvalue hc hsigns pieces next h

/-- A selector of the plain language that leads up to braces is one of the extended language. -/
theorem selector_run_jss (hstop : stop.isBraces) (hlexed : IsLexed config rest)
    (hrest : LeadsTo (stop :: back) rest) {found : Selector}
    (h : (selector .css).run region rest = ⟨.ok found, next⟩) :
    (selector .jss).run region rest = ⟨.ok found.relabelled, next⟩ ∧
      LeadsTo (stop :: back) next := by
  obtain ⟨captured, left, hcaptured, hfound⟩ := bind_run_eq_ok.mp h
  obtain ⟨rfl, rfl⟩ := pure_run_eq_ok.mp hfound
  obtain ⟨hfragments, hsource⟩ := capture_run_eq_ok.mp hcaptured
  obtain ⟨leading, start, hleading, hfragments⟩ := bind_run_eq_ok.mp hfragments
  obtain ⟨rfl, rfl⟩ := pure_run_eq_ok.mp hleading
  obtain ⟨first, middle, hfirst, hfragments⟩ := bind_run_eq_ok.mp hfragments
  obtain ⟨others, last, hothers, hpieces⟩ := bind_run_eq_ok.mp hfragments
  obtain rfl := (pure_run_eq_ok.mp hpieces).2
  have hcompound : (compoundSelector .css).Recasts (.upTo stop back hstop) id
      (compoundSelector .jss) := recasts_compoundSelector_upTo .css
  obtain ⟨hfirst', hmiddle⟩ := run_eq_of_recasts hcompound rfl hrest region
  rw [hfirst] at hfirst' hmiddle
  obtain ⟨hothers', hlast⟩ :=
    run_eq_of_recasts (recasts_otherCompounds hcompound) rfl hmiddle region
  rw [hothers] at hothers' hlast
  have hnone : (leadingCombinator .jss).run region rest = ⟨.ok [], rest⟩ :=
    bind_run_eq_ok.mpr ⟨none, rest, optional_run_of_refuses (combinator_refuses hlexed hfirst), rfl⟩
  refine ⟨bind_run_eq_ok.mpr ⟨captured, last, capture_run_eq_ok.mpr ⟨?_, hsource⟩, rfl⟩, hlast⟩
  exact bind_run_eq_ok.mpr ⟨[], rest, hnone, bind_run_eq_ok.mpr ⟨first, middle, hfirst',
    bind_run_eq_ok.mpr ⟨others, last, hothers', hpieces⟩⟩⟩

/-- Selectors behind commas that lead up to braces are those of the extended language, when nothing
but trivia is left before the braces. -/
theorem runSeparated_jss (hstop : stop.isBraces) (hlexed : IsLexed config rest)
    (hrest : LeadsTo (stop :: back) rest) {others : List (Token × Selector)}
    (h : runSeparated comma (selector .css) region rest = ⟨.ok others, next⟩)
    (hnext : (firstSignificant next).any Token.isBraces) :
    runSeparated comma (selector .jss) region rest =
      ⟨.ok (others.map (Prod.map id Selector.relabelled)), next⟩ := by
  have hcomma : (stop.kind == .comma) = false :=
    beq_eq_false_iff_ne.mpr (kind_ne_of_isBraces hstop rfl)
  fun_induction runSeparated comma (selector .css) region rest generalizing others next with
  | case1 rest left hsign =>
    cases h
    rw [runSeparated, hsign]
    rfl
  | case2 rest sign middle hsign left hselector =>
    -- The list would end at a comma, and not before the braces.
    cases h
    obtain ⟨hdropped, hkind⟩ := tokenWhere_run_eq_ok.mp (run_of_optional_run hsign)
    rw [firstSignificant_eq_head?, hdropped, List.head?_cons, Option.any_some,
      isBraces_eq_false_of_kind hkind rfl] at hnext
    cases hnext
  | case3 rest sign middle hsign value left hselector hlt ih =>
    have hfound := run_of_optional_run hselector
    have hmiddle : LeadsTo (stop :: back) middle :=
      hrest.of_tokenWhere (isSignificant_of_isBraces hstop) hcomma (run_of_optional_run hsign)
    obtain ⟨before, rfl, -⟩ := (keeps_anyToken .comma).exists_used (run_of_optional_run hsign)
    obtain ⟨hrun, hleft⟩ := selector_run_jss hstop hlexed.of_append hmiddle hfound
    obtain ⟨used, rfl, -⟩ := (keeps_selector .css).exists_used hfound
    rw [runSeparated, hsign]
    dsimp only
    rw [optional_run_eq_ok.mpr (.inl ⟨value.relabelled, rfl, rfl, hrun⟩)]
    dsimp only
    rw [if_pos hlt]
    generalize runSeparated comma (selector .css) region left = reply at h ih
    rcases reply with ⟨values | error | _, last⟩
    · cases h
      rw [ih hlexed.of_append.of_append hleft rfl hnext]
      rfl
    · cases h
    · cases h
  | case4 => cases h
  | case5 => cases h
  | case6 => cases h
  | case7 => cases h
  | case8 => cases h

/-- A list of selectors of the plain language with braces behind it leads up to them, and it is one
of the extended language. -/
theorem selectorList_run_jss (hlexed : IsLexed config rest) {selectors : List Selector}
    (h : (selectorList .css).run region rest = ⟨.ok selectors, next⟩)
    (hnext : dropTrivia next = stop :: back) (hstop : stop.isBraces) :
    LeadsTo (stop :: back) rest ∧ (selectorList .jss).run region rest =
      ⟨.ok (selectors.map Selector.relabelled), next⟩ := by
  have hrest : LeadsTo (stop :: back) rest := by
    obtain ⟨used, rfl, hused⟩ := keeps_selectorList_tokens.exists_used h
    obtain ⟨gap, hgap, htrivia⟩ := exists_gap next
    rw [hnext] at hgap
    refine ⟨used ++ gap, by rw [hgap, List.append_assoc], List.forall_mem_append.mpr ⟨hused, ?_⟩⟩
    exact fun token htoken => isSelectorToken_of_isTrivia token (htrivia token htoken)
  refine ⟨hrest, ?_⟩
  obtain ⟨first?, middle, hfirst, h⟩ := bind_run_eq_ok.mp h
  obtain ⟨first, rfl, -, hfirst⟩ | ⟨rfl, -⟩ := optional_run_eq_ok.mp hfirst
  · obtain ⟨others, last, hothers, hpure⟩ := bind_run_eq_ok.mp h
    obtain ⟨rfl, rfl⟩ := pure_run_eq_ok.mp hpure
    obtain ⟨hrun, hmiddle⟩ := selector_run_jss hstop hlexed hrest hfirst
    obtain ⟨used, rfl, -⟩ := (keeps_selector .css).exists_used hfirst
    have hbraces : (firstSignificant last).any Token.isBraces := by
      rw [firstSignificant_eq_head?, hnext]
      exact hstop
    refine bind_run_eq_ok.mpr ⟨some first.relabelled, middle,
      optional_run_eq_ok.mpr (.inl ⟨_, rfl, rfl, hrun⟩), bind_run_eq_ok.mpr ⟨_, last,
        runSeparated_jss hstop hlexed.of_append hmiddle hothers hbraces, ?_⟩⟩
    refine pure_run_eq_ok.mpr ⟨?_, rfl⟩
    simp [Function.comp_def]
  · cases h

end Grammar

end StyleSyntax
