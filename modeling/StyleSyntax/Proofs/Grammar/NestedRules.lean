import StyleSyntax.Proofs.Grammar.KeywordRules
import StyleSyntax.Proofs.Grammar.Variants

/-!
# Declarations and nested rules

In the body of a rule a declaration and a nested rule may begin alike, and both may hold braces. In
a declaration braces stand right behind a literal that ends in a dollar sign, and a declaration goes
on to a semicolon or to the end. A list of selectors passes neither a semicolon nor a dollar sign
without its braces, so it never stops before braces on such a stretch of tokens. Where a declaration
stands there is therefore no rule, and it does not matter which of the two is tried first.
-/

namespace StyleSyntax

/-- A literal that ends in a dollar sign. -/
def Token.endsInDollar (token : Token) : Bool :=
  token.kind == .literal && token.value.getLast? == some '$'

/-- Braces stand right behind literals that end in a dollar sign. -/
def BracesFollowDollars (tokens : List Token) : Prop :=
  ∀ front token back, tokens = front ++ token :: back → token.isBraces →
    front.getLast?.any Token.endsInDollar

namespace BracesFollowDollars

variable {tokens more : List Token}

/-- Tokens without braces are of this kind. -/
theorem of_forall (h : ∀ token ∈ tokens, token.isBraces = false) : BracesFollowDollars tokens := by
  rintro front token back rfl hbraces
  rw [h token (by simp)] at hbraces
  cases hbraces

/-- Tokens that do not end script are of this kind. -/
theorem of_continues (h : ∀ token ∈ tokens, Grammar.continuesScript token) :
    BracesFollowDollars tokens := by
  refine .of_forall fun token htoken => ?_
  have hcontinues := h token htoken
  rw [Grammar.continuesScript, Bool.and_eq_true, Bool.not_eq_true'] at hcontinues
  exact hcontinues.1

/-- A gap is of this kind. -/
theorem of_allTrivia (h : AllTrivia tokens) : BracesFollowDollars tokens :=
  .of_continues fun token htoken => Grammar.continuesScript_of_isTrivia token (h token htoken)

/-- Two stretches of this kind are of this kind together. -/
theorem append (h : BracesFollowDollars tokens) (hmore : BracesFollowDollars more) :
    BracesFollowDollars (tokens ++ more) := by
  intro front token back hsplit hbraces
  rcases List.append_eq_append_iff.mp hsplit with
    ⟨between, rfl, hbetween⟩ | ⟨between, rfl, hbetween⟩
  · obtain ⟨literal, hlast, hends⟩ :=
      (Option.any_eq_true _ _).mp (hmore between token back hbetween hbraces)
    rw [List.getLast?_append, hlast]
    exact hends
  · cases between with
    | nil =>
      have hfirst := hmore [] token back hbetween.symm hbraces
      cases hfirst
    | cons first between =>
      obtain ⟨rfl, rfl⟩ := List.cons.inj hbetween
      exact h front token between rfl hbraces

/-- A beginning of tokens of this kind is of this kind. -/
theorem of_append (h : BracesFollowDollars (tokens ++ more)) : BracesFollowDollars tokens := by
  rintro front token back rfl hbraces
  exact h front token (back ++ more) (by simp) hbraces

end BracesFollowDollars

namespace Grammar

open StyleSyntax.Parser

variable {bodies : Bodies} {region : Region} {rest next : List Token} {node : Node}

/-! ## Braces in declarations -/

/-- A unit of a name is no braces. -/
theorem isBraces_of_isUnit {token : Token} (h : isUnit token) : token.isBraces = false := by
  have hcontinues := continuesScript_of_isUnit token h
  rw [continuesScript, Bool.and_eq_true, Bool.not_eq_true'] at hcontinues
  exact hcontinues.1

/-- An interpolation has its braces behind a dollar sign. -/
theorem bracesFollowDollars_of_opensInterpolation {literal inner : Token}
    (h : literal.opensInterpolation inner) : BracesFollowDollars [literal, inner] := by
  simp only [Token.opensInterpolation, Bool.and_eq_true, beq_iff_eq] at h
  obtain ⟨⟨⟨hkind, hlast⟩, -⟩, -⟩ := h
  intro front token back hsplit hbraces
  cases front with
  | nil =>
    obtain ⟨rfl, -⟩ := List.cons.inj hsplit
    rw [Token.isBraces, hkind] at hbraces
    cases hbraces
  | cons first front =>
    obtain ⟨rfl, hinner⟩ := List.cons.inj hsplit
    cases front with
    | nil => simp [Token.endsInDollar, hkind, hlast]
    | cons => simp at hinner

/-- An identifier has braces in interpolations alone. -/
theorem bracesFollowDollars_identifier (dialect : Dialect) (tokens : List Token) :
    BracesFollowDollars (tokens.take (identifierLength dialect tokens)) := by
  have hunit {token : Token} (h : isName token || isDashes token) : BracesFollowDollars [token] :=
    .of_forall (List.forall_mem_singleton.mpr (isBraces_of_isUnit h))
  fun_induction identifierLength dialect tokens with
  | case1 => exact .of_forall (by simp)
  | case2 token hname => exact hunit hname
  | case3 => exact .of_forall (by simp)
  | case4 token following rest hname ih => exact (hunit hname).append ih
  | case5 token following rest _ hopens ih =>
    rw [Bool.and_eq_true] at hopens
    exact (bracesFollowDollars_of_opensInterpolation hopens.2).append ih
  | case6 => exact .of_forall (by simp)

/-- What is consumed for an identifier is of this kind. -/
theorem bracesFollowDollars_of_identifier {dialect : Dialect} {name : Excerpt}
    (h : (identifier dialect).run region rest = ⟨.ok name, next⟩) :
    ∃ used, rest = used ++ next ∧ BracesFollowDollars used := by
  obtain ⟨gap, hgap, htrivia⟩ := exists_gap rest
  unfold identifier at h
  dsimp only at h
  split_ifs at h
  · cases h
    refine ⟨gap ++ (dropTrivia rest).take (identifierLength dialect (dropTrivia rest)), ?_,
      (BracesFollowDollars.of_allTrivia htrivia).append (bracesFollowDollars_identifier _ _)⟩
    rw [List.append_assoc, List.take_append_drop, ← hgap]
  · cases h

/-- A value of the extended language has braces behind dollar signs alone. -/
theorem any_endsInDollar_of_valueExtent {stops : Token → Bool} {previous : Option Token}
    {tokens front back : List Token} {token : Token}
    (h : tokens.take (valueExtent stops (valueAllows .jss) previous tokens).1 =
      front ++ token :: back) (hbraces : token.isBraces) :
    (front.getLast?.or previous).any Token.endsInDollar := by
  induction tokens generalizing previous front with
  | nil => simp at h
  | cons first tokens ih =>
    unfold valueExtent at h
    split_ifs at h with hstops hallowed
    · simp at h
    · rw [List.take_succ_cons] at h
      cases front with
      | nil =>
        obtain ⟨rfl, -⟩ := List.cons.inj h
        rw [valueAllows, hbraces] at hallowed
        exact hallowed
      | cons head front =>
        obtain ⟨rfl, hlater⟩ := List.cons.inj h
        have hbefore := ih hlater
        rw [List.getLast?_cons, Option.some_or]
        cases hlast : front.getLast? with
        | none => simpa [hlast] using hbefore
        | some last => simpa [hlast] using hbefore
    · simp at h

/-- The value of a declaration of the extended language is of this kind. -/
theorem bracesFollowDollars_of_declarationValue
    (h : (declarationValue .jss).run region rest = ⟨.ok (), next⟩) :
    ∃ used, rest = used ++ next ∧ BracesFollowDollars used := by
  unfold declarationValue value at h
  dsimp only at h
  split_ifs at h with hbroken hkept
  · cases h
  · cases h
  · cases h
    generalize hlength : (valueExtent (fun token => token.isSymbol ['!']) (valueAllows .jss) none
      rest).1 = length
    have hall : BracesFollowDollars (rest.take length) := by
      intro front token back hsplit hbraces
      rw [← hlength] at hsplit
      simpa using any_endsInDollar_of_valueExtent hsplit hbraces
    have hkept : (rest.take length).take (significantLength (rest.take length)) =
        rest.take (significantLength (rest.take length)) := by
      have hle := significantLength_le (rest.take length)
      rw [List.length_take] at hle
      rw [List.take_take, Nat.min_eq_left (hle.trans (Nat.min_le_left _ _))]
    refine ⟨_, (List.take_append_drop _ rest).symm, ?_⟩
    rw [← hkept]
    rw [← List.take_append_drop (significantLength (rest.take length)) (rest.take length)] at hall
    exact hall.of_append

/-- Symbols that spell a semicolon are one among them. -/
theorem exists_isSemicolon {signs : List Token} (hkind : ∀ sign ∈ signs, sign.kind = .symbol)
    (hspelling : spelling signs = [';']) : ∃ sign ∈ signs, sign.isSemicolon := by
  induction signs with
  | nil => cases hspelling
  | cons sign more ih =>
    rw [List.forall_mem_cons] at hkind
    rw [spelling_cons] at hspelling
    cases hvalue : sign.value with
    | nil =>
      rw [hvalue, List.nil_append] at hspelling
      obtain ⟨semicolon, hmem, hsemicolon⟩ := ih hkind.2 hspelling
      exact ⟨semicolon, List.mem_cons_of_mem _ hmem, hsemicolon⟩
    | cons c later =>
      rw [hvalue, List.cons_append, List.cons.injEq, List.append_eq_nil_iff] at hspelling
      obtain ⟨rfl, rfl, -⟩ := hspelling
      exact ⟨sign, List.mem_cons_self, by simp [Token.isSemicolon, Token.isSymbol, hkind.1, hvalue]⟩

/-- The end of a statement is a semicolon, or nothing before the end of the tokens. -/
theorem bracesFollowDollars_of_statementEnd
    (h : statementEnd.run region rest = ⟨.ok (), next⟩) :
    ∃ used, rest = used ++ next ∧ BracesFollowDollars used ∧
      ((∃ token ∈ used, token.isSemicolon) ∨ AllTrivia next) := by
  rcases statementEnd_run_cases h with hsign | ⟨rfl, htrivia⟩
  · obtain ⟨used, rfl, -, gap, signs, rfl, hgap, hspelling, hkind⟩ :=
      (keeps_symbol [';']).exists_used hsign
    obtain ⟨semicolon, hmem, hsemicolon⟩ := exists_isSemicolon hkind hspelling
    have hsigns : BracesFollowDollars signs :=
      .of_forall fun token htoken => by rw [Token.isBraces, hkind token htoken]; rfl
    exact ⟨gap ++ signs, rfl, (BracesFollowDollars.of_allTrivia hgap).append hsigns,
      .inl ⟨semicolon, List.mem_append_right _ hmem, hsemicolon⟩⟩
  · exact ⟨[], rfl, .of_forall (by simp), .inr htrivia⟩

/-- A declaration of the extended language has braces behind dollar signs alone, and goes on to a
semicolon or to the end. -/
theorem exists_used_of_declaration (h : (declaration .jss).run region rest = ⟨.ok node, next⟩) :
    ∃ used, rest = used ++ next ∧ BracesFollowDollars used ∧
      ((∃ token ∈ used, token.isSemicolon) ∨ AllTrivia next) := by
  obtain ⟨property, colon, val, mark, m₁, m₂, m₃, m₄, hproperty, hcolon, hvalue, hmark, hend, -⟩ :=
    declaration_run_eq_ok.mp h
  have hcolons : (symbol [':']).Keeps .any (Promise.tokens continuesScript) :=
    keeps_symbol_tokens continuesScript_of_isTrivia (continuesScript_of_subset (by simp))
  obtain ⟨u₁, rfl, h₁⟩ := bracesFollowDollars_of_identifier hproperty
  obtain ⟨u₂, rfl, h₂⟩ := hcolons.exists_used hcolon
  obtain ⟨⟨_, source⟩, hcaptured, rfl⟩ := map_run_eq_ok.mp hvalue
  obtain ⟨u₃, rfl, h₃⟩ :=
    bracesFollowDollars_of_declarationValue (capture_run_eq_ok.mp hcaptured).1
  obtain ⟨u₄, rfl, h₄⟩ := keeps_importantMark_tokens.optional_tokens.exists_used hmark
  have hparts : BracesFollowDollars (u₁ ++ (u₂ ++ (u₃ ++ u₄))) :=
    h₁.append ((BracesFollowDollars.of_continues h₂).append (h₃.append (.of_continues h₄)))
  obtain ⟨u₅, rfl, h₅, hends⟩ := bracesFollowDollars_of_statementEnd hend
  exact ⟨u₁ ++ (u₂ ++ (u₃ ++ u₄)) ++ u₅, by simp, hparts.append h₅,
    hends.imp_left fun ⟨token, htoken, hsemicolon⟩ =>
      ⟨token, List.mem_append_right _ htoken, hsemicolon⟩⟩

/-! ## Lists of selectors -/

/-- Before braces that stand behind a dollar sign no list of selectors ends. -/
theorem getLast?_any_endsInDollar_eq_false {used gap : List Token} (hused : OnlyOpen IsForeign used)
    (hgap : AllTrivia gap) : (used ++ gap).getLast?.any Token.endsInDollar = false := by
  rw [← Bool.not_eq_true]
  intro hany
  obtain ⟨literal, hlast, hends⟩ := (Option.any_eq_true _ _).mp hany
  rw [Token.endsInDollar, Bool.and_eq_true, beq_iff_eq, beq_iff_eq] at hends
  have hsignificant : literal.isSignificant := isSignificant_of_kind (by rw [hends.1]; rfl)
  rw [List.getLast?_append] at hlast
  cases hback : gap.getLast? with
  | some token =>
    rw [hback, Option.some_or, Option.some.injEq] at hlast
    have htrivia := hgap token (List.mem_of_getLast? hback)
    rw [hlast, isTrivia_eq_false_of_significant hsignificant] at htrivia
    cases htrivia
  | none =>
    rw [hback, Option.none_or] at hlast
    obtain ⟨front, rfl⟩ := List.getLast?_eq_some_iff.mp hlast
    have hopens := hused front literal [] rfl hsignificant
      (.inr (.inr ⟨hends.1, List.mem_of_getLast? hends.2⟩))
    cases hopens

/-- No list of selectors passes a semicolon. -/
theorem isSemicolon_eq_false_of_onlyOpen {used : List Token} (hused : OnlyOpen IsForeign used) :
    ∀ token ∈ used, token.isSemicolon = false := by
  intro token htoken
  rw [← Bool.not_eq_true]
  intro hsemicolon
  obtain ⟨front, back, rfl⟩ := List.append_of_mem htoken
  have hopens := hused front token back rfl (isSignificant_of_isSymbol hsemicolon) (.inl hsemicolon)
  obtain ⟨inner, -, hinner⟩ := (Option.any_eq_true _ _).mp hopens
  simp only [Token.opensInterpolation, Bool.and_eq_true, beq_iff_eq] at hinner
  rw [Token.isSemicolon, Token.isSymbol, Bool.and_eq_true, beq_iff_eq, hinner.1.1.1] at hsemicolon
  cases hsemicolon.1

/-- Where a declaration stands no list of selectors ends before braces. -/
theorem not_isBraces_of_declaration {selectors : List Selector} {middle back : List Token}
    {stop : Token} (h : (declaration .jss).run region rest = ⟨.ok node, next⟩)
    (hselectors : (selectorList .jss).run region rest = ⟨.ok selectors, middle⟩)
    (hmiddle : dropTrivia middle = stop :: back) : stop.isBraces = false := by
  rw [← Bool.not_eq_true]
  intro hstop
  obtain ⟨used, rfl, hbraces, hends⟩ := exists_used_of_declaration h
  obtain ⟨front, hfront, -⟩ := (keeps_selectorList .jss).exists_used hselectors
  rw [hfront] at hselectors
  have hopen := onlyOpen_of_selectorList hselectors
  obtain ⟨gap, hgap, htrivia⟩ := exists_gap middle
  have hplace : used ++ next = (front ++ gap) ++ stop :: back := by
    rw [hfront, hgap, hmiddle, List.append_assoc]
  -- Behind the declaration there are no braces before a semicolon.
  have hpast (between : List Token) (hall : front ++ gap = used ++ between)
      (hnext : next = between ++ stop :: back) : False := by
    rcases hends with ⟨semicolon, hmem, hsemicolon⟩ | hlater
    · have hmem' : semicolon ∈ front ++ gap := by
        rw [hall]
        exact List.mem_append_left _ hmem
      rcases List.mem_append.mp hmem' with hfound | hfound
      · rw [isSemicolon_eq_false_of_onlyOpen hopen semicolon hfound] at hsemicolon
        cases hsemicolon
      · have hsemitrivia := htrivia semicolon hfound
        rw [isTrivia_eq_false_of_significant (isSignificant_of_isSymbol hsemicolon)] at hsemitrivia
        cases hsemitrivia
    · have hstoptrivia := hlater stop (by simp [hnext])
      rw [isTrivia_eq_false_of_significant (isSignificant_of_isBraces hstop)] at hstoptrivia
      cases hstoptrivia
  rcases List.append_eq_append_iff.mp hplace with
    ⟨between, hall, hnext⟩ | ⟨between, hall, hnext⟩
  · exact hpast between hall hnext
  · cases between with
    | nil => exact hpast [] (by rw [hall, List.append_nil, List.append_nil]) hnext.symm
    | cons first between =>
      obtain ⟨rfl, -⟩ := List.cons.inj hnext
      have hdollar := hbraces _ _ _ hall hstop
      rw [getLast?_any_endsInDollar_eq_false hopen htrivia] at hdollar
      cases hdollar

/-- Where a declaration stands there is no rule, and that is seen outside of all brackets. -/
theorem ruleBlock_refuses_of_declaration
    (h : (declaration .jss).run region rest = ⟨.ok node, next⟩) (bodies : Bodies) :
    (ruleBlock bodies .jss).Refuses region rest := by
  have hends := (keeps_selectorList .jss).outcome_ne_endless region rest
  rcases (failsOutside_selectorList .jss).run_cases hends with
    ⟨selectors, middle, hrun⟩ | hrefuses
  · have hnone : (firstSignificant middle).any (braces.contains ·.kind) = false := by
      rw [firstSignificant_eq_head?]
      cases hmiddle : dropTrivia middle with
      | nil => rfl
      | cons stop back =>
        exact (braces_contains stop.kind).trans (not_isBraces_of_declaration h hrun hmiddle)
    have hblock : (block braces (bodies.blockItems .jss)).Refuses region middle :=
      (tokenWhere_refuses_of_any hnone _).bind _
    exact Refuses.bind (Refuses.capture (Refuses.attempt
      (Refuses.bind_of_run hrun ((hblock.step 1).bind _)))) _
  · exact Refuses.bind (Refuses.capture (Refuses.attempt (hrefuses.bind _))) _

/-! ## Failures of declarations -/

/-- A value fails outside brackets, since it does not look into them. -/
theorem failsOutside_value (wanted : Text) (stops : Token → Bool)
    (allows : Option Token → Token → Bool) : (value wanted stops allows).FailsOutside := by
  constructor
  intro region rest next error h
  unfold value at h
  dsimp only at h
  split_ifs at h <;> cases h <;> exact isBlock_expected _ _ _

/-- The end of a statement fails outside brackets. -/
theorem failsOutside_statementEnd : statementEnd.FailsOutside := by
  have hend : endOfInput.FailsOutside := by
    constructor
    intro region rest next error h
    unfold endOfInput at h
    dsimp only at h
    split_ifs at h <;> cases h
    exact isBlock_expected _ _ _
  refine failsOutside_firstOf ?_
  simp only [List.forall_mem_cons]
  exact ⟨(failsOutside_symbol _).map _, hend, by simp⟩

/-- A declaration fails outside brackets. -/
theorem failsOutside_declaration (dialect : Dialect) : (declaration dialect).FailsOutside := by
  have hvalue : (excerpt (declarationValue dialect)).FailsOutside :=
    (failsOutside_value _ _ _).capture.map _
  have hmark : importantMark.FailsOutside :=
    FailsOutside.attempt <| (failsOutside_symbol _).bind fun _ =>
      (failsOutside_tokenWhere _ _).step 1
  exact (FailsOutside.capture (FailsOutside.attempt
    ((failsOutside_identifier dialect).bind fun _ => ((failsOutside_symbol _).step 1).bind fun _ =>
      (hvalue.step 2).bind fun _ => (hmark.optional.step 3).bind fun _ =>
        (failsOutside_statementEnd.step 4).bind fun _ => failsOutside_pure _))).bind
          fun _ => failsOutside_pure _

/-! ## Rules before declarations -/

namespace Variant

/-- The grammar that tries nested rules before declarations. -/
def rulesFirst : Variant where
  check := probe
  bodyRules declaration rule := [rule, declaration]

/-- Of a declaration and a rule at most one stands in a place, so their order does not matter. -/
theorem rulesFirst_isHarmless : rulesFirst.IsHarmless where
  check_keeps h := h.probe _
  mem_bodyRules h := by simpa [rulesFirst, or_comm] using h
  check hagrees htest _ hleaves htried :=
    .cons (hagrees.reply hleaves) ((hagrees.probe htest).accepts hleaves) htried
  bodyRules {region bound rest rest' bodies bodies'} hbodies hleaves := by
    have hc := Comparison.lexed_isWhole region bound .jss
    have hdeclaration := (agrees_declaration hc).reply hleaves
    have hrule := (agrees_ruleBlock hc hbodies).reply hleaves
    obtain ⟨⟨rfl, -⟩, -⟩ := hleaves
    have hkeeps : (declaration .jss).Keeps .any (Promise.statement .jss .block) :=
      keeps_declaration .jss (.inl rfl)
    have hends := hkeeps.outcome_ne_endless region rest'
    rcases (failsOutside_declaration .jss).run_cases hends with ⟨node, next, hrun⟩ | hrefuses
    · have hdeclines (bodies : Bodies) : (ruleBlock bodies .jss).Declines region rest' :=
        fun _ => ruleBlock_refuses_of_declaration hrun bodies
      exact .cons_right (hdeclines bodies')
        (.cons hdeclaration rfl (.cons_left (hdeclines bodies) triedAlike_nil))
    · have hdeclines : (declaration .jss).Declines region rest' := fun _ => hrefuses
      exact .cons_left hdeclines (.cons hrule rfl (.cons_right hdeclines triedAlike_nil))

/-- Where a declaration stands, whatever the tokens, a rule is refused. So on the tokens of every
text rules may be tried before declarations, in the bodies of every depth. -/
theorem rulesFirst_alike {lexing : LexerConfig} {text : Text} {origin : Position}
    {tokens : List Token} (htokens : tokensOf lexing text origin = .ok tokens) (region : Region) :
    (∀ rest node next bodies, (declaration .jss).run region rest = ⟨.ok node, next⟩ →
      (ruleBlock bodies .jss).Refuses region rest) ∧
    (∀ depth, (((Bodies.within depth).blockItems .jss).run region (splitSymbolRuns tokens)).Alike
      (((rulesFirst.within depth).blockItems .jss).run region (splitSymbolRuns tokens))) ∧
    ∀ dialect, ((Grammar.stylesheet dialect).run region (splitSymbolRuns tokens)).Alike
      ((rulesFirst.stylesheet dialect).run region (splitSymbolRuns tokens)) := by
  have halike := rulesFirst_isHarmless.alike ⟨text, origin, tokens, htokens, List.infix_rfl⟩ region
  exact ⟨fun _ _ _ bodies hrun => ruleBlock_refuses_of_declaration hrun bodies,
    fun depth => ((halike .jss).2 depth).1, fun dialect => (halike dialect).1⟩

/-- A nested rule and a declaration with an interpolation, which begin alike. -/
theorem rulesFirst_alike_interpolation :
    let text := "a:b\x7b\x7da:b$\x7bc\x7d".toList
    let tokens : List Token := [⟨.literal, ['a'], ⟨1, 1⟩⟩, ⟨.symbol, [':'], ⟨1, 2⟩⟩,
      ⟨.literal, ['b'], ⟨1, 3⟩⟩, ⟨.lazyBlock, "\x7b\x7d".toList, ⟨1, 4⟩⟩,
      ⟨.literal, ['a'], ⟨1, 6⟩⟩, ⟨.symbol, [':'], ⟨1, 7⟩⟩, ⟨.literal, "b$".toList, ⟨1, 8⟩⟩,
      ⟨.lazyBlock, "\x7bc\x7d".toList, ⟨1, 10⟩⟩]
    let selector : Selector := ⟨.jss, [['a'], ":b".toList], "a:b".toList, ⟨1, 1⟩⟩
    let nodes : List Node := [.block (.rule .jss [selector]) [] ⟨"a:b\x7b\x7d".toList, ⟨1, 1⟩⟩,
      .leaf (.declaration ⟨.jss, ⟨['a'], ⟨1, 6⟩⟩, ⟨"b$\x7bc\x7d".toList, ⟨1, 8⟩⟩, false,
        "a:b$\x7bc\x7d".toList⟩)]
    tokensOf {} text .start = .ok tokens ∧
      (((Bodies.within 2).blockItems .jss).run ⟨{}, ⟨1, 13⟩⟩ tokens).outcome = .ok nodes ∧
      (((rulesFirst.within 2).blockItems .jss).run ⟨{}, ⟨1, 13⟩⟩ tokens).outcome = .ok nodes := by
  intro text tokens selector nodes
  have htokens : tokensOf {} text .start = .ok tokens := by decide +kernel
  have hparse : (((Bodies.within 2).blockItems .jss).run ⟨{}, ⟨1, 13⟩⟩
      (splitSymbolRuns tokens)).outcome = .ok nodes := by
    decide +kernel
  exact ⟨htokens, hparse, ((rulesFirst_alike htokens _).2.1 2).outcome_eq hparse⟩

end Variant

end Grammar

end StyleSyntax
