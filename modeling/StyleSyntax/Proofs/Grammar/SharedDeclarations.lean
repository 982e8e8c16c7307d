import StyleSyntax.Proofs.Grammar.SharedSelectors
import StyleSyntax.Proofs.Parser.Outside

/-!
# Declarations of both languages

A declaration of the plain language is one of the extended language: the colon behind the property
ends it in both, and braces in the value, of which the extended language admits more, end it in
neither. On one line a declaration is also a script statement, since nothing in it but a semicolon
at its end would end script earlier. No variable begins where a declaration or a rule does, for lack
of the sign behind its name.
-/

namespace StyleSyntax.Grammar

open StyleSyntax.Parser

variable {region : Region} {rest next : List Token} {node : Node}

/-- Where no unit stands there is no identifier of the plain language. -/
theorem identifierLength_css_eq_zero {token : Token} (h : isUnit token = false)
    (tokens : List Token) : identifierLength .css (token :: tokens) = 0 := by
  rw [isUnit] at h
  cases tokens <;> simp [identifierLength, h]

/-- An identifier of the plain language that does not end at a literal is as long in both
languages. -/
theorem identifierLength_eq_of_drop {tokens : List Token} (dialect : Dialect)
    (h : ∀ token ∈ (tokens.drop (identifierLength .css tokens)).head?, token.kind ≠ .literal) :
    identifierLength dialect tokens = identifierLength .css tokens := by
  induction tokens with
  | nil => rfl
  | cons token tokens ih =>
    cases hunit : isUnit token with
    | true =>
      rw [identifierLength_cons_of_isUnit .css hunit, List.drop_succ_cons] at h
      rw [identifierLength_cons_of_isUnit dialect hunit, identifierLength_cons_of_isUnit .css hunit,
        ih h]
    | false =>
      rw [identifierLength_css_eq_zero hunit] at h ⊢
      exact identifierLength_cons_eq_zero dialect hunit (h token rfl) tokens

/-- An identifier of the plain language begins with a unit. -/
theorem exists_unit_of_identifier {name : Excerpt}
    (h : (identifier .css).run region rest = ⟨.ok name, next⟩) :
    ∃ token following, dropTrivia rest = token :: following ∧ isUnit token := by
  unfold identifier at h
  dsimp only at h
  split_ifs at h with hany
  · cases hrest : dropTrivia rest with
    | nil =>
      rw [hrest] at hany
      cases hany
    | cons token following =>
      refine ⟨token, following, rfl, ?_⟩
      by_contra hunit
      rw [hrest, identifierLength_css_eq_zero (by simpa using hunit)] at hany
      cases hany
  · cases h

/-- An identifier of the plain language before a colon is one of the extended language. -/
theorem identifier_run_jss {name : Excerpt} {colon : Text} {left : List Token}
    (h : (identifier .css).run region rest = ⟨.ok name, next⟩)
    (hcolon : (symbol [':']).run region next = ⟨.ok colon, left⟩) :
    (identifier .jss).run region rest = ⟨.ok name, next⟩ := by
  have hafter := (symbol_run_eq_ok.mp hcolon).2
  have hhead : ∀ token ∈ next.head?, token.kind ≠ .literal := by
    intro token htoken hkind
    obtain ⟨more, rfl⟩ := List.head?_eq_some_iff.mp htoken
    have hsignificant : token.isSignificant := isSignificant_of_kind (by rw [hkind]; rfl)
    rw [dropTrivia_cons hsignificant, afterSymbols, hkind] at hafter
    · cases hafter
    · simp
  unfold identifier at h ⊢
  dsimp only at h ⊢
  have hnext : (dropTrivia rest).drop (identifierLength .css (dropTrivia rest)) = next := by
    split_ifs at h
    · exact congrArg Reply.rest h
    · cases h
  rw [identifierLength_eq_of_drop .jss (by rwa [hnext])]
  exact h

/-- A value reaches as far when more tokens are allowed in it, unless it was broken by one. -/
theorem valueExtent_of_allows {stops : Token → Bool} {allows more : Option Token → Token → Bool}
    (hallows : ∀ previous token, allows previous token → more previous token)
    (previous : Option Token) (tokens : List Token)
    (h : (valueExtent stops allows previous tokens).2 = false) :
    valueExtent stops more previous tokens = valueExtent stops allows previous tokens := by
  induction tokens generalizing previous with
  | nil => rfl
  | cons token tokens ih =>
    unfold valueExtent at h ⊢
    split_ifs at h ⊢ with hstops hmore hallowed hallowed
    · rfl
    · rw [ih (some token) h]
    · exact absurd (hallows previous token hallowed) hmore

/-- The tokens of a value are allowed in it, and no semicolons. -/
theorem allows_of_mem_value {stops : Token → Bool} {allows : Option Token → Token → Bool}
    {previous : Option Token} {tokens : List Token} {token : Token}
    (h : token ∈ tokens.take (valueExtent stops allows previous tokens).1) :
    token.isSemicolon = false ∧ ∃ before, allows before token := by
  induction tokens generalizing previous with
  | nil => cases h
  | cons first tokens ih =>
    unfold valueExtent at h
    split_ifs at h with hstops hallowed
    · cases h
    · rcases List.mem_cons.mp h with rfl | h
      · rw [Bool.or_eq_true, not_or] at hstops
        exact ⟨by simpa using hstops.1, previous, hallowed⟩
      · exact ih h
    · cases h

/-- A value is read alike when more tokens are allowed in it. -/
theorem value_run_of_allows {wanted : Text} {stops : Token → Bool}
    {allows more : Option Token → Token → Bool}
    (hallows : ∀ previous token, allows previous token → more previous token)
    (h : (value wanted stops allows).run region rest = ⟨.ok (), next⟩) :
    (value wanted stops more).run region rest = ⟨.ok (), next⟩ := by
  unfold value at h ⊢
  dsimp only at h ⊢
  split_ifs at h with hbroken hkept
  · cases h
  · cases h
  · rw [valueExtent_of_allows hallows none rest (by simpa using hbroken), if_neg hbroken,
      if_neg hkept]
    exact h

/-- A token that does not end a script statement, unless there is a line feed in it. -/
def continuesScript (token : Token) : Bool :=
  !token.isBraces && !token.isSemicolon

/-- Trivia does not end a script statement by itself. -/
theorem continuesScript_of_isTrivia (token : Token) (h : token.isTrivia) :
    continuesScript token := by
  obtain ⟨kind, value, position⟩ := token
  cases kind <;> first | rfl | cases h

/-- A literal does not end a script statement. -/
theorem continuesScript_of_isLiteral {text : Text} (token : Token) (h : token.isLiteral text) :
    continuesScript token := by
  obtain ⟨kind, value, position⟩ := token
  cases kind <;> first | rfl | cases h

/-- A symbol other than the semicolon does not end a script statement. -/
theorem continuesScript_of_subset {text : Text} (h : ';' ∉ text) (token : Token)
    (hkind : token.kind = .symbol) (hvalue : token.value ⊆ text) : continuesScript token := by
  have hne : token.value ≠ [';'] := fun heq => h (hvalue (by rw [heq]; exact List.mem_cons_self))
  simp [continuesScript, Token.isBraces, Token.isSemicolon, Token.isSymbol, hkind, hne,
    TokenKind.isBraces]

/-- Units of identifiers do not end a script statement. -/
theorem continuesScript_of_isUnit (token : Token) (h : isUnit token) : continuesScript token := by
  rcases unit_cases h with ⟨hkind, -⟩ | ⟨hkind, hvalue⟩
  · simp [continuesScript, Token.isBraces, Token.isSemicolon, Token.isSymbol, hkind,
      TokenKind.isBraces]
  · exact continuesScript_of_subset (by simp) token hkind hvalue

variable {setting : Setting}

/-- The value of a plain declaration consumes nothing that ends script. -/
theorem keeps_declarationValue_tokens :
    (declarationValue .css).Keeps setting (Promise.tokens continuesScript) := by
  constructor
  intro region rest hscope
  have hreply := (keeps_declarationValue .css).reply region rest hscope
  unfold declarationValue value at hreply ⊢
  dsimp only at hreply ⊢
  split_ifs at hreply ⊢
  · exact hreply
  · exact hreply
  · refine ⟨_, (List.take_append_drop _ rest).symm, fun token htoken => ?_⟩
    have hle : ∀ length, significantLength (rest.take length) ≤ length := fun length =>
      (significantLength_le _).trans (List.length_take_le _ _)
    obtain ⟨hsemicolon, before, hallowed⟩ :=
      allows_of_mem_value (List.take_subset_take_left _ (hle _) htoken)
    have hbraces : token.isBraces = false := by simpa [valueAllows] using hallowed
    simp [continuesScript, hbraces, hsemicolon]

/-- The mark of importance consumes nothing that ends script. -/
theorem keeps_importantMark_tokens :
    importantMark.Keeps setting (Promise.tokens continuesScript) :=
  Keeps.attempt <|
    (keeps_symbol_tokens continuesScript_of_isTrivia
      (continuesScript_of_subset (by simp))).bind_tokens fun _ =>
      (keeps_tokenWhere_tokens continuesScript_of_isTrivia _ fun token htest =>
        continuesScript_of_isLiteral token htest).step 1

/-- A declaration is a property, a colon, a value, perhaps a mark, and the end of a statement. -/
theorem declaration_run_eq_ok {dialect : Dialect} :
    (declaration dialect).run region rest = ⟨.ok node, next⟩ ↔
      ∃ property colon val mark m₁ m₂ m₃ m₄,
        (identifier dialect).run region rest = ⟨.ok property, m₁⟩ ∧
        (symbol [':']).run region m₁ = ⟨.ok colon, m₂⟩ ∧
        (excerpt (declarationValue dialect)).run region m₂ = ⟨.ok val, m₃⟩ ∧
        importantMark.optional.run region m₃ = ⟨.ok mark, m₄⟩ ∧
        statementEnd.run region m₄ = ⟨.ok (), next⟩ ∧
        node = .leaf (.declaration ⟨dialect, property, val, mark.isSome,
          (excerptOf (consumed rest next) (significantPosition rest region.finish)).text⟩) := by
  unfold declaration
  constructor
  · intro h
    obtain ⟨⟨⟨property, val, important⟩, source⟩, _, hcaptured, hnode⟩ := bind_run_eq_ok.mp h
    obtain ⟨rfl, rfl⟩ := pure_run_eq_ok.mp hnode
    obtain ⟨hparts, hsource⟩ := capture_run_eq_ok.mp hcaptured
    obtain ⟨_, m₁, hproperty, hparts⟩ := bind_run_eq_ok.mp (attempt_run_eq_ok.mp hparts)
    obtain ⟨colon, m₂, hcolon, hparts⟩ := bind_run_eq_ok.mp hparts
    obtain ⟨_, m₃, hvalue, hparts⟩ := bind_run_eq_ok.mp hparts
    obtain ⟨mark, m₄, hmark, hparts⟩ := bind_run_eq_ok.mp hparts
    obtain ⟨_, m₅, hend, hpure⟩ := bind_run_eq_ok.mp hparts
    obtain ⟨hpure, rfl⟩ := pure_run_eq_ok.mp hpure
    cases hpure
    obtain rfl : source = _ := hsource
    exact ⟨property, colon, val, mark, m₁, m₂, m₃, m₄, hproperty, step_run_eq_ok.mp hcolon,
      step_run_eq_ok.mp hvalue, step_run_eq_ok.mp hmark, step_run_eq_ok.mp hend, rfl⟩
  · rintro ⟨property, colon, val, mark, m₁, m₂, m₃, m₄, hproperty, hcolon, hvalue, hmark, hend, rfl⟩
    refine bind_run_eq_ok.mpr ⟨⟨⟨property, val, mark.isSome⟩, _⟩, next,
      capture_run_eq_ok.mpr ⟨attempt_run_eq_ok.mpr ?_, rfl⟩, rfl⟩
    exact bind_run_eq_ok.mpr ⟨property, m₁, hproperty,
      bind_run_eq_ok.mpr ⟨colon, m₂, step_run_eq_ok.mpr hcolon,
      bind_run_eq_ok.mpr ⟨val, m₃, step_run_eq_ok.mpr hvalue,
      bind_run_eq_ok.mpr ⟨mark, m₄, step_run_eq_ok.mpr hmark,
      bind_run_eq_ok.mpr ⟨(), next, step_run_eq_ok.mpr hend, rfl⟩⟩⟩⟩⟩

/-- A declaration of the plain language is one of the extended language. -/
theorem declaration_run_jss (h : (declaration .css).run region rest = ⟨.ok node, next⟩) :
    (declaration .jss).run region rest = ⟨.ok node.relabelled, next⟩ := by
  obtain ⟨property, colon, val, mark, m₁, m₂, m₃, m₄, hproperty, hcolon, hvalue, hmark, hend,
    rfl⟩ := declaration_run_eq_ok.mp h
  refine declaration_run_eq_ok.mpr ⟨property, colon, val, mark, m₁, m₂, m₃, m₄,
    identifier_run_jss hproperty hcolon, hcolon, ?_, hmark, hend, rfl⟩
  obtain ⟨⟨_, source⟩, hcaptured, rfl⟩ := map_run_eq_ok.mp hvalue
  obtain ⟨hrun, hsource⟩ := capture_run_eq_ok.mp hcaptured
  refine map_run_eq_ok.mpr ⟨⟨(), source⟩, capture_run_eq_ok.mpr ⟨?_, hsource⟩, rfl⟩
  refine value_run_of_allows (fun previous token hallowed => ?_) hrun
  have hbraces : token.isBraces = false := by simpa [valueAllows] using hallowed
  simp [valueAllows, hbraces]

/-- At the end of a statement is a semicolon, or nothing but trivia is left. -/
theorem statementEnd_run_cases (h : statementEnd.run region rest = ⟨.ok (), next⟩) :
    (symbol [';']).run region rest = ⟨.ok [';'], next⟩ ∨ next = rest ∧ AllTrivia rest := by
  obtain ⟨p, hp, hrun⟩ := exists_mem_of_firstOf_run h
  simp only [List.mem_cons, List.not_mem_nil, or_false] at hp
  rcases hp with rfl | rfl
  · obtain ⟨sign, hsign, -⟩ := map_run_eq_ok.mp hrun
    obtain ⟨rfl, -⟩ := symbol_run_eq_ok.mp hsign
    exact .inl hsign
  · exact .inr (endOfInput_run_eq_ok.mp hrun)

/-- A plain declaration consumes nothing that ends script but perhaps a semicolon at its end;
without the semicolon nothing but trivia is left. -/
theorem exists_front_of_declaration (hlexed : IsLexed region.config rest)
    (h : (declaration .css).run region rest = ⟨.ok node, next⟩) :
    ∃ front, (∀ token ∈ front, continuesScript token) ∧
      (rest = front ++ next ∧ AllTrivia next ∨
        ∃ semicolon, semicolon.isSemicolon ∧ rest = front ++ semicolon :: next) := by
  obtain ⟨property, colon, val, mark, m₁, m₂, m₃, m₄, hproperty, hcolon, hvalue, hmark, hend, -⟩ :=
    declaration_run_eq_ok.mp h
  have hvalues : (excerpt (declarationValue .css)).Keeps .any (Promise.tokens continuesScript) :=
    Keeps.map (Keeps.capture_tokens keeps_declarationValue_tokens)
  have hcolons : (symbol [':']).Keeps .any (Promise.tokens continuesScript) :=
    keeps_symbol_tokens continuesScript_of_isTrivia (continuesScript_of_subset (by simp))
  have hnames : (identifier .css).Keeps .any (Promise.tokens continuesScript) :=
    keeps_identifier_tokens continuesScript_of_isTrivia continuesScript_of_isUnit
  obtain ⟨u₁, rfl, h₁⟩ := hnames.exists_used hproperty
  obtain ⟨u₂, rfl, h₂⟩ := hcolons.exists_used hcolon
  obtain ⟨u₃, rfl, h₃⟩ := hvalues.exists_used hvalue
  obtain ⟨u₄, rfl, h₄⟩ := keeps_importantMark_tokens.optional_tokens.exists_used hmark
  have hparts : ∀ token ∈ u₁ ++ (u₂ ++ (u₃ ++ u₄)), continuesScript token :=
    List.forall_mem_append.mpr ⟨h₁, List.forall_mem_append.mpr ⟨h₂,
      List.forall_mem_append.mpr ⟨h₃, h₄⟩⟩⟩
  rcases statementEnd_run_cases hend with hsign | ⟨rfl, htrivia⟩
  · obtain ⟨gap, hgap, htrivia⟩ := exists_gap m₄
    have hlater : IsLexed region.config (dropTrivia m₄) := by
      have hlast := hlexed.of_append.of_append.of_append.of_append
      rw [hgap] at hlast
      exact hlast.of_append
    obtain ⟨semicolon, hsemicolon, hkind⟩ := hlater.exists_sign (symbol_run_eq_ok.mp hsign).2
    rw [hsemicolon] at hgap
    refine ⟨u₁ ++ (u₂ ++ (u₃ ++ u₄)) ++ gap, ?_, .inr ⟨semicolon, hkind, by rw [hgap]; simp⟩⟩
    exact List.forall_mem_append.mpr
      ⟨hparts, fun token htoken => continuesScript_of_isTrivia token (htrivia token htoken)⟩
  · exact ⟨_, hparts, .inl ⟨by simp, htrivia⟩⟩

/-- A significant token that does not end script is one more token of it. -/
theorem scriptLength_cons {token : Token} (hsignificant : token.isSignificant)
    (hcontinues : continuesScript token) (tail : List Token) :
    scriptLength (token :: tail) = scriptLength tail + 1 := by
  simp only [continuesScript, Bool.and_eq_true, Bool.not_eq_true'] at hcontinues
  rw [scriptLength, isTrivia_eq_false_of_significant hsignificant, hcontinues.1, hcontinues.2]
  rfl

/-- A semicolon is the last token of a script statement. -/
theorem scriptLength_cons_of_isSemicolon {token : Token} (h : token.isSemicolon)
    (tail : List Token) : scriptLength (token :: tail) = 1 := by
  have htrivia := isTrivia_eq_false_of_significant (isSignificant_of_isSymbol h)
  rw [scriptLength, htrivia, h]
  rfl

/-- A script statement runs through tokens that do not end it. -/
theorem scriptLength_append {front tail : List Token}
    (hfront : ∀ token ∈ front, continuesScript token ∧ (token.isTrivia → ¬ breaksLine token))
    (htail : scriptLength tail ≠ 0) :
    scriptLength (front ++ tail) = front.length + scriptLength tail := by
  induction front with
  | nil => simp
  | cons token front ih =>
    obtain ⟨⟨hcontinues, hline⟩, hfront⟩ := List.forall_mem_cons.mp hfront
    rw [List.cons_append, List.length_cons]
    by_cases htrivia : token.isTrivia
    · obtain ⟨length, hlength⟩ := Nat.exists_eq_add_one_of_ne_zero htail
      rw [scriptLength, if_pos htrivia, if_neg (hline htrivia), ih hfront, hlength, ← Nat.add_assoc]
      dsimp only
      omega
    · rw [scriptLength_cons (by simpa [Token.isSignificant] using htrivia) hcontinues, ih hfront]
      omega

/-- A plain declaration on one line has as many tokens as script that begins there. -/
theorem scriptLength_of_declaration (hlexed : IsLexed region.config rest)
    (h : (declaration .css).run region rest = ⟨.ok node, next⟩) {used : List Token}
    (hused : rest = used ++ next) (hends : EndsSignificant used)
    (hline : '\n' ∉ spelling (dropTrivia used)) :
    scriptLength (dropTrivia used ++ next) = (dropTrivia used).length := by
  have hinner {part front : List Token} (hfront : ∀ token ∈ front, continuesScript token)
      (hpart : part ⊆ dropTrivia used) (hmem : part ⊆ front) :
      ∀ token ∈ part, continuesScript token ∧ (token.isTrivia → ¬ breaksLine token) := by
    refine fun token htoken => ⟨hfront token (hmem htoken), fun _ hbreaks => hline ?_⟩
    exact List.mem_flatMap.mpr ⟨token, hpart htoken, List.contains_iff_mem.mp hbreaks⟩
  obtain ⟨front, hfront, ⟨hrest, hnext⟩ | ⟨semicolon, hsemicolon, hrest⟩⟩ :=
    exists_front_of_declaration hlexed h
  · obtain rfl : used = front := List.append_cancel_right (hused.symm.trans hrest)
    have hmem : dropTrivia used ⊆ used := (List.dropWhile_sublist _).subset
    obtain ⟨init, last, hlast, hsignificant⟩ := hends.dropTrivia
    rw [hlast] at hinner hmem ⊢
    have hone : scriptLength (last :: next) = 1 := by
      rw [scriptLength_cons hsignificant (hfront last (hmem (by simp))),
        scriptLength_of_allTrivia hnext]
    have hinit := hinner hfront (List.subset_append_left init [last])
      (List.Subset.trans (List.subset_append_left init [last]) hmem)
    rw [List.append_assoc, List.singleton_append, scriptLength_append hinit (by rw [hone]; simp),
      hone, List.length_append, List.length_singleton]
  · obtain rfl : used = front ++ [semicolon] :=
      List.append_cancel_right (hused.symm.trans (by rw [hrest]; simp))
    have hsignificant : semicolon.isSignificant := isSignificant_of_isSymbol hsemicolon
    have hone := scriptLength_cons_of_isSemicolon hsemicolon next
    rw [dropTrivia_append_cons _ hsignificant] at hinner ⊢
    have hinit := hinner hfront (List.subset_append_left (dropTrivia front) [semicolon])
      (List.dropWhile_sublist _).subset
    rw [List.append_assoc, List.singleton_append, scriptLength_append hinit (by rw [hone]; simp),
      hone, List.length_append, List.length_singleton]

/-- A plain declaration on one line is a script statement. -/
theorem script_run_of_declaration (hlexed : IsLexed region.config rest)
    (h : (declaration .css).run region rest = ⟨.ok node, next⟩) (hline : '\n' ∉ node.source) :
    script.run region rest = ⟨.ok (.leaf (.script node.excerpt)), next⟩ := by
  have hplace : Place.block.HasDeclarations := .inl rfl
  obtain ⟨used, hused, hends, hnode⟩ := (keeps_declaration .css hplace).exists_used h
  rw [hnode.source_eq] at hline
  have hlength := scriptLength_of_declaration hlexed h hused hends hline
  have hrest : dropTrivia rest = dropTrivia used ++ next := by
    rw [hused, hends.dropTrivia_append]
  obtain ⟨_, _, _, _, _, _, _, _, _, _, _, _, _, rfl⟩ := declaration_run_eq_ok.mp h
  generalize dropTrivia used = part at hnode hlength hrest
  cases hnode with
  | leaf hleaf =>
    obtain ⟨first, more, rfl, -, hexcerpt⟩ := hleaf.source.begins
    rw [List.cons_append] at hlength hrest
    unfold script
    dsimp only
    rw [hrest]
    dsimp only
    rw [hlength, ← List.cons_append, List.take_left, List.drop_left, Node.excerpt, hexcerpt]

/-- The source of a statement is that of tokens of a text, the first of which is significant. -/
theorem exists_source_of_statement {dialect : Dialect} {place : Place} {statement : Parser Node}
    (hkeeps : statement.Keeps .any (Promise.statement dialect place))
    (hlexed : IsLexed region.config rest) (h : statement.run region rest = ⟨.ok node, next⟩) :
    ∃ token more, dropTrivia rest = token :: (more ++ next) ∧
      IsLexed region.config (token :: more) ∧ node.source = spelling (token :: more) := by
  obtain ⟨used, hused, hends, hnode⟩ := hkeeps.exists_used h
  have hdropped : dropTrivia rest = dropTrivia used ++ next := by
    rw [hused, hends.dropTrivia_append]
  have hpart : IsLexed region.config (dropTrivia used) := by
    refine hlexed.of_isInfix ⟨rest.takeWhile Token.isTrivia, next, ?_⟩
    rw [List.append_assoc, ← hdropped]
    exact List.takeWhile_append_dropWhile
  have hsource := hnode.source_eq
  cases hfirst : dropTrivia used with
  | nil => exact absurd hfirst hends.dropTrivia.ne_nil
  | cons token more =>
    rw [hfirst] at hdropped hpart hsource
    exact ⟨token, more, hdropped, hpart, hsource⟩

/-- A plain declaration begins with a unit, and with a keyword when that unit is one. -/
theorem exists_first_of_declaration (hlexed : IsLexed region.config rest)
    (h : (declaration .css).run region rest = ⟨.ok node, next⟩) :
    ∃ token following, dropTrivia rest = token :: following ∧ isUnit token ∧
      startsWithKeyword node.source = isScriptKeyword token := by
  have hplace : Place.block.HasDeclarations := .inl rfl
  obtain ⟨first, more, hfirst, hpart, hsource⟩ :=
    exists_source_of_statement (keeps_declaration .css hplace) hlexed h
  obtain ⟨_, _, _, _, _, _, _, _, hproperty, -⟩ := declaration_run_eq_ok.mp h
  obtain ⟨token, following, hrest, hunit⟩ := exists_unit_of_identifier hproperty
  obtain ⟨rfl, -⟩ := List.cons.inj (hfirst.symm.trans hrest)
  exact ⟨first, following, hrest, hunit, hsource ▸ hpart.startsWithKeyword_of_unit hunit⟩

variable {bodies : Bodies} {stop : Token} {back : List Token}

/-- Up to a token that a matcher does not match, the matcher moves on or refuses. -/
theorem tokenWhere_run_cases (hrest : LeadsTo (stop :: back) rest) (hstop : stop.isSignificant)
    (test : Token → Bool) (htest : test stop = false) (wanted : Text) (region : Region) :
    (∃ token next, (tokenWhere wanted test).run region rest = ⟨.ok token, next⟩ ∧
      LeadsTo (stop :: back) next) ∨ (tokenWhere wanted test).Refuses region rest := by
  have hends := (keeps_tokenWhere wanted test).outcome_ne_endless region rest
  rcases (failsOutside_tokenWhere wanted test).run_cases hends with ⟨token, next, hrun⟩ | hrefuses
  · exact .inl ⟨token, next, hrun, hrest.of_tokenWhere hstop htest hrun⟩
  · exact .inr hrefuses

/-- Up to a token that is no literal, the word of a variable is moved over or refused. -/
theorem varKeyword_run_cases (hrest : LeadsTo (stop :: back) rest) (hstop : stop.isSignificant)
    (hliteral : stop.kind ≠ .literal) (region : Region) :
    (∃ word next, varKeyword.run region rest = ⟨.ok word, next⟩ ∧ LeadsTo (stop :: back) next) ∨
      varKeyword.Refuses region rest := by
  have hkeyword (text : Text) : stop.isLiteral text = false := by simp [Token.isLiteral, hliteral]
  have houtside : varKeyword.FailsOutside := by
    refine failsOutside_firstOf ?_
    simp only [List.forall_mem_cons]
    exact ⟨(failsOutside_tokenWhere _ _).map _, (failsOutside_tokenWhere _ _).map _,
      (failsOutside_tokenWhere _ _).map _, by simp⟩
  have hkeeps : varKeyword.Keeps .any Promise.significant := by
    refine keeps_firstOf ?_
    simp only [List.forall_mem_cons]
    exact ⟨Keeps.map (keeps_keyword _), Keeps.map (keeps_keyword _), Keeps.map (keeps_keyword _),
      by simp⟩
  rcases houtside.run_cases (hkeeps.outcome_ne_endless region rest) with
    ⟨word, next, hrun⟩ | hrefuses
  · obtain ⟨p, hp, hfound⟩ := exists_mem_of_firstOf_run hrun
    refine .inl ⟨word, next, hrun, ?_⟩
    simp only [List.mem_cons, List.not_mem_nil, or_false] at hp
    rcases hp with rfl | rfl | rfl
    all_goals
      obtain ⟨token, htoken, -⟩ := map_run_eq_ok.mp hfound
      exact hrest.of_tokenWhere hstop (hkeyword _) htoken
  · exact .inr hrefuses

/-- Where tokens of selectors lead up to a token that is neither a literal nor the sign of a
variable no variable begins. -/
theorem variableBlock_refuses (hrest : LeadsTo (stop :: back) rest) (hstop : stop.isSignificant)
    (hliteral : stop.kind ≠ .literal) (hequals : afterSymbols ['='] (stop :: back) = none) :
    (variableBlock bodies).Refuses region rest := by
  refine Refuses.bind (Refuses.capture (Refuses.attempt ?_)) _
  obtain ⟨exporting, m₁, hexport, h₁⟩ : ∃ exporting m₁,
      (keyword "export".toList).optional.run region rest = ⟨.ok exporting, m₁⟩ ∧
        LeadsTo (stop :: back) m₁ := by
    have hkeyword : stop.isLiteral "export".toList = false := by simp [Token.isLiteral, hliteral]
    rcases tokenWhere_run_cases hrest hstop (Token.isLiteral · "export".toList) hkeyword
      (quotedName "export".toList) region with
      ⟨token, next, hrun, hnext⟩ | hrefuses
    · exact ⟨some token, next, optional_run_eq_ok.mpr (.inl ⟨token, rfl, rfl, hrun⟩), hnext⟩
    · exact ⟨none, rest, optional_run_of_refuses hrefuses, hrest⟩
  refine Refuses.bind_of_run hexport ?_
  rcases varKeyword_run_cases h₁ hstop hliteral region with ⟨word, m₂, hword, h₂⟩ | hrefuses
  · refine Refuses.bind_of_run (step_run_eq_ok.mpr hword) ?_
    have hkind : (stop.kind == .literal) = false := by simp [hliteral]
    rcases tokenWhere_run_cases h₂ hstop (·.kind == .literal) hkind TokenKind.literal.label
      region with
      ⟨name, m₃, hname, h₃⟩ | hrefuses
    · refine Refuses.bind_of_run (step_run_eq_ok.mpr hname) (Refuses.bind (Refuses.step ?_ 3) _)
      have hsign : afterSymbols ['='] (dropTrivia m₃) = none :=
        afterSymbols_of_leadsTo hequals (by simp [selectorSigns]) (leadsTo_dropTrivia h₃ hstop)
      refine ⟨region.expected (quotedName ['=']) m₃, m₃, ?_, isBlock_expected region _ m₃⟩
      unfold symbol
      dsimp only
      rw [hsign]
    · exact Refuses.bind (Refuses.step hrefuses 2) _
  · exact Refuses.bind (Refuses.step hrefuses 1) _

/-- Where a plain declaration stands in a text no variable begins. -/
theorem variableBlock_refuses_declaration (hlexed : IsLexed region.config rest)
    (h : (declaration .css).run region rest = ⟨.ok node, next⟩) :
    (variableBlock bodies).Refuses region rest := by
  obtain ⟨_, _, _, _, m₁, m₂, _, _, hproperty, hcolon, -⟩ := declaration_run_eq_ok.mp h
  obtain ⟨name, rfl, hname⟩ := keeps_name_tokens.exists_used hproperty
  obtain ⟨gap, hgap, htrivia⟩ := exists_gap m₁
  have hlater : IsLexed region.config (dropTrivia m₁) := by
    have hlast := hlexed.of_append
    rw [hgap] at hlast
    exact hlast.of_append
  obtain ⟨colon, hrest, hkind⟩ := hlater.exists_sign (symbol_run_eq_ok.mp hcolon).2
  rw [hrest] at hgap
  have hsignificant := isSignificant_of_isSymbol hkind
  rw [Token.isSymbol, Bool.and_eq_true, beq_iff_eq, beq_iff_eq] at hkind
  have hstop : LeadsTo (colon :: m₂) (name ++ m₁) := by
    refine ⟨name ++ gap, by rw [hgap, List.append_assoc], List.forall_mem_append.mpr ⟨hname, ?_⟩⟩
    exact fun token htoken => isSelectorToken_of_isTrivia token (htrivia token htoken)
  refine variableBlock_refuses hstop hsignificant ?_ ?_
  · rw [hkind.1]
    simp
  · exact afterSymbols_of_ne hkind.2 (by simp) _ _

/-- A unit begins no spread. -/
theorem isSpreadStart_of_isUnit {token : Token} (h : isUnit token) :
    isSpreadStart token = false := by
  rcases unit_cases h with ⟨hkind, -⟩ | ⟨-, hvalue⟩
  · simp [isSpreadStart, hkind]
  · have hne : token.value.head? ≠ some '.' := by
      intro hhead
      have hdash := hvalue (List.mem_of_mem_head? hhead)
      simp at hdash
    simp [isSpreadStart, hne]

end StyleSyntax.Grammar
