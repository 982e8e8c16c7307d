import StyleSyntax.Proofs.Grammar.SharedDeclarations
import StyleSyntax.Proofs.RuleSet.Selectors

/-!
# Declarations are read as they are written

The tokens of a value are no semicolons and no exclamation marks, and brace regions stand among them
in the extended language alone, behind a dollar sign. So a value is read up to the semicolon or to
the end of the body, without the gap before that end, and a declaration with it.
-/

namespace StyleSyntax.RuleSet

open StyleSyntax.Parser StyleSyntax.Grammar

variable {text next gap : Text} {tokens used later : List Token} {dialect : Dialect}

/-- A token that a value may hold wherever it stands. -/
def isPlainValueToken (token : Token) : Bool :=
  !token.isBraces && !token.isSemicolon && !token.isSymbol ['!']

/-- Tokens that a value may hold: plain ones, and in the extended language interpolations. -/
inductive ValueTokens (dialect : Dialect) : List Token → Prop
  | nil : ValueTokens dialect []
  | plain {token : Token} {rest : List Token} : isPlainValueToken token →
      ValueTokens dialect rest → ValueTokens dialect (token :: rest)
  | interpolation {dollar region : Token} {rest : List Token} : dialect = .jss →
      dollar.kind = .literal → dollar.value.getLast? = some '$' → region.isBraces →
      ValueTokens dialect rest → ValueTokens dialect (dollar :: region :: rest)

namespace ValueTokens

/-- Plain tokens may stand in a value. -/
theorem of_forall (h : ∀ token ∈ tokens, isPlainValueToken token) : ValueTokens dialect tokens := by
  induction tokens with
  | nil => exact nil
  | cons token rest ih =>
    rw [List.forall_mem_cons] at h
    exact plain h.1 (ih h.2)

/-- Trivia may stand in a value. -/
theorem of_allTrivia (h : AllTrivia tokens) : ValueTokens dialect tokens := by
  refine of_forall fun token htoken => ?_
  have htrivia := h token htoken
  obtain ⟨kind, value, position⟩ := token
  cases kind <;> first | rfl | cases htrivia

/-- Tokens of values one after another. -/
theorem append (hused : ValueTokens dialect used) (hlater : ValueTokens dialect later) :
    ValueTokens dialect (used ++ later) := by
  induction hused with
  | nil => exact hlater
  | plain htoken _ ih => exact plain htoken ih
  | interpolation hdialect hkind hdollar hbraces _ ih =>
    exact interpolation hdialect hkind hdollar hbraces ih

/-- The tokens of a value belong to it, whatever stands before them. -/
theorem valueExtent_append (hused : ValueTokens dialect used) {n : Nat}
    (hlater : ∀ previous, valueExtent (·.isSymbol ['!']) (valueAllows dialect) previous later =
      (n, false)) (previous : Option Token) :
    valueExtent (·.isSymbol ['!']) (valueAllows dialect) previous (used ++ later) =
      (used.length + n, false) := by
  have hcons {token : Token} {rest : List Token} {m : Nat} (previous : Option Token)
      (hstop : (token.isSemicolon || token.isSymbol ['!']) = false)
      (hallows : valueAllows dialect previous token)
      (hrest : valueExtent (·.isSymbol ['!']) (valueAllows dialect) (some token) rest =
        (m, false)) :
      valueExtent (·.isSymbol ['!']) (valueAllows dialect) previous (token :: rest) =
        (m + 1, false) := by
    rw [valueExtent, if_neg (by simp [hstop]), if_pos hallows, hrest]
  induction hused generalizing previous with
  | nil => rw [List.nil_append, hlater, List.length_nil, Nat.zero_add]
  | @plain token rest htoken _ ih =>
    simp only [isPlainValueToken, Bool.and_eq_true, Bool.not_eq_true'] at htoken
    obtain ⟨⟨hbraces, hsemicolon⟩, hmark⟩ := htoken
    rw [List.cons_append, hcons previous (by simp [hsemicolon, hmark])
      (by simp [valueAllows, hbraces]) (ih _), List.length_cons]
    congr 1
    omega
  | @interpolation dollar region rest hdialect hkind hdollar hbraces _ ih =>
    have hregion : (region.isSemicolon || region.isSymbol ['!']) = false := by
      have hkind : region.kind ≠ .symbol := kind_ne_of_isBraces hbraces rfl
      simp [Token.isSemicolon, Token.isSymbol, hkind]
    have hstop : (dollar.isSemicolon || dollar.isSymbol ['!']) = false := by
      simp [Token.isSemicolon, Token.isSymbol, hkind]
    have hplain : dollar.isBraces = false := by
      simp [Token.isBraces, hkind, TokenKind.isBraces]
    rw [List.cons_append, List.cons_append, hcons previous hstop (by simp [valueAllows, hplain])
      (hcons _ hregion (by simp [valueAllows, hdialect, hkind, hdollar]) (ih _))]
    simp only [List.length_cons]
    congr 1
    omega

end ValueTokens

/-- The end of a statement and what may stand behind it: a semicolon and anything, or no semicolon
and a gap up to the end of the body. -/
inductive EndsStatement : Text → Text → Prop
  | semicolon (next : Text) : EndsStatement [';'] next
  | gap {gap : Gap} : gap.IsClear → EndsStatement [] gap.text

namespace EndsStatement

variable {ending : Text}

/-- What stands behind a value ends it at once, or is trivia. -/
theorem exists_valueExtent (h : EndsStatement ending next) (hlater : Lexes (ending ++ next) later)
    (dialect : Dialect) :
    ∃ n, AllTrivia (later.take n) ∧
      ∀ previous, valueExtent (·.isSymbol ['!']) (valueAllows dialect) previous later =
        (n, false) := by
  cases h with
  | semicolon =>
    have hsign : IsLexeme .symbol [';'] next := .sign (by decide) (by decide) next
    obtain ⟨position, more, rfl, _⟩ := hsign.exists_of_lexes hlater
    refine ⟨0, by simp [AllTrivia], fun previous => ?_⟩
    rw [valueExtent, if_pos (by simp [Token.isSemicolon, Token.isSymbol])]
  | gap hgap =>
    have htrivia := (Gap.isGapText hgap).allTrivia hlater
    refine ⟨later.length, by rwa [List.take_length], fun previous => ?_⟩
    have hvalue : ValueTokens dialect later := .of_allTrivia htrivia
    have hnone (previous : Option Token) :
        valueExtent (·.isSymbol ['!']) (valueAllows dialect) previous [] = (0, false) := rfl
    simpa using hvalue.valueExtent_append hnone previous

/-- No literal character stands behind a value. -/
theorem head (h : EndsStatement ending next) :
    ∀ c ∈ (ending ++ next).head?, Reader.isLiteralChar c = false := by
  cases h with
  | semicolon =>
    rintro c ⟨rfl⟩
    decide
  | @gap gap hgap =>
    have hends : EndsName (gap.text ++ []) := gap.endsName (by simp [EndsName])
    rw [List.append_nil] at hends
    exact fun c hc => (hends c hc).1

/-- No mark of importance stands at the end of a statement. -/
theorem importantMark_refuses (h : EndsStatement ending next) :
    importantMark.RefusesText (ending ++ next) := by
  cases h with
  | semicolon => exact ((symbol_refuses .nil (.cons (by decide) next) []).bind _).attempt
  | gap hgap => exact ((symbol_refuses_gap (Gap.isGapText hgap) []).bind _).attempt

/-- The end of a statement is read. -/
theorem reads_statementEnd (h : EndsStatement ending next) :
    statementEnd.Reads ending next fun _ => True := by
  cases h with
  | semicolon =>
    have hsign : (symbol [';']).Reads [';'] next (· = [';']) :=
      reads_symbol .nil (by decide) (by decide) next
    exact (hsign.mono fun _ _ => trivial).map.firstOf (fun _ => rfl) _
  | gap hgap =>
    have hsign := (symbol_refuses_gap (c := ';') (Gap.isGapText hgap) []).map fun _ => ()
    refine Reads.firstOf_of_declines hsign.declines (Reads.firstOf (fun _ => rfl) ?_ [])
    intro region tokens _ htokens
    have htrivia := (Gap.isGapText hgap).allTrivia htokens
    exact ⟨(), [], tokens, rfl, htokens, endOfInput_run_eq_ok.mpr ⟨rfl, htrivia⟩, trivial⟩

end EndsStatement

/-- Tokens of a text that a value may hold, the last of them significant. -/
def IsValueText (dialect : Dialect) (text : Text) : Prop :=
  ∀ ⦃next tokens⦄, (∀ c ∈ next.head?, Reader.isLiteralChar c = false) →
    Lexes (text ++ next) tokens →
    ∃ used later, tokens = used ++ later ∧ Lexes next later ∧ ValueTokens dialect used ∧
      EndsSignificant used

/-- A token of a word is no trivia. -/
theorem isSignificant_of_isWordToken {token : Token} (h : isWordToken token) :
    token.isSignificant := by
  rcases h with hliteral | ⟨hsymbol, -⟩
  · exact isSignificant_of_kind (by rw [hliteral]; rfl)
  · exact isSignificant_of_kind (by rw [hsymbol]; rfl)

/-- A token of a word may stand in a value: no character of words ends one. -/
theorem isPlainValueToken_of_isWordToken {token : Token} (h : isWordToken token)
    (hword : ∀ c ∈ token.value, isWordChar c) : isPlainValueToken token := by
  rcases h with hliteral | ⟨hsymbol, c, hvalue, -⟩
  · simp [isPlainValueToken, Token.isBraces, Token.isSemicolon, Token.isSymbol, hliteral,
      TokenKind.isBraces]
  · have hc : isWordChar c := hword c (by simp [hvalue])
    have hsemicolon : c ≠ ';' := by
      rintro rfl
      cases hc
    have hmark : c ≠ '!' := by
      rintro rfl
      cases hc
    simp [isPlainValueToken, Token.isBraces, Token.isSemicolon, Token.isSymbol, hsymbol,
      TokenKind.isBraces, hvalue, hsemicolon, hmark]

/-- Words may stand in a value, interpolations in the extended language alone. -/
theorem Word.isValueText (word : Word) (hdialect : dialect = .css → word.isPlain) :
    IsValueText dialect word.text := by
  intro next tokens hnext htokens
  cases word with
  | plain text hne hall =>
    have hword := List.all_eq_true.mp hall
    obtain ⟨units, later, rfl, hlater, hspelling, hunits⟩ := exists_units htokens hword hnext
    change spelling units = text at hspelling
    refine ⟨units, later, rfl, hlater, .of_forall fun unit hunit => ?_,
      endsSignificant_of_forall ?_ fun unit hunit =>
        isSignificant_of_isWordToken (hunits unit hunit)⟩
    · refine isPlainValueToken_of_isWordToken (hunits unit hunit) fun c hc => hword c ?_
      rw [← hspelling]
      exact List.mem_flatMap.mpr ⟨unit, hunit, hc⟩
    · rintro rfl
      exact hne hspelling.symm
  | interpolation name =>
    have hjss : dialect = .jss := by
      cases dialect with
      | css => cases hdialect rfl
      | jss => rfl
    have hdollar : IsLexeme .literal ['$'] ('\x7b' :: name.text ++ ['\x7d'] ++ next) := by
      refine .word (by simp) (List.all_iff_forall_prop.mp (by decide)) ?_
      rintro c ⟨rfl⟩
      decide
    have hbraces : IsLexeme .lazyBlock ('\x7b' :: name.text ++ ['\x7d']) next :=
      .braces (name.isRegular.passesOver _)
    obtain ⟨position, following, rfl, hfollowing⟩ := hdollar.exists_of_lexes htokens
    obtain ⟨origin, later, rfl, hlater⟩ := hbraces.exists_of_lexes hfollowing
    exact ⟨[⟨.literal, ['$'], position⟩, ⟨.lazyBlock, '\x7b' :: name.text ++ ['\x7d'], origin⟩],
      later, rfl, hlater, .interpolation hjss rfl rfl rfl .nil,
      ⟨[⟨.literal, ['$'], position⟩], _, rfl, rfl⟩⟩

/-- Behind a space a value may go on. -/
theorem IsValueText.space {a b : Text} (ha : IsValueText dialect a) (hb : IsValueText dialect b)
    (hsolid : BeginsWith (isSolid ·) b) : IsValueText dialect (a ++ ' ' :: b) := by
  intro next tokens hnext htokens
  rw [List.append_assoc] at htokens
  have hhead : ∀ c ∈ (' ' :: b ++ next).head?, Reader.isLiteralChar c = false := by
    rintro c ⟨rfl⟩
    decide
  have hspace : IsLexeme .space [' '] (b ++ next) := by
    obtain ⟨c, rest, rfl, hc⟩ := hsolid.exists_cons
    refine .spaces (by simp) (List.all_iff_forall_prop.mp (by decide)) ?_
    rintro d ⟨rfl⟩
    simp only [isSolid, Bool.and_eq_true, Bool.not_eq_true'] at hc
    exact hc.1.1
  obtain ⟨front, middle, rfl, hmiddle, hfront, _⟩ := ha hhead htokens
  obtain ⟨position, back, rfl, hback⟩ := hspace.exists_of_lexes hmiddle
  obtain ⟨used, later, rfl, hlater, hused, hends⟩ := hb hnext hback
  have hgap : ValueTokens dialect [⟨.space, [' '], position⟩] :=
    .of_allTrivia (List.forall_mem_singleton.mpr rfl)
  exact ⟨front ++ ([⟨.space, [' '], position⟩] ++ used), later, by simp, hlater,
    hfront.append (hgap.append hused), (hends.append_left _).append_left _⟩

/-- A word begins with no whitespace and no comment. -/
theorem Word.beginsWith (word : Word) : BeginsWith (isSolid ·) word.text := by
  cases word with
  | interpolation name => exact .cons (by decide) _
  | plain text hne hall =>
    have hword := List.all_eq_true.mp hall
    obtain ⟨c, rest, rfl⟩ := List.exists_cons_of_ne_nil hne
    refine .cons ?_ rest
    rcases (Bool.or_eq_true _ _).mp (hword c List.mem_cons_self) with hname | hsign
    · exact isSolid_of_isNameChar hname
    · have hsigns : ∀ d ∈ ['.', '+', '%', '#'], isSolid d := List.all_iff_forall_prop.mp (by decide)
      exact hsigns c (by simpa using hsign)

/-- Words with a space between two may stand in a value. -/
theorem isValueText_words (first : Word) (others : List Word)
    (hdialect : dialect = .css → ∀ word ∈ first :: others, word.isPlain) :
    IsValueText dialect (first.text ++ others.flatMap fun word => ' ' :: word.text) := by
  induction others generalizing first with
  | nil =>
    rw [List.flatMap_nil, List.append_nil]
    exact first.isValueText fun hcss => hdialect hcss _ List.mem_cons_self
  | cons second others ih =>
    have hfirst := first.isValueText fun hcss => hdialect hcss _ List.mem_cons_self
    have hlater := ih second fun hcss word hword =>
      hdialect hcss word (List.mem_cons_of_mem _ hword)
    rw [List.flatMap_cons]
    exact hfirst.space hlater (second.beginsWith.append _)

/-- A value is read behind a gap up to the end of the statement. -/
theorem reads_declarationValue {ending : Text} (hgap : IsGapText gap)
    (hvalue : IsValueText dialect text) (hsolid : BeginsWith (isSolid ·) text)
    (hends : EndsStatement ending next) :
    (declarationValue dialect).Reads (gap ++ text) (ending ++ next) fun _ => True := by
  intro region tokens _ htokens
  rw [List.append_assoc] at htokens
  obtain ⟨front, token, more, rfl, hfront, _, hmore, _⟩ :=
    hgap.exists_significant (hsolid.append _) htokens
  obtain ⟨used, later, hsplit, hlater, hused, hlast⟩ := hvalue hends.head hmore
  obtain ⟨n, htrivia, hextent⟩ := hends.exists_valueExtent hlater dialect
  have hlength := ((ValueTokens.of_allTrivia hfront).append hused).valueExtent_append hextent none
  have hkept := significantLength_append (.inr (hlast.append_left front)) htrivia
  have hpos := List.length_pos_of_ne_nil (hlast.append_left front).ne_nil
  rw [hsplit, ← List.append_assoc]
  refine ⟨(), front ++ used, later, rfl, hlater, ?_, trivial⟩
  unfold declarationValue value
  dsimp only
  rw [hlength]
  dsimp only
  rw [List.take_length_add_append, hkept, if_neg (by simp), if_neg (by omega), List.drop_left]

/-- What is asked of a declaration so that its text can be read in a language: no comment in it ends
early, and in the plain language its value has no interpolation. -/
structure Declaration.IsReadable (dialect : Dialect) (declaration : Declaration) : Prop where
  clear : declaration.IsClear
  isPlain : dialect = .css → ∀ word ∈ declaration.words, word.isPlain

/-- A declaration is read with its property and its value, as far as the end of the statement. -/
theorem reads_declaration {ending : Text} {declaration : Declaration}
    (h : declaration.IsReadable dialect) (hends : EndsStatement ending next) :
    (Grammar.declaration dialect).Reads (declaration.text ++ ending) next
      fun node => node.outline? = some declaration.outline := by
  have hvalue : IsValueText dialect declaration.value :=
    isValueText_words declaration.first declaration.others h.isPlain
  have hsolid : BeginsWith (isSolid ·) declaration.value := declaration.first.beginsWith.append _
  have hbefore := Gap.isGapText h.clear.beforeColon
  have hafter := Gap.isGapText h.clear.afterColon
  have htext : declaration.text ++ ending = declaration.property.text ++
      ((declaration.beforeColon.text ++ [':']) ++
        ((declaration.afterColon.text ++ declaration.value) ++ ending)) := by
    simp [Declaration.text]
  have hsource : BeginsWith (isSolid ·) (declaration.text ++ ending) := by
    rw [htext]
    exact declaration.property.beginsSolid _
  have hexcerpt : (excerpt (declarationValue dialect)).Reads
      (declaration.afterColon.text ++ declaration.value) (ending ++ next)
      fun found => found.text = declaration.value :=
    (((reads_declarationValue hafter hvalue hsolid hends).capture hafter hsolid).mono
      fun _ hcaptured => hcaptured.2).map
  have hmark := Reads.optional_of_refuses hends.importantMark_refuses
  have hparts : (do
      let property ← identifier dialect
      let _ ← step 1 (symbol [':'])
      let value ← step 2 (excerpt (declarationValue dialect))
      let mark ← step 3 importantMark.optional
      step 4 statementEnd
      return (property, value, mark.isSome) : Parser (Excerpt × Excerpt × Bool)).Reads
        (declaration.text ++ ending) next fun found =>
          found.1.text = declaration.property.text ∧ found.2.1.text = declaration.value := by
    rw [htext]
    refine (reads_identifier dialect declaration.property.toName ?_).bind fun property hproperty =>
      ((reads_symbol hbefore (by decide) (by decide) _).step 1).bind fun _ _ =>
        (hexcerpt.step 2).bind fun value hvalue =>
          (hmark.step 3).bind_nothing fun mark _ =>
            (hends.reads_statementEnd.step 4).bind_pure fun _ _ => ⟨hproperty, hvalue⟩
    simpa using declaration.beforeColon.endsName_colon _
  refine ((hparts.attempt).capture .nil hsource).bind_pure ?_
  rintro ⟨⟨property, value, important⟩, source⟩ ⟨⟨hproperty, hvalue⟩, -⟩
  rw [Node.outline?, hproperty, hvalue]
  rfl

end StyleSyntax.RuleSet
