import StyleSyntax.Proofs.Grammar.Keywords
import StyleSyntax.Proofs.Parser.Success

/-!
# What checks turn away

Semicolons, at-rules, variables and spreads are tried only where the next significant token passes a
check. Where it does not, each of them refuses the tokens of a text: the first thing it asks for is
a token that would have passed. This needs tokens of a text, since punctuation without any character
would be passed over unseen.
-/

namespace StyleSyntax

open StyleSyntax.Parser

/-- The parser refuses all tokens of a text that the test would turn away. -/
structure Parser.GuardedBy {α : Type} (p : Parser α) (test : Token → Bool) : Prop where
  accepts (next : Option Token) : p.accepts next
  refuses {region : Region} {config : LexerConfig} {rest : List Token} : IsLexed config rest →
    (firstSignificant rest).any test = false → p.Refuses region rest

namespace Grammar

variable {region : Region} {rest : List Token} {test narrow : Token → Bool}

/-- What no token passes, no token passes in a narrower form. -/
theorem any_eq_false_of_imp {next : Option Token} (h : next.any test = false)
    (hnarrow : ∀ token, narrow token → test token) : next.any narrow = false := by
  cases next with
  | none => rfl
  | some token =>
    rw [Option.any_some, ← Bool.not_eq_true] at h ⊢
    exact fun htoken => h (hnarrow token htoken)

/-- A token is refused when the next significant one fails the test, or there is none. -/
theorem tokenWhere_refuses_of_any (h : (firstSignificant rest).any test = false) (wanted : Text) :
    (tokenWhere wanted test).Refuses region rest := by
  rw [firstSignificant_eq_head?] at h
  cases hrest : dropTrivia rest with
  | nil =>
    refine ⟨.leaf (.unexpectedEnd wanted) region.finish, rest, ?_, rfl⟩
    simp only [tokenWhere, hrest]
  | cons token following =>
    rw [hrest] at h
    exact tokenWhere_refuses hrest h wanted region

/-- In a text punctuation is refused when its first sign does not come next. -/
theorem symbol_refuses_of_any {config : LexerConfig} (hlexed : IsLexed config rest) {c : Char}
    (h : (firstSignificant rest).any (·.isSymbol [c]) = false) (text : Text) :
    (symbol (c :: text)).Refuses region rest := by
  cases hafter : afterSymbols (c :: text) (dropTrivia rest) with
  | none =>
    refine ⟨region.expected (quotedName (c :: text)) rest, rest, ?_, isBlock_expected region _ rest⟩
    simp only [symbol, hafter]
  | some next =>
    rw [firstSignificant_eq_head?] at h
    cases hrest : dropTrivia rest with
    | nil => rw [hrest] at hafter; cases hafter
    | cons sign following =>
      rw [hrest, afterSymbols_cons (List.cons_ne_nil _ _)] at hafter
      split_ifs at hafter with hsign
      rw [Bool.and_eq_true, beq_iff_eq] at hsign
      have hmem : sign ∈ rest := by
        obtain ⟨gap, hgap, -⟩ := exists_gap rest
        rw [hgap, hrest]
        simp
      obtain ⟨d, hvalue⟩ := hlexed.exists_value_eq hmem hsign.1
      have hstarts := hsign.2
      rw [hvalue] at hstarts
      obtain rfl : d = c := by simpa [Text.startsWith, List.isPrefixOf] using hstarts
      simp [hrest, Token.isSymbol, hsign.1, hvalue] at h

/-- A semicolon is refused where none stands. -/
theorem straySemicolon_guardedBy : straySemicolon.GuardedBy Token.isSemicolon where
  accepts _ := rfl
  refuses hlexed htest :=
    Refuses.map (Refuses.map (Refuses.capture (symbol_refuses_of_any hlexed htest [])) _) _

/-- An at-rule is refused without its sign. -/
theorem atRule_guardedBy (bodies : Bodies) (dialect : Dialect) :
    (atRule bodies dialect).GuardedBy Token.isAt where
  accepts _ := rfl
  refuses {region config rest} _ htest := by
    rw [firstSignificant_eq_head?] at htest
    unfold Refuses atRule
    dsimp only
    cases hrest : dropTrivia rest with
    | nil => exact ⟨_, _, rfl, isBlock_expected _ _ _⟩
    | cons sign following =>
      rw [hrest, List.head?_cons, Option.any_some] at htest
      simp only [htest, Bool.false_eq_true, if_false]
      exact ⟨_, _, rfl, isBlock_expected _ _ _⟩

/-- A variable is refused without a word that begins it. -/
theorem variableBlock_guardedBy (bodies : Bodies) :
    (variableBlock bodies).GuardedBy isVariableStart where
  accepts _ := rfl
  refuses {region config rest} _ htest := by
    have hkeyword (text : Text)
        (htext : text = "export".toList ∨ (VarKeyword.ofText? text).isSome) :
        (keyword text).Refuses region rest := by
      refine tokenWhere_refuses_of_any (any_eq_false_of_imp htest fun token htoken => ?_) _
      rw [Token.isLiteral, Bool.and_eq_true, beq_iff_eq, beq_iff_eq] at htoken
      rw [isVariableStart, htoken.1, htoken.2, Bool.and_eq_true, Bool.or_eq_true]
      exact ⟨rfl, htext.imp_left beq_iff_eq.mpr⟩
    have hword : varKeyword.Refuses region rest := by
      refine refuses_firstOf ?_
      simp only [List.forall_mem_cons]
      exact ⟨fun _ => (hkeyword "const".toList (.inr rfl)).map _,
        fun _ => (hkeyword "let".toList (.inr rfl)).map _,
        fun _ => (hkeyword "var".toList (.inr rfl)).map _, by simp⟩
    exact Refuses.bind (Refuses.capture (Refuses.attempt
      (Refuses.bind_of_run (optional_run_of_refuses (hkeyword "export".toList (.inl rfl)))
        ((hword.step 1).bind _)))) _

/-- A spread is refused without a dot. -/
theorem spread_guardedBy : spread.GuardedBy isSpreadStart where
  accepts _ := rfl
  refuses {region config rest} hlexed htest := by
    have hdot : (firstSignificant rest).any (·.isSymbol ['.']) = false := by
      refine any_eq_false_of_imp htest fun token htoken => ?_
      rw [Token.isSymbol, Bool.and_eq_true, beq_iff_eq, beq_iff_eq] at htoken
      simp [isSpreadStart, htoken.1, htoken.2]
    exact Refuses.bind (Refuses.capture (Refuses.attempt
      (Refuses.bind (symbol_refuses_of_any hlexed hdot ['.', '.']) _))) _

end Grammar

end StyleSyntax
