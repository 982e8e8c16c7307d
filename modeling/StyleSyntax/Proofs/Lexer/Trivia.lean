import StyleSyntax.Proofs.Lexer.Truncation
import StyleSyntax.Proofs.Token.Trimmed

/-!
# Texts of whitespace and comments

A text is trivia when it splits into whitespace and comments alone. A run of such tokens that is cut
out of a text splits into the same tokens again, so its spelling is trivia.
-/

namespace StyleSyntax

variable {config : LexerConfig}

/-- The text splits into whitespace and comments alone. -/
def IsTriviaText (config : LexerConfig) (text : Text) : Prop :=
  ∃ origin tokens, tokensOf config text origin = .ok tokens ∧ AllTrivia tokens

/-- Trivia at the beginning of split runs is trivia at the beginning of the tokens. -/
theorem exists_of_splitSymbolRuns_eq_append {tokens gap rest : List Token}
    (h : splitSymbolRuns tokens = gap ++ rest) (hgap : AllTrivia gap) :
    ∃ later, tokens = gap ++ later := by
  induction gap generalizing tokens with
  | nil => exact ⟨tokens, rfl⟩
  | cons token gap ih =>
    rw [AllTrivia, List.forall_mem_cons] at hgap
    cases tokens with
    | nil => cases h
    | cons first tokens =>
      rw [splitSymbolRuns_cons] at h
      split_ifs at h with hrun
      · obtain ⟨c, more, hvalue⟩ : ∃ c more, first.value = c :: more := by
          apply List.exists_cons_of_ne_nil
          intro hnil
          simp [Token.isSymbolRun, hnil] at hrun
        rw [hvalue] at h
        obtain ⟨rfl, _⟩ := List.cons.inj h
        cases hgap.1
      · obtain ⟨rfl, hrest⟩ := List.cons.inj h
        obtain ⟨later, rfl⟩ := ih hrest hgap.2
        exact ⟨later, rfl⟩

/-- A run of trivia among split runs was a run of trivia before. -/
theorem exists_append_of_splitSymbolRuns {tokens front gap rest : List Token} {first : Token}
    (h : splitSymbolRuns tokens = front ++ (first :: gap ++ rest))
    (hgap : AllTrivia (first :: gap)) :
    ∃ before after, tokens = before ++ (first :: gap ++ after) := by
  induction tokens generalizing front with
  | nil => simp at h
  | cons token tokens ih =>
    cases front with
    | nil =>
      rw [List.nil_append] at h
      obtain ⟨later, hlater⟩ := exists_of_splitSymbolRuns_eq_append h hgap
      exact ⟨[], later, hlater⟩
    | cons head front =>
      rw [splitSymbolRuns_cons] at h
      obtain ⟨front', hfront⟩ : ∃ front', splitSymbolRuns tokens =
          front' ++ (first :: gap ++ rest) := by
        split_ifs at h
        · rcases List.append_eq_append_iff.mp h with
            ⟨between, _, hbetween⟩ | ⟨between, hpieces, hbetween⟩
          · exact ⟨between, hbetween⟩
          · cases between with
            | nil => exact ⟨[], hbetween.symm⟩
            | cons piece between =>
              -- The run of trivia cannot begin among the pieces of a symbol.
              obtain ⟨rfl, _⟩ := List.cons.inj hbetween
              have hsymbol : first.kind = .symbol :=
                kind_of_mem_symbolsOf (by rw [hpieces]; simp)
              have htrivia := hgap first List.mem_cons_self
              rw [Token.isTrivia, hsymbol] at htrivia
              cases htrivia
        · exact ⟨front, (List.cons.inj h).2⟩
      obtain ⟨before, after, rfl⟩ := ih hfront
      exact ⟨token :: before, after, rfl⟩

/-- A run of trivia among the split tokens of a text spells trivia. -/
theorem isTriviaText_of_isInfix {text : Text} {position : Position} {tokens gap : List Token}
    (h : tokensOf config text position = .ok tokens) (hpart : gap <:+: splitSymbolRuns tokens)
    (hgap : AllTrivia gap) : IsTriviaText config (spelling gap) := by
  cases gap with
  | nil => exact ⟨position, [], by simp [tokensOf], hgap⟩
  | cons first gap =>
    obtain ⟨front, rest, hsplit⟩ := hpart
    rw [List.append_assoc] at hsplit
    obtain ⟨before, after, rfl⟩ := exists_append_of_splitSymbolRuns hsplit.symm hgap
    have hinfix : first :: gap <:+: before ++ (first :: gap ++ after) :=
      ⟨before, after, List.append_assoc _ _ _⟩
    obtain ⟨origin, hspelling⟩ := exists_tokensOf_of_isInfix h hinfix
    exact ⟨origin, first :: gap, hspelling, hgap⟩

end StyleSyntax
