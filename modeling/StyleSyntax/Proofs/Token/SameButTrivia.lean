import StyleSyntax.Dialect
import StyleSyntax.Parser.Match
import StyleSyntax.Proofs.Lexer.Lossless
import StyleSyntax.Proofs.Token.Trimmed

/-!
# Tokens that differ in their trivia

Two lists have the same significant tokens, and gaps at the same places: before each token and at
the end both have trivia or neither has. What the gaps say may differ, and so may all positions. For
the extended language, which ends script at line breaks, gaps break the line in both lists or in
neither. Breaking runs of punctuation up keeps lists alike.
-/

namespace StyleSyntax

/-- The gaps are both empty or both not, and in the extended language both break the line or neither
does. -/
structure SameGap (dialect : Dialect) (gap gap' : List Token) : Prop where
  trivia : AllTrivia gap
  trivia' : AllTrivia gap'
  nil_iff : gap = [] ↔ gap' = []
  breaks : dialect = .jss → gap'.any Parser.breaksLine = gap.any Parser.breaksLine

/-- The lists have the same significant tokens, apart from their positions, with gaps between them
at the same places. -/
inductive SameButTrivia (dialect : Dialect) : List Token → List Token → Prop
  | last {gap gap' : List Token} : SameGap dialect gap gap' → SameButTrivia dialect gap gap'
  | token {gap gap' rest rest' : List Token} {token token' : Token} :
      SameGap dialect gap gap' → token.isSignificant → token'.kind = token.kind →
      token'.value = token.value → SameButTrivia dialect rest rest' →
      SameButTrivia dialect (gap ++ token :: rest) (gap' ++ token' :: rest')

variable {dialect : Dialect}

namespace SameGap

/-- There may be no gap. -/
theorem nil : SameGap dialect [] [] :=
  ⟨List.forall_mem_nil _, List.forall_mem_nil _, Iff.rfl, fun _ => rfl⟩

/-- Gaps may be put together. -/
theorem append {gap gap' more more' : List Token} (h : SameGap dialect gap gap')
    (hmore : SameGap dialect more more') : SameGap dialect (gap ++ more) (gap' ++ more') where
  trivia := List.forall_mem_append.mpr ⟨h.trivia, hmore.trivia⟩
  trivia' := List.forall_mem_append.mpr ⟨h.trivia', hmore.trivia'⟩
  nil_iff := by rw [List.append_eq_nil_iff, List.append_eq_nil_iff, h.nil_iff, hmore.nil_iff]
  breaks hdialect := by
    rw [List.any_append, List.any_append, h.breaks hdialect, hmore.breaks hdialect]

end SameGap

/-- The same kind is significant in both lists. -/
theorem isSignificant_of_kind_eq {token token' : Token} (hkind : token'.kind = token.kind)
    (h : token.isSignificant) : token'.isSignificant := by
  rwa [Token.isSignificant, Token.isTrivia, hkind]

namespace SameButTrivia

variable {tokens tokens' more more' : List Token}

/-- There may be no tokens. -/
theorem nil : SameButTrivia dialect [] [] :=
  .last .nil

/-- A gap may be put before lists. -/
theorem gap_append {gap gap' : List Token} (hgap : SameGap dialect gap gap')
    (h : SameButTrivia dialect tokens tokens') :
    SameButTrivia dialect (gap ++ tokens) (gap' ++ tokens') := by
  cases h with
  | last hlast => exact .last (hgap.append hlast)
  | token hfirst hsignificant hkind hvalue hrest =>
    rw [← List.append_assoc, ← List.append_assoc]
    exact .token (hgap.append hfirst) hsignificant hkind hvalue hrest

/-- A significant token may be put before lists. -/
theorem cons {token token' : Token} (htoken : token.isSignificant)
    (hkind : token'.kind = token.kind) (hvalue : token'.value = token.value)
    (h : SameButTrivia dialect tokens tokens') :
    SameButTrivia dialect (token :: tokens) (token' :: tokens') :=
  .token .nil htoken hkind hvalue h

/-- Lists that are alike may be put together. -/
theorem append (h : SameButTrivia dialect tokens tokens')
    (hmore : SameButTrivia dialect more more') :
    SameButTrivia dialect (tokens ++ more) (tokens' ++ more') := by
  induction h with
  | last hgap => exact hmore.gap_append hgap
  | token hgap hsignificant hkind hvalue _ ih =>
    rw [List.append_assoc, List.append_assoc]
    exact .token hgap hsignificant hkind hvalue ih

/-- Lists that are alike are both empty or both not. -/
theorem nil_iff (h : SameButTrivia dialect tokens tokens') : tokens = [] ↔ tokens' = [] := by
  cases h with
  | last hgap => exact hgap.nil_iff
  | token => simp

/-- The lists end alike or go on alike behind their gaps. -/
theorem gap_cases (h : SameButTrivia dialect tokens tokens') :
    SameGap dialect (tokens.takeWhile Token.isTrivia) (tokens'.takeWhile Token.isTrivia) ∧
    (dropTrivia tokens = [] ∧ dropTrivia tokens' = [] ∨
      ∃ token token' rest rest', dropTrivia tokens = token :: rest ∧
        dropTrivia tokens' = token' :: rest' ∧ token.isSignificant ∧ token'.kind = token.kind ∧
        token'.value = token.value ∧ SameButTrivia dialect rest rest') := by
  cases h with
  | last hgap =>
    have hall := List.takeWhile_eq_self_iff.mpr hgap.trivia
    have hall' := List.takeWhile_eq_self_iff.mpr hgap.trivia'
    rw [hall, hall']
    exact ⟨hgap, .inl ⟨List.dropWhile_eq_nil_iff.mpr hgap.trivia,
      List.dropWhile_eq_nil_iff.mpr hgap.trivia'⟩⟩
  | @token gap gap' rest rest' token token' hgap hsignificant hkind hvalue hrest =>
    have hsignificant' := isSignificant_of_kind_eq hkind hsignificant
    rw [takeWhile_gap hgap.trivia hsignificant, takeWhile_gap hgap.trivia' hsignificant',
      dropTrivia_gap hgap.trivia hsignificant, dropTrivia_gap hgap.trivia' hsignificant']
    exact ⟨hgap, .inr ⟨token, token', rest, rest', rfl, rfl, hsignificant, hkind, hvalue, hrest⟩⟩

/-- The lists begin with the same significant token, or neither begins with one. -/
theorem head_cases (h : SameButTrivia dialect tokens tokens') :
    (∃ token token' rest rest', tokens = token :: rest ∧ tokens' = token' :: rest' ∧
      token.isSignificant ∧ token'.kind = token.kind ∧ token'.value = token.value ∧
      SameButTrivia dialect rest rest') ∨
    (∀ token ∈ tokens.head?, token.isTrivia) ∧ ∀ token ∈ tokens'.head?, token.isTrivia := by
  cases h with
  | last hgap =>
    exact .inr ⟨fun token htoken => hgap.trivia token (List.mem_of_mem_head? htoken),
      fun token htoken => hgap.trivia' token (List.mem_of_mem_head? htoken)⟩
  | @token gap gap' rest rest' token token' hgap hsignificant hkind hvalue hrest =>
    cases gap with
    | nil =>
      obtain rfl := hgap.nil_iff.mp rfl
      exact .inl ⟨token, token', rest, rest', rfl, rfl, hsignificant, hkind, hvalue, hrest⟩
    | cons first more =>
      cases gap' with
      | nil => cases hgap.nil_iff.mpr rfl
      | cons first' more' =>
        refine .inr ⟨?_, ?_⟩
        · rintro _ ⟨rfl⟩
          exact hgap.trivia _ List.mem_cons_self
        · rintro _ ⟨rfl⟩
          exact hgap.trivia' _ List.mem_cons_self

/-- Behind a significant token the lists are alike. -/
theorem tail {token token' : Token} {rest rest' : List Token}
    (h : SameButTrivia dialect (token :: rest) (token' :: rest')) (htoken : token.isSignificant) :
    token'.kind = token.kind ∧ token'.value = token.value ∧ SameButTrivia dialect rest rest' := by
  obtain ⟨_, _, _, _, hcons, hcons', -, hkind, hvalue, hrest⟩ | ⟨htrivia, -⟩ := h.head_cases
  · obtain ⟨rfl, rfl⟩ := List.cons.inj hcons
    obtain ⟨rfl, rfl⟩ := List.cons.inj hcons'
    exact ⟨hkind, hvalue, hrest⟩
  · have hfirst := htrivia token rfl
    rw [isTrivia_eq_false_of_significant htoken] at hfirst
    cases hfirst

/-- Without trivia the lists have one text. -/
theorem spelling_eq (h : SameButTrivia dialect tokens tokens')
    (hall : ∀ token ∈ tokens, token.isSignificant) : spelling tokens' = spelling tokens := by
  have hnil {gap gap' : List Token} (hgap : SameGap dialect gap gap')
      (hall : ∀ token ∈ gap, token.isSignificant) : gap = [] ∧ gap' = [] := by
    have hempty : gap = [] := by
      rw [List.eq_nil_iff_forall_not_mem]
      intro token htoken
      have htrivia := hgap.trivia token htoken
      rw [isTrivia_eq_false_of_significant (hall token htoken)] at htrivia
      cases htrivia
    exact ⟨hempty, hgap.nil_iff.mp hempty⟩
  induction h with
  | last hgap =>
    obtain ⟨rfl, rfl⟩ := hnil hgap hall
    rfl
  | token hgap _ _ hvalue _ ih =>
    rw [List.forall_mem_append, List.forall_mem_cons] at hall
    obtain ⟨rfl, rfl⟩ := hnil hgap hall.1
    rw [List.nil_append, List.nil_append, spelling_cons, spelling_cons, hvalue, ih hall.2.2]

/-- The pieces of a run of punctuation are the same at all positions. -/
theorem symbolsOf (position position' : Position) (text : Text) :
    SameButTrivia dialect (StyleSyntax.symbolsOf position text)
      (StyleSyntax.symbolsOf position' text) := by
  induction text generalizing position position' with
  | nil => exact .nil
  | cons first rest ih => exact .cons rfl rfl rfl (ih _ _)

/-- Lists that are alike split into lists that are alike. -/
theorem splitSymbolRuns (h : SameButTrivia dialect tokens tokens') :
    SameButTrivia dialect (StyleSyntax.splitSymbolRuns tokens)
      (StyleSyntax.splitSymbolRuns tokens') := by
  have hgaps {gap : List Token} (hgap : AllTrivia gap) :
      StyleSyntax.splitSymbolRuns gap = gap := by
    induction gap with
    | nil => rfl
    | cons token gap ih =>
      obtain ⟨htoken, hgap⟩ := List.forall_mem_cons.mp hgap
      have hrun : token.isSymbolRun = false := by
        have hkind : token.kind ≠ .symbol := by
          intro hkind
          rw [Token.isTrivia, hkind] at htoken
          cases htoken
        rw [Token.isSymbolRun, beq_false_of_ne hkind, Bool.false_and]
      rw [splitSymbolRuns_cons, hrun, if_neg Bool.false_ne_true, ih hgap, List.singleton_append]
  induction h with
  | last hgap =>
    rw [hgaps hgap.trivia, hgaps hgap.trivia']
    exact .last hgap
  | @token gap gap' rest rest' token token' hgap hsignificant hkind hvalue _ ih =>
    have hsplit (gap rest : List Token) (token : Token) :
        StyleSyntax.splitSymbolRuns (gap ++ token :: rest) =
          StyleSyntax.splitSymbolRuns gap ++ StyleSyntax.splitSymbolRuns (token :: rest) := by
      rw [StyleSyntax.splitSymbolRuns, List.flatMap_append]
      rfl
    have hrun : token'.isSymbolRun = token.isSymbolRun := by
      rw [Token.isSymbolRun, Token.isSymbolRun, hkind, hvalue]
    rw [hsplit, hsplit, hgaps hgap.trivia, hgaps hgap.trivia', splitSymbolRuns_cons,
      splitSymbolRuns_cons, hrun, hvalue]
    refine gap_append hgap ?_
    split_ifs
    · exact (symbolsOf token.position token'.position token.value).append ih
    · exact cons hsignificant hkind hvalue ih

end SameButTrivia

end StyleSyntax
