import StyleSyntax.Parser.Capture
import StyleSyntax.Proofs.Parser.Matching
import StyleSyntax.Proofs.Parser.Recasting

/-!
# Recast matchers and captured source

A matcher is recast to itself: it tests a token in ways that do not tell the kinds of braces apart,
and no test of another kind of token lets braces pass. Captured source is recast along with the
tokens that it is captured from.
-/

namespace StyleSyntax

variable {α β : Type} {r : Recasting}

/-- A token of a kind that is not braces is none. -/
theorem isBraces_eq_false_of_kind {token : Token} {kind : TokenKind}
    (h : (token.kind == kind) = true) (hkind : kind.isBraces = false) : token.isBraces = false := by
  rw [Token.isBraces, beq_iff_eq.mp h, hkind]

/-- A literal is no brace region. -/
theorem isBraces_of_isLiteral {token : Token} {text : Text} (h : token.isLiteral text) :
    token.isBraces = false :=
  isBraces_eq_false_of_kind (Bool.and_eq_true _ _ ▸ h).1 rfl

namespace Parser

/-- A token that passes a test is recast when the test does not see the recasting. -/
theorem recasts_tokenWhere {test : Token → Bool} (wanted : Text)
    (htest : ∀ token, test (r.token token) = test token)
    (hstays : ∀ region token next, test token → r.scope region (token :: next) →
      r.scope region next) :
    (tokenWhere wanted test).Recasts r r.token (tokenWhere wanted test) := by
  refine ⟨fun region rest hscope => ?_, fun _ => rfl⟩
  have hdropped := Recasting.scope_dropTrivia hscope
  unfold tokenWhere
  dsimp only
  rw [Recasting.dropTrivia_map]
  cases h : dropTrivia rest with
  | nil => exact ⟨rfl, hscope⟩
  | cons token next =>
    rw [h] at hdropped
    rw [List.map_cons]
    dsimp only
    rw [htest]
    split_ifs with hpasses
    · exact ⟨rfl, hstays region token next hpasses hdropped⟩
    · exact ⟨rfl, hscope⟩

/-- A token of a kind that is not braces is recast. -/
theorem recasts_anyToken {kind : TokenKind} (h : kind.isBraces = false) :
    (anyToken kind).Recasts r r.token (anyToken kind) :=
  recasts_tokenWhere _ (fun token => Recasting.kind_beq token.kind h) fun _ _ _ htest hscope =>
    r.scope_tail hscope (isBraces_eq_false_of_kind htest h)

/-- A string is recast. -/
theorem recasts_anyString : anyString.Recasts r r.token anyString := by
  refine recasts_tokenWhere _ (fun token => ?_) fun _ _ _ htest hscope => ?_
  · exact congrArg₂ _ (Recasting.kind_beq _ rfl) (Recasting.kind_beq _ rfl)
  · rcases (Bool.or_eq_true _ _).mp htest with hstring | htemplate
    · exact r.scope_tail hscope (isBraces_eq_false_of_kind hstring rfl)
    · exact r.scope_tail hscope (isBraces_eq_false_of_kind htemplate rfl)

/-- A keyword is recast. -/
theorem recasts_keyword (text : Text) : (keyword text).Recasts r r.token (keyword text) :=
  recasts_tokenWhere _ (fun token => Recasting.token_isLiteral token text)
    fun _ _ _ htest hscope => r.scope_tail hscope (isBraces_of_isLiteral htest)

/-- The tokens behind a run of symbols are recast, and in scope. -/
theorem afterSymbols_map (text : Text) {region : Region} {rest : List Token}
    (hscope : r.scope region rest) :
    afterSymbols text (rest.map r.token) = (afterSymbols text rest).map (List.map r.token) ∧
      ∀ next ∈ afterSymbols text rest, r.scope region next := by
  fun_induction afterSymbols text rest with
  | case1 rest => exact ⟨by simp [afterSymbols], by simpa using hscope⟩
  | case2 => exact ⟨by simp [afterSymbols], by simp⟩
  | case3 text token rest htext hsign ih =>
    have hkind := (Bool.and_eq_true _ _ ▸ hsign).1
    obtain ⟨heq, hnext⟩ := ih (r.scope_tail hscope (isBraces_eq_false_of_kind hkind rfl))
    refine ⟨?_, hnext⟩
    rw [← heq, List.map_cons, afterSymbols_cons htext, Recasting.token_kind_beq _ rfl,
      Recasting.token_value, if_pos hsign]
  | case4 text token rest htext hsign =>
    refine ⟨?_, by simp⟩
    rw [List.map_cons, afterSymbols_cons htext, Recasting.token_kind_beq _ rfl,
      Recasting.token_value, if_neg hsign]
    rfl

/-- A run of symbols is recast. -/
theorem recasts_symbol (text : Text) : (symbol text).Recasts r id (symbol text) := by
  refine ⟨fun region rest hscope => ?_, fun _ => rfl⟩
  obtain ⟨heq, hnext⟩ := afterSymbols_map text (Recasting.scope_dropTrivia hscope)
  unfold symbol
  dsimp only
  rw [Recasting.dropTrivia_map, heq, Recasting.expected_map]
  cases h : afterSymbols text (dropTrivia rest) with
  | none => exact ⟨rfl, hscope⟩
  | some next => exact ⟨rfl, hnext next h⟩

/-- One of several runs of symbols is recast. -/
theorem recasts_oneOfSymbols (candidates : List Text) :
    (oneOfSymbols candidates).Recasts r id (oneOfSymbols candidates) := by
  refine ⟨fun region rest hscope => ?_, fun _ => rfl⟩
  unfold oneOfSymbols
  dsimp only
  rw [Recasting.expected_map]
  generalize region.expected _ rest = error
  induction longestFirst candidates with
  | nil => exact ⟨rfl, hscope⟩
  | cons text others ih =>
    obtain ⟨heq, hstays⟩ := (recasts_symbol text).reply region rest hscope
    rw [runSymbols, runSymbols, heq]
    generalize (symbol text).run region rest = reply at hstays
    rcases reply with ⟨value | error | _, next⟩
    · exact ⟨rfl, hstays⟩
    · exact ih
    · exact ih

/-- Moving over trivia is recast. -/
theorem recasts_skipTrivia : skipTrivia.Recasts r id skipTrivia :=
  ⟨fun _ rest hscope => ⟨congrArg (Reply.mk _) (Recasting.dropTrivia_map rest),
    Recasting.scope_dropTrivia hscope⟩, fun _ => rfl⟩

/-- The condition on whitespace is recast. -/
theorem recasts_noSpacesHere : noSpacesHere.Recasts r id noSpacesHere := by
  refine ⟨fun region rest hscope => ?_, fun _ => rfl⟩
  unfold noSpacesHere
  cases rest with
  | nil => exact ⟨rfl, hscope⟩
  | cons token next =>
    simp only [List.map_cons, Recasting.token_isTrivia]
    split_ifs
    · exact ⟨rfl, hscope⟩
    · exact ⟨rfl, hscope⟩

/-- Captured trivia is recast. -/
theorem recasts_trivia : trivia.Recasts r r.excerpt trivia := by
  refine ⟨fun region rest hscope => ?_, fun _ => rfl⟩
  have htrivia : Token.isTrivia ∘ r.token = Token.isTrivia := funext Recasting.token_isTrivia
  unfold trivia
  dsimp only
  rw [List.takeWhile_map, htrivia, Recasting.expected_map, Recasting.dropTrivia_map]
  cases rest.takeWhile Token.isTrivia with
  | nil => exact ⟨rfl, hscope⟩
  | cons token more =>
    refine ⟨?_, Recasting.scope_dropTrivia hscope⟩
    rw [List.map_cons]
    dsimp only
    rw [← List.map_cons, Recasting.spelling_map]
    rfl

/-- The condition on the end is recast. -/
theorem recasts_endOfInput : endOfInput.Recasts r id endOfInput := by
  refine ⟨fun region rest hscope => ?_, fun _ => rfl⟩
  unfold endOfInput
  dsimp only
  rw [Recasting.firstSignificant_map, Recasting.expected_map, Option.isNone_map]
  split_ifs
  · exact ⟨rfl, hscope⟩
  · exact ⟨rfl, hscope⟩

/-- A captured value is recast with its source. -/
theorem Recasts.capture {p : Parser α} {q : Parser β} {f : α → β} (h : p.Recasts r f q) :
    (capture p).Recasts r (Prod.map f r.excerpt) (capture q) := by
  refine ⟨fun region rest hscope => ?_, fun _ => rfl⟩
  obtain ⟨heq, hstays⟩ := h.reply region rest hscope
  unfold Parser.capture
  dsimp only
  rw [heq]
  generalize p.run region rest = reply at hstays
  rcases reply with ⟨value | error | _, next⟩
  · refine ⟨?_, hstays⟩
    simp only [Reply.recast, Outcome.map, Outcome.mapError, Recasting.consumed_map,
      Recasting.region_finish, Recasting.significantPosition_map, Recasting.excerptOf_map]
    rfl
  · exact ⟨rfl, hscope⟩
  · exact ⟨rfl, hscope⟩

/-- An excerpt is recast. -/
theorem Recasts.excerpt {p : Parser α} {q : Parser β} {f : α → β} (h : p.Recasts r f q) :
    (excerpt p).Recasts r r.excerpt (excerpt q) :=
  h.capture.map fun _ => rfl

/-- Source as written is the same. -/
theorem Recasts.rawValue {p : Parser α} {q : Parser β} {f : α → β} (h : p.Recasts r f q) :
    (rawValue p).Recasts r id (rawValue q) := by
  refine ⟨fun region rest hscope => ?_, fun _ => rfl⟩
  obtain ⟨heq, hstays⟩ := h.reply region rest hscope
  unfold Parser.rawValue
  dsimp only
  rw [heq]
  generalize p.run region rest = reply at hstays
  rcases reply with ⟨value | error | _, next⟩
  · refine ⟨?_, hstays⟩
    simp only [Reply.recast, Outcome.map, Outcome.mapError, Recasting.consumed_map,
      Recasting.spelling_map]
    rfl
  · exact ⟨rfl, hscope⟩
  · exact ⟨rfl, hscope⟩

end Parser

end StyleSyntax
