import StyleSyntax.Parser.Bracketed
import StyleSyntax.Parser.Capture
import StyleSyntax.Proofs.Parser.Matching
import StyleSyntax.Proofs.Parser.Refusal

/-!
# Successes

A parser built by a combinator succeeds exactly when its parts do. Read from left to right these
equivalences take a success apart into the successes of the leaves, and from right to left they put
a success together. A choice succeeds with the first alternative that does not decline, and matches
up to the end succeed when each of them does.
-/

namespace StyleSyntax.Parser

variable {α β : Type} {region : Region} {rest next : List Token}

/-- The end of the input is where nothing but trivia is left. -/
theorem endOfInput_run_eq_ok :
    endOfInput.run region rest = ⟨.ok (), next⟩ ↔ next = rest ∧ AllTrivia rest := by
  unfold endOfInput
  dsimp only
  rw [← firstSignificant_eq_none, ← Option.isNone_iff_eq_none]
  split_ifs with hnone
  · simp [hnone, eq_comm]
  · simp [hnone]

/-- A value where it stands succeeds with just that. -/
theorem pure_run_eq_ok {a b : α} :
    (pure a : Parser α).run region rest = ⟨.ok b, next⟩ ↔ a = b ∧ rest = next := by
  rw [run_pure, Reply.mk.injEq, Outcome.ok.injEq]

/-- A sequence succeeds when its parts succeed one after the other. -/
theorem bind_run_eq_ok {p : Parser α} {following : α → Parser β} {b : β} :
    (p >>= following).run region rest = ⟨.ok b, next⟩ ↔
      ∃ a middle, p.run region rest = ⟨.ok a, middle⟩ ∧
        (following a).run region middle = ⟨.ok b, next⟩ := by
  rw [run_bind]
  constructor
  · intro h
    rcases hrun : p.run region rest with ⟨value | error | _, middle⟩
    · rw [hrun] at h
      exact ⟨value, middle, rfl, h⟩
    · rw [hrun] at h
      cases h
    · rw [hrun] at h
      cases h
  · rintro ⟨a, middle, hrun, h⟩
    rw [hrun]
    exact h

/-- A parser with a changed value succeeds when the parser does. -/
theorem map_run_eq_ok {p : Parser α} {f : α → β} {b : β} :
    (p.map f).run region rest = ⟨.ok b, next⟩ ↔
      ∃ a, p.run region rest = ⟨.ok a, next⟩ ∧ f a = b := by
  rw [run_map]
  constructor
  · intro h
    rcases hrun : p.run region rest with ⟨value | error | _, middle⟩
    · rw [hrun] at h
      cases h
      exact ⟨value, rfl, rfl⟩
    · rw [hrun] at h
      cases h
    · rw [hrun] at h
      cases h
  · rintro ⟨a, hrun, rfl⟩
    rw [hrun]
    rfl

/-- Going back on failure changes no success. -/
theorem attempt_run_eq_ok {p : Parser α} {a : α} :
    (attempt p).run region rest = ⟨.ok a, next⟩ ↔ p.run region rest = ⟨.ok a, next⟩ := by
  unfold attempt
  dsimp only
  generalize p.run region rest = reply
  rcases reply with ⟨value | error | _, middle⟩ <;> simp

/-- The mark of a step changes no success. -/
theorem step_run_eq_ok {p : Parser α} {index : Nat} {a : α} :
    (step index p).run region rest = ⟨.ok a, next⟩ ↔ p.run region rest = ⟨.ok a, next⟩ := by
  unfold step
  dsimp only
  generalize p.run region rest = reply
  rcases reply with ⟨value | error | _, middle⟩ <;> simp [Reply.mapError, Outcome.mapError]

/-- A captured value comes with the source of the tokens that were consumed for it. -/
theorem capture_run_eq_ok {p : Parser α} {captured : α × Excerpt} :
    (capture p).run region rest = ⟨.ok captured, next⟩ ↔
      p.run region rest = ⟨.ok captured.1, next⟩ ∧
        captured.2 = excerptOf (consumed rest next) (significantPosition rest region.finish) := by
  obtain ⟨value, source⟩ := captured
  unfold capture
  dsimp only
  generalize p.run region rest = reply
  rcases reply with ⟨found | error | _, middle⟩
  · constructor
    · intro h
      cases h
      exact ⟨rfl, rfl⟩
    · rintro ⟨h, rfl⟩
      cases h
      rfl
  · simp
  · simp

/-- Source as written is that of the tokens that were consumed. -/
theorem rawValue_run_eq_ok {p : Parser α} {source : Text} :
    (rawValue p).run region rest = ⟨.ok source, next⟩ ↔
      ∃ a, p.run region rest = ⟨.ok a, next⟩ ∧ source = spelling (consumed rest next) := by
  unfold rawValue
  dsimp only
  generalize p.run region rest = reply
  rcases reply with ⟨found | error | _, middle⟩
  · constructor
    · intro h
      cases h
      exact ⟨found, rfl, rfl⟩
    · rintro ⟨a, h, rfl⟩
      cases h
      rfl
  · simp
  · simp

/-- A part that is found or left out. -/
theorem optional_run_eq_ok {p : Parser α} {a : Option α} :
    p.optional.run region rest = ⟨.ok a, next⟩ ↔
      (∃ value, a = some value ∧ p.accepts (firstSignificant rest) ∧
        p.run region rest = ⟨.ok value, next⟩) ∨
      a = none ∧ rest = next ∧ p.Declines region rest := by
  constructor
  · intro h
    unfold Parser.optional at h
    dsimp only at h
    split_ifs at h with haccepts
    · rcases hrun : p.run region rest with ⟨value | error | _, middle⟩
      · rw [hrun] at h
        cases h
        exact .inl ⟨value, rfl, haccepts, rfl⟩
      · rw [hrun] at h
        dsimp only at h
        split_ifs at h with hblock <;> cases h
        exact .inr ⟨rfl, rfl, fun _ => ⟨error, middle, hrun, by simpa using hblock⟩⟩
      · rw [hrun] at h
        cases h
    · cases h
      exact .inr ⟨rfl, rfl, fun h => absurd h haccepts⟩
  · unfold Parser.optional
    dsimp only
    rintro (⟨value, rfl, haccepts, hrun⟩ | ⟨rfl, rfl, hdeclines⟩)
    · rw [if_pos haccepts, hrun]
    · split_ifs with haccepts
      · obtain ⟨error, middle, hrun, hblock⟩ := hdeclines haccepts
        simp [hrun, hblock]
      · rfl

/-- A part that is found is a success of its own. -/
theorem run_of_optional_run {p : Parser α} {value : α}
    (h : p.optional.run region rest = ⟨.ok (some value), next⟩) :
    p.run region rest = ⟨.ok value, next⟩ := by
  rcases optional_run_eq_ok.mp h with ⟨found, hsome, -, hrun⟩ | ⟨hnone, -⟩
  · cases hsome
    exact hrun
  · cases hnone

/-- An alternative with a test is tried where the next token passes the test. -/
theorem accepts_probe {token : Token} {following : List Token} {test : Token → Bool}
    (hrest : dropTrivia rest = token :: following) (p : Parser α) :
    (probe test p).accepts (firstSignificant rest) = test token := by
  rw [firstSignificant_eq_head?, hrest]
  rfl

/-- An alternative with a test is not tried where the next token fails the test. -/
theorem declines_probe {token : Token} {following : List Token} {test : Token → Bool}
    (hrest : dropTrivia rest = token :: following) (htest : test token = false) (p : Parser α) :
    (probe test p).Declines region rest := by
  intro haccepts
  rw [accepts_probe hrest, htest] at haccepts
  cases haccepts

/-- A token that passes a test stands behind a gap. -/
theorem tokenWhere_run_eq_ok {wanted : Text} {test : Token → Bool} {token : Token} :
    (tokenWhere wanted test).run region rest = ⟨.ok token, next⟩ ↔
      dropTrivia rest = token :: next ∧ test token := by
  unfold tokenWhere
  dsimp only
  cases dropTrivia rest with
  | nil => simp
  | cons first more =>
    dsimp only
    split_ifs with htest
    · constructor
      · intro h
        cases h
        exact ⟨rfl, htest⟩
      · rintro ⟨h, -⟩
        cases h
        rfl
    · constructor
      · intro h
        cases h
      · rintro ⟨h, hpasses⟩
        cases h
        exact absurd hpasses htest

/-- A token is found behind a gap, or the tokens are left as they were. -/
theorem tokenWhere_run_cases (wanted : Text) (test : Token → Bool) (region : Region)
    (rest : List Token) :
    (∃ token next, dropTrivia rest = token :: next ∧
      (tokenWhere wanted test).run region rest = ⟨.ok token, next⟩) ∨
    ∃ error, (tokenWhere wanted test).run region rest = ⟨.failed error, rest⟩ := by
  unfold tokenWhere
  dsimp only
  cases dropTrivia rest with
  | nil => exact .inr ⟨_, rfl⟩
  | cons token next =>
    dsimp only
    split_ifs
    · exact .inl ⟨token, next, rfl, rfl⟩
    · exact .inr ⟨_, rfl⟩

/-- A run of symbols stands behind a gap. -/
theorem symbol_run_eq_ok {text value : Text} :
    (symbol text).run region rest = ⟨.ok value, next⟩ ↔
      value = text ∧ afterSymbols text (dropTrivia rest) = some next := by
  unfold symbol
  dsimp only
  cases afterSymbols text (dropTrivia rest) with
  | none => simp
  | some later => simp [eq_comm]

/-- One of several runs of symbols stands behind a gap, or the tokens are refused. -/
theorem oneOfSymbols_run_cases (region : Region) (rest : List Token) (candidates : List Text) :
    (∃ text ∈ candidates, ∃ next, afterSymbols text (dropTrivia rest) = some next ∧
      (oneOfSymbols candidates).run region rest = ⟨.ok text, next⟩) ∨
    (oneOfSymbols candidates).Refuses region rest := by
  unfold Refuses oneOfSymbols
  dsimp only
  have hmem : ∀ text ∈ longestFirst candidates, text ∈ candidates :=
    fun _ htext => mem_longestFirst.mp htext
  generalize longestFirst candidates = texts at hmem ⊢
  induction texts with
  | nil => exact .inr ⟨_, rest, rfl, isBlock_expected region _ rest⟩
  | cons text others ih =>
    rw [List.forall_mem_cons] at hmem
    rw [runSymbols]
    unfold symbol
    dsimp only
    cases hafter : afterSymbols text (dropTrivia rest) with
    | none => exact ih hmem.2
    | some next => exact .inl ⟨text, hmem.1, next, hafter, rfl⟩

/-- A choice succeeds with the first alternative that does not decline. -/
theorem firstOf_run_eq_ok {alternatives : List (Parser α)} {a : α} :
    (firstOf alternatives).run region rest = ⟨.ok a, next⟩ ↔
      ∃ front p back, alternatives = front ++ p :: back ∧ (∀ q ∈ front, q.Declines region rest) ∧
        p.accepts (firstSignificant rest) ∧ p.run region rest = ⟨.ok a, next⟩ := by
  constructor
  · intro h
    unfold firstOf at h
    dsimp only at h
    generalize ({} : Failures) = failures at h
    induction alternatives generalizing failures with
    | nil => cases h
    | cons p others ih =>
      have hlater (hdeclines : p.Declines region rest) (failures : Failures)
          (h : runFirst region rest failures others = ⟨.ok a, next⟩) :
          ∃ front q back, p :: others = front ++ q :: back ∧
            (∀ q ∈ front, q.Declines region rest) ∧ q.accepts (firstSignificant rest) ∧
            q.run region rest = ⟨.ok a, next⟩ := by
        obtain ⟨front, q, back, rfl, hfront, hq⟩ := ih failures h
        exact ⟨p :: front, q, back, rfl, List.forall_mem_cons.mpr ⟨hdeclines, hfront⟩, hq⟩
      rw [runFirst] at h
      by_cases haccepts : p.accepts (firstSignificant rest)
      · rw [if_pos haccepts] at h
        rcases hrun : p.run region rest with ⟨value | error | _, middle⟩
        · rw [hrun] at h
          cases h
          exact ⟨[], p, others, rfl, by simp, haccepts, hrun⟩
        · rw [hrun] at h
          dsimp only at h
          split_ifs at h with hblock
          · cases h
          · exact hlater (fun _ => ⟨error, middle, hrun, by simpa using hblock⟩) _ h
        · rw [hrun] at h
          cases h
      · rw [if_neg haccepts] at h
        exact hlater (fun h => absurd h haccepts) _ h
  · rintro ⟨front, p, back, rfl, hfront, haccepts, hrun⟩
    exact run_firstOf_of_declines hfront haccepts hrun

/-- A choice succeeds with its first alternative, or without it when that one declines. -/
theorem firstOf_cons_run_eq_ok {p : Parser α} {others : List (Parser α)} {a : α} :
    (firstOf (p :: others)).run region rest = ⟨.ok a, next⟩ ↔
      p.accepts (firstSignificant rest) ∧ p.run region rest = ⟨.ok a, next⟩ ∨
      p.Declines region rest ∧ (firstOf others).run region rest = ⟨.ok a, next⟩ := by
  rw [firstOf_run_eq_ok]
  constructor
  · rintro ⟨front, q, back, hsplit, hfront, haccepts, hrun⟩
    cases front with
    | nil =>
      obtain ⟨rfl, -⟩ := List.cons.inj hsplit
      exact .inl ⟨haccepts, hrun⟩
    | cons first front =>
      obtain ⟨rfl, rfl⟩ := List.cons.inj hsplit
      rw [List.forall_mem_cons] at hfront
      exact .inr ⟨hfront.1, run_firstOf_of_declines hfront.2 haccepts hrun⟩
  · rintro (⟨haccepts, hrun⟩ | ⟨hdeclines, hrun⟩)
    · exact ⟨[], p, others, rfl, by simp, haccepts, hrun⟩
    · obtain ⟨front, q, back, rfl, hfront, haccepts, hrun⟩ := firstOf_run_eq_ok.mp hrun
      exact ⟨p :: front, q, back, rfl, List.forall_mem_cons.mpr ⟨hdeclines, hfront⟩, haccepts, hrun⟩

/-- A choice succeeds with one of its alternatives. -/
theorem exists_mem_of_firstOf_run {alternatives : List (Parser α)} {a : α}
    (h : (firstOf alternatives).run region rest = ⟨.ok a, next⟩) :
    ∃ p ∈ alternatives, p.run region rest = ⟨.ok a, next⟩ := by
  obtain ⟨front, p, back, rfl, -, -, hrun⟩ := firstOf_run_eq_ok.mp h
  exact ⟨p, by simp, hrun⟩

/-- Where a parser does not succeed there are no matches of it. -/
theorem eq_nil_of_many_run {p : Parser α} {values : List α}
    (hp : ∀ value next, p.run region rest ≠ ⟨.ok value, next⟩)
    (h : (many p).run region rest = ⟨.ok values, next⟩) : values = [] := by
  change runMany p region rest = _ at h
  rw [runMany] at h
  split_ifs at h
  · cases h
    rfl
  · split at h
    · cases h
      rfl
    · next value middle hsome =>
      rcases optional_run_eq_ok.mp hsome with ⟨found, -, -, hrun⟩ | ⟨hnone, -, -⟩
      · exact absurd hrun (hp found middle)
      · cases hnone
    · cases h
    · cases h

/-- At the end there are no matches up to the end. -/
theorem all_run_nil (p : Parser α) (region : Region) : (all p).run region [] = ⟨.ok [], []⟩ := by
  change runAll p region [] = _
  rw [runAll]
  rfl

/-- Matches up to the end begin with one that consumes something. -/
theorem all_run_cons_eq_ok {p : Parser α} {token : Token} {values : List α} :
    (all p).run region (token :: rest) = ⟨.ok values, next⟩ ↔
      ∃ value middle others, p.run region (token :: rest) = ⟨.ok value, middle⟩ ∧
        middle.length < (token :: rest).length ∧
        (all p).run region middle = ⟨.ok others, next⟩ ∧ values = value :: others := by
  change runAll p region (token :: rest) = _ ↔ _
  rw [runAll, if_neg (by simp)]
  constructor
  · intro h
    rcases hrun : p.run region (token :: rest) with ⟨value | error | _, middle⟩
    · rw [hrun] at h
      dsimp only at h
      split_ifs at h with hlt
      · rcases hothers : runAll p region middle with ⟨others | error | _, last⟩ <;>
          rw [hothers] at h <;> cases h
        exact ⟨value, middle, others, rfl, hlt, hothers, rfl⟩
      · cases h
    · rw [hrun] at h
      cases h
    · rw [hrun] at h
      cases h
  · rintro ⟨value, middle, others, hrun, hlt, hothers, rfl⟩
    rw [hrun]
    dsimp only
    rw [if_pos hlt]
    change runAll p region middle = _ at hothers
    rw [hothers]
    rfl

/-- A whole list is read when nothing but trivia is left of it. -/
theorem runWhole_eq_ok {inner : Parser α} {a : α} :
    runWhole inner region rest = .ok a ↔
      ∃ left, inner.run region rest = ⟨.ok a, left⟩ ∧ firstSignificant left = none := by
  unfold runWhole
  constructor
  · intro h
    rcases hrun : inner.run region rest with ⟨value | error | _, left⟩
    · rw [hrun] at h
      cases hleft : firstSignificant left with
      | none =>
        simp only [hleft] at h
        cases h
        exact ⟨left, rfl, hleft⟩
      | some token =>
        simp only [hleft] at h
        cases h
    · rw [hrun] at h
      cases h
    · rw [hrun] at h
      cases h
  · rintro ⟨left, hrun, hleft⟩
    simp only [hrun, hleft]

/-- An interior is read when the tokens of its text are. -/
theorem interior_eq_ok {inner : Parser α} {config : LexerConfig} {token : Token} {a : α} :
    interior inner config token = .ok a ↔
      ∃ text origin tokens, token.interior = some (text, origin) ∧
        tokensOf config text origin = .ok tokens ∧
        runWhole inner (.ofTokens config (splitSymbolRuns tokens) origin)
          (splitSymbolRuns tokens) = .ok a := by
  have hmark (outcome : Outcome ParseError α) :
      outcome.mapError (ParseError.within .block) = .ok a ↔ outcome = .ok a := by
    cases outcome <;> simp [Outcome.mapError]
  unfold interior
  rw [hmark]
  unfold runInside
  constructor
  · intro h
    cases hinterior : token.interior with
    | none =>
      rw [hinterior] at h
      cases h
    | some inside =>
      obtain ⟨text, origin⟩ := inside
      rw [hinterior] at h
      dsimp only at h
      cases htokens : tokensOf config text origin with
      | error error =>
        rw [htokens] at h
        cases h
      | ok tokens =>
        rw [htokens] at h
        exact ⟨text, origin, tokens, rfl, htokens, h⟩
  · rintro ⟨text, origin, tokens, hinterior, htokens, h⟩
    rw [hinterior]
    dsimp only
    rw [htokens]
    exact h

/-- A body is read from the bracketed token behind a gap. -/
theorem block_run_eq_ok {kinds : List TokenKind} {inner : Parser α} {a : α} :
    (block kinds inner).run region rest = ⟨.ok a, next⟩ ↔
      ∃ token, dropTrivia rest = token :: next ∧ kinds.contains token.kind ∧
        interior inner region.config token = .ok a := by
  unfold block
  rw [bind_run_eq_ok]
  constructor
  · rintro ⟨token, middle, hmatched, hrun⟩
    obtain ⟨hrest, hkind⟩ := tokenWhere_run_eq_ok.mp hmatched
    rw [Reply.mk.injEq] at hrun
    obtain ⟨houtcome, rfl⟩ := hrun
    exact ⟨token, hrest, hkind, houtcome⟩
  · rintro ⟨token, hrest, hkind, houtcome⟩
    exact ⟨token, next, tokenWhere_run_eq_ok.mpr ⟨hrest, hkind⟩,
      congrArg (Reply.mk · next) houtcome⟩

end StyleSyntax.Parser
