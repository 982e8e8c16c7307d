import StyleSyntax.Proofs.Parser.Success

/-!
# Failures outside brackets

A parser that enters no brackets fails outside of them alone, and so does whatever is built from
such parsers. Unless it runs for ever, such a parser either succeeds or refuses the tokens.
-/

namespace StyleSyntax.Parser

/-- No failure of the parser arose inside brackets. -/
structure FailsOutside {α : Type} (p : Parser α) : Prop where
  isBlock_eq {region : Region} {rest next : List Token} {error : ParseError} :
    p.run region rest = ⟨.failed error, next⟩ → error.isBlock = false

variable {α β σ : Type}

/-- Such a parser succeeds or refuses the tokens, unless it runs for ever. -/
theorem FailsOutside.run_cases {p : Parser α} (h : p.FailsOutside) {region : Region}
    {rest : List Token} (hends : (p.run region rest).outcome ≠ .endless) :
    (∃ value next, p.run region rest = ⟨.ok value, next⟩) ∨ p.Refuses region rest := by
  rcases hrun : p.run region rest with ⟨value | error | _, next⟩
  · exact .inl ⟨value, next, rfl⟩
  · exact .inr ⟨error, next, hrun, h.isBlock_eq hrun⟩
  · rw [hrun] at hends
    exact absurd rfl hends

/-- A value where it stands is no failure. -/
theorem failsOutside_pure (value : α) : (pure value : Parser α).FailsOutside :=
  ⟨fun h => by cases h⟩

/-- A sequence fails outside brackets when its parts do. -/
theorem FailsOutside.bind {p : Parser α} {following : α → Parser β} (hp : p.FailsOutside)
    (hfollowing : ∀ value, (following value).FailsOutside) : (p >>= following).FailsOutside := by
  constructor
  intro region rest next error h
  rw [run_bind] at h
  rcases hrun : p.run region rest with ⟨value | cause | _, middle⟩
  · rw [hrun] at h
    exact (hfollowing value).isBlock_eq h
  · rw [hrun] at h
    cases h
    exact hp.isBlock_eq hrun
  · rw [hrun] at h
    cases h

/-- A changed value changes no failure. -/
theorem FailsOutside.map {p : Parser α} (h : p.FailsOutside) (f : α → β) :
    (p.map f).FailsOutside := by
  constructor
  intro region rest next error hfailed
  rw [run_map] at hfailed
  rcases hrun : p.run region rest with ⟨value | cause | _, middle⟩ <;> rw [hrun] at hfailed <;>
    cases hfailed
  exact h.isBlock_eq hrun

/-- Going back to the start changes no failure. -/
theorem FailsOutside.attempt {p : Parser α} (h : p.FailsOutside) : (attempt p).FailsOutside := by
  constructor
  intro region rest next error hfailed
  unfold Parser.attempt at hfailed
  dsimp only at hfailed
  rcases hrun : p.run region rest with ⟨value | cause | _, middle⟩ <;> rw [hrun] at hfailed <;>
    cases hfailed
  exact h.isBlock_eq hrun

/-- The mark of a step is none of brackets. -/
theorem FailsOutside.step {p : Parser α} (h : p.FailsOutside) (index : Nat) :
    (step index p).FailsOutside := by
  constructor
  intro region rest next error hfailed
  unfold Parser.step at hfailed
  dsimp only at hfailed
  rcases hrun : p.run region rest with ⟨value | cause | _, middle⟩ <;> rw [hrun] at hfailed <;>
    cases hfailed
  rw [isBlock_atStep]
  exact h.isBlock_eq hrun

/-- A part that may be left out does not fail at all. -/
theorem FailsOutside.optional {p : Parser α} (h : p.FailsOutside) : p.optional.FailsOutside := by
  constructor
  intro region rest next error hfailed
  unfold Parser.optional at hfailed
  dsimp only at hfailed
  split_ifs at hfailed
  · rcases hrun : p.run region rest with ⟨value | cause | _, middle⟩
    · rw [hrun] at hfailed
      cases hfailed
    · rw [hrun] at hfailed
      simp only [h.isBlock_eq hrun] at hfailed
      cases hfailed
    · rw [hrun] at hfailed
      cases hfailed
  · cases hfailed

/-- The want of something is a failure outside brackets. -/
theorem failsOutside_expected (wanted : Text) : (expected wanted : Parser α).FailsOutside := by
  constructor
  intro region rest next error h
  cases h
  exact isBlock_expected region wanted rest

/-- A choice fails outside brackets when its alternatives do. -/
theorem failsOutside_firstOf {alternatives : List (Parser α)}
    (h : ∀ p ∈ alternatives, p.FailsOutside) : (firstOf alternatives).FailsOutside := by
  constructor
  intro region rest next error hfailed
  change runFirst region rest {} alternatives = _ at hfailed
  have hfailures : ({} : Failures).AreOutside := Failures.areOutside_empty
  generalize ({} : Failures) = failures at hfailed hfailures
  induction alternatives generalizing failures with
  | nil =>
    cases hfailed
    exact hfailures.report region rest
  | cons p others ih =>
    rw [List.forall_mem_cons] at h
    rw [runFirst] at hfailed
    split_ifs at hfailed
    · rcases hrun : p.run region rest with ⟨value | cause | _, middle⟩
      · rw [hrun] at hfailed
        cases hfailed
      · have hcause := h.1.isBlock_eq hrun
        rw [hrun] at hfailed
        simp only [hcause] at hfailed
        exact ih h.2 _ hfailed (hfailures.record hcause)
      · rw [hrun] at hfailed
        cases hfailed
    · exact ih h.2 _ hfailed hfailures

/-- Repeated matches fail outside brackets when a match does. -/
theorem FailsOutside.many {p : Parser α} (h : p.FailsOutside) : (many p).FailsOutside := by
  constructor
  intro region rest next error hfailed
  change runMany p region rest = _ at hfailed
  fun_induction runMany p region rest with
  | case1 => cases hfailed
  | case2 => cases hfailed
  | case3 rest _ value middle hrun hlt ih =>
    rcases hothers : runMany p region middle with ⟨values | cause | _, last⟩ <;>
      rw [hothers] at hfailed <;> cases hfailed
    exact ih hothers
  | case4 => cases hfailed
  | case5 rest _ cause middle hrun =>
    cases hfailed
    exact h.optional.isBlock_eq hrun
  | case6 => cases hfailed

/-- Elements behind separators fail outside brackets when each of both does. -/
theorem FailsOutside.separated {separator : Parser σ} {element : Parser α}
    (hs : separator.FailsOutside) (he : element.FailsOutside) :
    (separated separator element).FailsOutside := by
  constructor
  intro region rest next error hfailed
  change runSeparated separator element region rest = _ at hfailed
  fun_induction runSeparated separator element region rest with
  | case1 => cases hfailed
  | case2 => cases hfailed
  | case3 rest sign middle hsign value left hvalue hlt ih =>
    rcases hothers : runSeparated separator element region left with ⟨values | cause | _, last⟩ <;>
      rw [hothers] at hfailed <;> cases hfailed
    exact ih hothers
  | case4 => cases hfailed
  | case5 rest sign middle hsign cause left hvalue =>
    cases hfailed
    exact he.optional.isBlock_eq hvalue
  | case6 => cases hfailed
  | case7 rest cause left hsign =>
    cases hfailed
    exact hs.optional.isBlock_eq hsign
  | case8 => cases hfailed

/-- A list fails outside brackets when its elements and separators do. -/
theorem FailsOutside.list {separator : Parser σ} {element : Parser α}
    (he : element.FailsOutside) (hs : separator.FailsOutside) (allowEmpty : Bool) :
    (list element separator allowEmpty).FailsOutside := by
  refine he.optional.bind fun value => ?_
  cases value with
  | none =>
    dsimp only
    split_ifs
    · exact failsOutside_pure _
    · constructor
      intro region rest next error h
      cases h
      rfl
  | some first => exact (hs.separated he).bind fun _ => failsOutside_pure _

/-- Captured source changes no failure. -/
theorem FailsOutside.capture {p : Parser α} (h : p.FailsOutside) : (capture p).FailsOutside := by
  constructor
  intro region rest next error hfailed
  unfold Parser.capture at hfailed
  dsimp only at hfailed
  rcases hrun : p.run region rest with ⟨value | cause | _, middle⟩ <;> rw [hrun] at hfailed <;>
    cases hfailed
  exact h.isBlock_eq hrun

/-- Source as written changes no failure. -/
theorem FailsOutside.rawValue {p : Parser α} (h : p.FailsOutside) : (rawValue p).FailsOutside := by
  constructor
  intro region rest next error hfailed
  unfold Parser.rawValue at hfailed
  dsimp only at hfailed
  rcases hrun : p.run region rest with ⟨value | cause | _, middle⟩ <;> rw [hrun] at hfailed <;>
    cases hfailed
  exact h.isBlock_eq hrun

/-- A token fails to match outside brackets. -/
theorem failsOutside_tokenWhere (wanted : Text) (test : Token → Bool) :
    (tokenWhere wanted test).FailsOutside := by
  constructor
  intro region rest next error h
  unfold tokenWhere at h
  dsimp only at h
  split at h
  · cases h
    rfl
  · split_ifs at h <;> cases h
    rfl

/-- A run of symbols fails to match outside brackets. -/
theorem failsOutside_symbol (text : Text) : (symbol text).FailsOutside := by
  constructor
  intro region rest next error h
  unfold symbol at h
  dsimp only at h
  split at h
  · cases h
  · cases h
    exact isBlock_expected region _ rest

/-- One of several runs of symbols fails to match outside brackets. -/
theorem failsOutside_oneOfSymbols (candidates : List Text) :
    (oneOfSymbols candidates).FailsOutside := by
  constructor
  intro region rest next error h
  rcases oneOfSymbols_run_cases region rest candidates with
    ⟨text, -, left, -, hrun⟩ | ⟨cause, left, hrun, hcause⟩
  · rw [hrun] at h
    cases h
  · rw [hrun] at h
    cases h
    exact hcause

/-- Moving over trivia does not fail. -/
theorem failsOutside_skipTrivia : skipTrivia.FailsOutside :=
  ⟨fun h => by cases h⟩

/-- Whitespace in the way is a failure outside brackets. -/
theorem failsOutside_noSpacesHere : noSpacesHere.FailsOutside := by
  constructor
  intro region rest next error h
  unfold noSpacesHere at h
  dsimp only at h
  split at h
  · split_ifs at h <;> cases h
    rfl
  · cases h

/-- The want of whitespace is a failure outside brackets. -/
theorem failsOutside_trivia : trivia.FailsOutside := by
  constructor
  intro region rest next error h
  unfold trivia at h
  dsimp only at h
  split at h
  · cases h
    exact isBlock_expected region _ rest
  · cases h

end StyleSyntax.Parser
