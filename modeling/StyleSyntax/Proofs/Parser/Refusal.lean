import Mathlib.Tactic.SplitIfs
import StyleSyntax.Parser.Capture
import StyleSyntax.Parser.Choice
import StyleSyntax.Parser.Repetition

/-!
# Refusals

A parser refuses tokens when it fails on them with an error that did not arise inside brackets; such
a failure lets the search go on. A choice passes over the alternatives that decline the tokens, by
their check or by a refusal, and it refuses when all of them decline. It fails with an error from
inside brackets only if there is an alternative that would have succeeded.
-/

namespace StyleSyntax.Parser

variable {α β : Type} {region : Region} {rest : List Token}

/-- The parser fails on these tokens with an error that did not arise inside brackets. -/
def Refuses (p : Parser α) (region : Region) (rest : List Token) : Prop :=
  ∃ error next, p.run region rest = ⟨.failed error, next⟩ ∧ error.isBlock = false

/-- The check of the parser turns the tokens away, or the parser refuses them. -/
def Declines (p : Parser α) (region : Region) (rest : List Token) : Prop :=
  p.accepts (firstSignificant rest) → p.Refuses region rest

/-- A refused part is left out. -/
theorem optional_run_of_refuses {p : Parser α} (h : p.Refuses region rest) :
    p.optional.run region rest = ⟨.ok none, rest⟩ := by
  obtain ⟨error, next, hrun, hblock⟩ := h
  unfold Parser.optional
  simp [hrun, hblock]

/-- A sequence refuses what its first parser refuses. -/
theorem Refuses.bind {p : Parser α} (h : p.Refuses region rest) (following : α → Parser β) :
    (p >>= following).Refuses region rest := by
  obtain ⟨error, next, hrun, hblock⟩ := h
  exact ⟨error, next, by rw [run_bind, hrun], hblock⟩

/-- A sequence refuses the tokens when a later parser refuses what is left for it. -/
theorem Refuses.bind_of_run {p : Parser α} {following : α → Parser β} {value : α}
    {middle : List Token} (hrun : p.run region rest = ⟨.ok value, middle⟩)
    (h : (following value).Refuses region middle) : (p >>= following).Refuses region rest := by
  obtain ⟨error, next, hfailed, hblock⟩ := h
  exact ⟨error, next, by rw [run_bind, hrun]; exact hfailed, hblock⟩

/-- The mark of a step is none of brackets. -/
theorem isBlock_atStep (index : Nat) (error : ParseError) :
    (error.atStep index).isBlock = error.isBlock := by
  unfold ParseError.atStep
  split_ifs
  · rfl
  · rw [ParseError.isBlock_within]
    rfl

/-- A step refuses what its parser refuses. -/
theorem Refuses.step {p : Parser α} (h : p.Refuses region rest) (index : Nat) :
    (step index p).Refuses region rest := by
  obtain ⟨error, next, hrun, hblock⟩ := h
  refine ⟨error.atStep index, next, ?_, by rw [isBlock_atStep, hblock]⟩
  unfold Parser.step
  dsimp only
  rw [hrun]
  rfl

/-- What is refused is refused as well when it is tried. -/
theorem Refuses.attempt {p : Parser α} (h : p.Refuses region rest) :
    (attempt p).Refuses region rest := by
  obtain ⟨error, next, hrun, hblock⟩ := h
  refine ⟨error, rest, ?_, hblock⟩
  unfold Parser.attempt
  dsimp only
  rw [hrun]

/-- What is refused is refused as well when its source is captured. -/
theorem Refuses.capture {p : Parser α} (h : p.Refuses region rest) :
    (capture p).Refuses region rest := by
  obtain ⟨error, next, hrun, hblock⟩ := h
  refine ⟨error, rest, ?_, hblock⟩
  unfold Parser.capture
  dsimp only
  rw [hrun]

/-- What is refused is refused as well when its value is changed. -/
theorem Refuses.map {p : Parser α} (h : p.Refuses region rest) (f : α → β) :
    (p.map f).Refuses region rest := by
  obtain ⟨error, next, hrun, hblock⟩ := h
  exact ⟨error, next, by rw [run_map, hrun]; rfl, hblock⟩

/-- A token that fails the test is refused. -/
theorem tokenWhere_refuses {token : Token} {following : List Token} {test : Token → Bool}
    (hrest : dropTrivia rest = token :: following) (htest : test token = false) (wanted : Text)
    (region : Region) : (tokenWhere wanted test).Refuses region rest := by
  refine ⟨.expectedAt wanted token, rest, ?_, rfl⟩
  unfold tokenWhere
  dsimp only
  rw [hrest]
  dsimp only
  rw [htest]
  rfl

/-- No failure known so far arose inside brackets. -/
def Failures.AreOutside (failures : Failures) : Prop :=
  (∀ error ∈ failures.begun, error.isBlock = false) ∧
    ∀ error ∈ failures.outright, error.isBlock = false

/-- No failure is known at first. -/
theorem Failures.areOutside_empty : ({} : Failures).AreOutside :=
  ⟨by simp, by simp⟩

/-- Recording a failure from outside brackets keeps the failures outside. -/
theorem Failures.AreOutside.record {failures : Failures} (h : failures.AreOutside)
    {error : ParseError} (herror : error.isBlock = false) :
    (failures.record error).AreOutside := by
  unfold Failures.record
  split_ifs
  · refine ⟨?_, h.2⟩
    cases hbegun : failures.begun with
    | none => simp [herror]
    | some held => simpa using h.1 held hbegun
  · refine ⟨h.1, ?_⟩
    cases houtright : failures.outright with
    | none => simp [herror]
    | some held => simpa using h.2 held houtright

/-- That no rule applies is a failure outside brackets. -/
theorem isBlock_unexpected (region : Region) (rest : List Token) :
    (region.unexpected rest).isBlock = false := by
  unfold Region.unexpected
  cases firstSignificant rest <;> rfl

/-- That something is needed is a failure outside brackets. -/
theorem isBlock_expected (region : Region) (wanted : Text) (rest : List Token) :
    (region.expected wanted rest).isBlock = false := by
  unfold Region.expected
  cases firstSignificant rest <;> rfl

/-- Of failures outside brackets, one outside brackets is reported. -/
theorem Failures.AreOutside.report {failures : Failures} (h : failures.AreOutside)
    (region : Region) (rest : List Token) : (failures.report region rest).isBlock = false := by
  unfold Failures.report
  cases hbegun : failures.begun with
  | some error => exact h.1 error hbegun
  | none =>
    cases houtright : failures.outright with
    | some error => exact h.2 error houtright
    | none => exact isBlock_unexpected region rest

/-- Alternatives that decline are passed over, and add failures from outside brackets alone. -/
theorem exists_runFirst_append {front : List (Parser α)}
    (hfront : ∀ p ∈ front, p.Declines region rest) {failures : Failures}
    (hfailures : failures.AreOutside) (back : List (Parser α)) :
    ∃ more : Failures, more.AreOutside ∧
      runFirst region rest failures (front ++ back) = runFirst region rest more back := by
  induction front generalizing failures with
  | nil => exact ⟨failures, hfailures, rfl⟩
  | cons p front ih =>
    rw [List.forall_mem_cons] at hfront
    rw [List.cons_append, runFirst]
    by_cases haccepts : p.accepts (firstSignificant rest)
    · obtain ⟨error, next, hrun, hblock⟩ := hfront.1 haccepts
      obtain ⟨more, hmore, heq⟩ := ih hfront.2 (hfailures.record hblock)
      exact ⟨more, hmore, by simp [haccepts, hrun, hblock, heq]⟩
    · obtain ⟨more, hmore, heq⟩ := ih hfront.2 hfailures
      exact ⟨more, hmore, by simp [haccepts, heq]⟩

/-- A choice succeeds with an alternative before which all others decline. -/
theorem run_firstOf_of_declines {front back : List (Parser α)} {p : Parser α} {value : α}
    {next : List Token} (hfront : ∀ q ∈ front, q.Declines region rest)
    (haccepts : p.accepts (firstSignificant rest)) (hrun : p.run region rest = ⟨.ok value, next⟩) :
    (firstOf (front ++ p :: back)).run region rest = ⟨.ok value, next⟩ := by
  obtain ⟨more, -, heq⟩ := exists_runFirst_append hfront Failures.areOutside_empty
    (p :: back)
  unfold firstOf
  dsimp only
  rw [heq, runFirst, if_pos haccepts, hrun]

/-- A choice refuses the tokens when all its alternatives decline them. -/
theorem refuses_firstOf {alternatives : List (Parser α)}
    (h : ∀ p ∈ alternatives, p.Declines region rest) :
    (firstOf alternatives).Refuses region rest := by
  obtain ⟨failures, houtside, hrun⟩ := exists_runFirst_append h Failures.areOutside_empty []
  rw [List.append_nil] at hrun
  exact ⟨_, _, hrun, houtside.report region rest⟩

/-- If an alternative would succeed, a choice fails with an error from inside brackets alone. -/
theorem isBlock_of_firstOf_failed {alternatives : List (Parser α)} {p : Parser α} {value : α}
    {next left : List Token} {error : ParseError} (hp : p ∈ alternatives)
    (haccepts : p.accepts (firstSignificant rest)) (hrun : p.run region rest = ⟨.ok value, next⟩)
    (h : (firstOf alternatives).run region rest = ⟨.failed error, left⟩) : error.isBlock := by
  unfold firstOf at h
  dsimp only at h
  generalize ({} : Failures) = failures at h
  induction alternatives generalizing failures with
  | nil => cases hp
  | cons first others ih =>
    rw [runFirst] at h
    rcases List.mem_cons.mp hp with rfl | hothers
    · rw [if_pos haccepts, hrun] at h
      cases h
    · split at h
      · split at h
        · cases h
        · split at h
          · next hblock =>
            cases h
            exact hblock
          · exact ih hothers _ h
        · cases h
      · exact ih hothers _ h

/-- Matches up to the end fail with an error from inside brackets alone, when wherever tokens are
left a match consumes some of them or fails with such an error. -/
theorem isBlock_of_runAll_failed {p : Parser α} {next : List Token} {error : ParseError}
    (hmoves : ∀ rest value next, rest ≠ [] → p.run region rest = ⟨.ok value, next⟩ →
      next.length < rest.length)
    (hfails : ∀ rest error next, rest ≠ [] → p.run region rest = ⟨.failed error, next⟩ →
      error.isBlock)
    (h : runAll p region rest = ⟨.failed error, next⟩) : error.isBlock := by
  fun_induction runAll p region rest with
  | case1 => cases h
  | case2 rest hempty value middle hrun hlt ih =>
    generalize runAll p region middle = reply at h ih
    rcases reply with ⟨values | cause | _, left⟩
    · cases h
    · cases h
      exact ih rfl
    · cases h
  | case3 rest hempty value middle hrun hlt =>
    exact absurd (hmoves rest value middle (by simpa using hempty) hrun) hlt
  | case4 rest hempty cause middle hrun =>
    cases h
    exact hfails rest error next (by simpa using hempty) hrun
  | case5 => cases h

end StyleSyntax.Parser
