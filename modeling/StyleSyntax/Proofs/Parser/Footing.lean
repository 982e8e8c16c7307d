import StyleSyntax.Proofs.Parser.FirstSuccess
import StyleSyntax.Proofs.Parser.Success

/-!
# Where a failure leaves a parser

Combinators that give up an alternative go back to the start whatever the error is. The others hand
on the tokens as they are when a part of them fails, and then they have moved if an earlier part
did. They are kept apart by what their later parts can fail with: an optional part fails only inside
brackets, and so do repetitions, which are made of optional parts, and the interior of a block. So
after a first part that goes back, no failure outside brackets is left that could have moved.
-/

namespace StyleSyntax.Parser

/-- Where the parser fails with such an error, it leaves all tokens as they were. -/
structure StaysOn (errors : ParseError → Prop) {α : Type} (p : Parser α) : Prop where
  next_eq {region : Region} {rest next : List Token} {error : ParseError} :
    p.run region rest = ⟨.failed error, next⟩ → errors error → next = rest

/-- The parser fails with such errors alone. -/
structure FailsWith (errors : ParseError → Prop) {α : Type} (p : Parser α) : Prop where
  of_run {region : Region} {rest next : List Token} {error : ParseError} :
    p.run region rest = ⟨.failed error, next⟩ → errors error

variable {α β σ : Type} {errors : ParseError → Prop} {region : Region} {rest next : List Token}

/-- A parser that never fails with some errors stays on them. -/
theorem FailsWith.staysOn {p : Parser α} (h : p.FailsWith fun error => ¬errors error) :
    p.StaysOn errors :=
  ⟨fun hrun herror => absurd herror (h.of_run hrun)⟩

/-- A value where it stands is no failure. -/
theorem failsWith_pure (value : α) : (pure value : Parser α).FailsWith errors :=
  ⟨fun h => by cases h⟩

/-- A changed value changes no failure. -/
theorem map_run_eq_failed {p : Parser α} {f : α → β} {error : ParseError} :
    (p.map f).run region rest = ⟨.failed error, next⟩ ↔
      p.run region rest = ⟨.failed error, next⟩ := by
  rw [run_map]
  rcases p.run region rest with ⟨value | cause | _, left⟩ <;> simp [Reply.map, Outcome.map]

/-- A sequence fails where its first part does, or where the next part fails after it. -/
theorem bind_run_eq_failed {p : Parser α} {following : α → Parser β} {error : ParseError} :
    (p >>= following).run region rest = ⟨.failed error, next⟩ ↔
      p.run region rest = ⟨.failed error, next⟩ ∨
        ∃ value middle, p.run region rest = ⟨.ok value, middle⟩ ∧
          (following value).run region middle = ⟨.failed error, next⟩ := by
  rw [run_bind]
  rcases p.run region rest with ⟨value | cause | _, left⟩ <;> simp

/-- An optional part fails back at the start, and only inside brackets. -/
theorem optional_run_eq_failed {p : Parser α} {error : ParseError} :
    p.optional.run region rest = ⟨.failed error, next⟩ ↔
      p.accepts (firstSignificant rest) ∧ (∃ left, p.run region rest = ⟨.failed error, left⟩) ∧
        error.isBlock ∧ next = rest := by
  unfold Parser.optional
  dsimp only
  by_cases haccepts : p.accepts (firstSignificant rest)
  · rw [if_pos haccepts]
    rcases p.run region rest with ⟨value | cause | _, left⟩
    · simp
    · dsimp only
      split_ifs with hblock
      · constructor
        · intro h
          cases h
          exact ⟨haccepts, ⟨left, rfl⟩, hblock, rfl⟩
        · rintro ⟨-, ⟨_, h⟩, -, rfl⟩
          cases h
          rfl
      · constructor
        · intro h
          cases h
        · rintro ⟨-, ⟨_, h⟩, herror, -⟩
          cases h
          exact absurd herror hblock
    · simp
  · rw [if_neg haccepts]
    simp [haccepts]

section Combinators

/-- What is made of the value does not matter for a failure. -/
theorem StaysOn.map {p : Parser α} (h : p.StaysOn errors) (f : α → β) :
    (p.map f).StaysOn errors :=
  ⟨fun hrun => h.next_eq (map_run_eq_failed.mp hrun)⟩

/-- A sequence stays on the errors of its first part if the later parts have no such errors. -/
theorem StaysOn.bind {p : Parser α} {following : α → Parser β} (hp : p.StaysOn errors)
    (hfollowing : ∀ value, (following value).FailsWith fun error => ¬errors error) :
    (p >>= following).StaysOn errors := by
  constructor
  intro region rest next error hrun herror
  rcases bind_run_eq_failed.mp hrun with hfirst | ⟨value, middle, -, hlater⟩
  · exact hp.next_eq hfirst herror
  · exact absurd herror ((hfollowing value).of_run hlater)

/-- A sequence fails with errors of its parts alone. -/
theorem FailsWith.bind {p : Parser α} {following : α → Parser β} (hp : p.FailsWith errors)
    (hfollowing : ∀ value, (following value).FailsWith errors) :
    (p >>= following).FailsWith errors := by
  constructor
  intro region rest next error hrun
  rcases bind_run_eq_failed.mp hrun with hfirst | ⟨value, middle, -, hlater⟩
  · exact hp.of_run hfirst
  · exact (hfollowing value).of_run hlater

/-- A check is looked at by a choice and not by the run. -/
theorem StaysOn.probe {p : Parser α} (h : p.StaysOn errors) (test : Token → Bool) :
    (probe test p).StaysOn errors :=
  ⟨fun hrun => h.next_eq hrun⟩

/-- An attempt goes back on every error. -/
theorem staysOn_attempt (p : Parser α) : (attempt p).StaysOn errors :=
  ⟨fun hrun _ => (attempt_run_eq_failed.mp hrun).2⟩

/-- So does a sequence of steps, which is an attempt of them. -/
theorem staysOn_sequence (parsers : List (Parser α)) : (sequence parsers).StaysOn errors :=
  staysOn_attempt _

/-- An optional part hands on an error from the start. -/
theorem staysOn_optional (p : Parser α) : p.optional.StaysOn errors :=
  ⟨fun hrun _ => (optional_run_eq_failed.mp hrun).2.2.2⟩

/-- Errors outside brackets mean that an optional part is left out. -/
theorem failsWith_optional (p : Parser α) : p.optional.FailsWith fun error => error.isBlock :=
  ⟨fun hrun => (optional_run_eq_failed.mp hrun).2.2.1⟩

/-- A capture runs its parser aside and goes back when it fails. -/
theorem staysOn_capture (p : Parser α) : (capture p).StaysOn errors := by
  constructor
  intro region rest next error hrun _
  unfold capture at hrun
  dsimp only at hrun
  split at hrun <;> cases hrun
  rfl

/-- So does a raw value. -/
theorem staysOn_rawValue (p : Parser α) : (rawValue p).StaysOn errors := by
  constructor
  intro region rest next error hrun _
  unfold rawValue at hrun
  dsimp only at hrun
  split at hrun <;> cases hrun
  rfl

/-- So does an excerpt, which is the second part of a capture. -/
theorem staysOn_excerpt (p : Parser α) : (excerpt p).StaysOn errors :=
  (staysOn_capture p).map Prod.snd

/-- A choice goes back to the start, whether an alternative fails inside brackets or all fail. -/
theorem staysOn_firstOf (alternatives : List (Parser α)) :
    (firstOf alternatives).StaysOn errors :=
  ⟨fun hrun _ => (cases_of_firstOf_failed hrun).1⟩

/-- So does a choice of the longest. -/
theorem staysOn_longestOf (alternatives : List (Parser α)) :
    (longestOf alternatives).StaysOn errors := by
  constructor
  intro region rest next error hrun _
  change runLongest region rest none {} alternatives = _ at hrun
  generalize (none : Option (α × List Token)) = best at hrun
  generalize ({} : Failures) = failures at hrun
  induction alternatives generalizing best failures with
  | nil =>
    cases best <;> cases hrun
    rfl
  | cons p others ih =>
    rw [runLongest] at hrun
    split at hrun
    · split at hrun
      · exact ih _ _ hrun
      · split at hrun
        · cases hrun
          rfl
        · exact ih _ _ hrun
      · cases hrun
    · exact ih _ _ hrun

end Combinators

section Repetitions

/-- Repeated matches fail only inside brackets. -/
theorem failsWith_many (p : Parser α) : (many p).FailsWith fun error => error.isBlock := by
  constructor
  intro region rest next error hrun
  change runMany p region rest = _ at hrun
  fun_induction runMany p region rest with
  | case1 => cases hrun
  | case2 => cases hrun
  | case3 rest _ value middle hmatch hlt ih =>
    rcases hothers : runMany p region middle with ⟨values | cause | _, last⟩ <;>
      rw [hothers] at hrun <;> cases hrun
    exact ih hothers
  | case4 => cases hrun
  | case5 rest _ cause middle hmatch =>
    cases hrun
    exact (failsWith_optional p).of_run hmatch
  | case6 => cases hrun

/-- Elements behind separators fail only inside brackets. -/
theorem failsWith_separated (separator : Parser σ) (element : Parser α) :
    (separated separator element).FailsWith fun error => error.isBlock := by
  constructor
  intro region rest next error hrun
  change runSeparated separator element region rest = _ at hrun
  fun_induction runSeparated separator element region rest with
  | case1 => cases hrun
  | case2 => cases hrun
  | case3 rest joint middle hjoint value left helement hlt ih =>
    rcases hothers : runSeparated separator element region left with ⟨values | cause | _, last⟩ <;>
      rw [hothers] at hrun <;> cases hrun
    exact ih hothers
  | case4 => cases hrun
  | case5 rest joint middle hjoint cause left helement =>
    cases hrun
    exact (failsWith_optional element).of_run helement
  | case6 => cases hrun
  | case7 rest cause middle hjoint =>
    cases hrun
    exact (failsWith_optional separator).of_run hjoint
  | case8 => cases hrun

/-- Repeated texts fail only inside brackets. -/
theorem failsWith_runTexts (p : Parser Text) :
    FailsWith (fun error => error.isBlock) { run := runTexts p : Parser Text } := by
  constructor
  intro region rest next error hrun
  change runTexts p region rest = _ at hrun
  fun_induction runTexts p region rest with
  | case1 => cases hrun
  | case2 rest text middle hmatch hlt ih =>
    rcases hothers : runTexts p region middle with ⟨texts | cause | _, last⟩ <;>
      rw [hothers] at hrun <;> cases hrun
    exact ih hothers
  | case3 => cases hrun
  | case4 rest cause middle hmatch =>
    cases hrun
    exact (failsWith_optional p).of_run hmatch
  | case5 => cases hrun

/-- The errors from inside brackets are no others. -/
theorem FailsWith.not_outside {p : Parser α} (h : p.FailsWith fun error => error.isBlock) :
    p.FailsWith fun error => ¬error.isBlock = false :=
  ⟨fun hrun => by simpa using h.of_run hrun⟩

/-- A repetition has no failures outside brackets to stay on. -/
theorem staysOn_many (p : Parser α) : (many p).StaysOn fun error => error.isBlock = false :=
  (failsWith_many p).not_outside.staysOn

/-- A list that moves over its first element fails only inside brackets from there on. -/
theorem staysOn_list (element : Parser α) (separator : Parser σ) (allowEmpty : Bool) :
    (list element separator allowEmpty).StaysOn fun error => error.isBlock = false := by
  constructor
  intro region rest next error hrun herror
  rcases bind_run_eq_failed.mp hrun with hfirst | ⟨first, middle, hfirst, hlater⟩
  · exact (optional_run_eq_failed.mp hfirst).2.2.2
  · cases first with
    | some value =>
      have hothers := (failsWith_separated separator element).bind (fun others =>
        failsWith_pure (value :: others.map Prod.snd))
      simp [hothers.of_run hlater] at herror
    | none =>
      rcases optional_run_eq_ok.mp hfirst with ⟨value, hnone, -⟩ | ⟨-, rfl, -⟩
      · cases hnone
      · cases allowEmpty <;> cases hlater
        rfl

/-- A list with commas is a list that is not empty. -/
theorem staysOn_commaList (element : Parser α) :
    (commaList element).StaysOn fun error => error.isBlock = false :=
  staysOn_list element comma false

/-- Only the left part can fail outside brackets, and it stands first. -/
theorem StaysOn.leftRecursive {left right : Parser Text}
    (h : left.StaysOn fun error => error.isBlock = false) :
    (leftRecursive left right).StaysOn fun error => error.isBlock = false :=
  h.bind fun _ => ((failsWith_runTexts right).bind fun _ => failsWith_pure _).not_outside

end Repetitions

section Matchers

/-- A token that is not the wanted one is left with the trivia before it. -/
theorem staysOn_tokenWhere (wanted : Text) (test : Token → Bool) :
    (tokenWhere wanted test).StaysOn errors := by
  constructor
  intro region rest next error hrun _
  unfold tokenWhere at hrun
  dsimp only at hrun
  split at hrun
  · cases hrun
    rfl
  · split at hrun <;> cases hrun
    rfl

/-- A symbol that is not the wanted one is left with the trivia before it. -/
theorem staysOn_symbol (text : Text) : (symbol text).StaysOn errors := by
  constructor
  intro region rest next error hrun _
  unfold symbol at hrun
  dsimp only at hrun
  split at hrun <;> cases hrun
  rfl

/-- Each of the symbols is tried from the start. -/
theorem staysOn_oneOfSymbols (candidates : List Text) :
    (oneOfSymbols candidates).StaysOn errors := by
  constructor
  intro region rest next error hrun _
  unfold oneOfSymbols at hrun
  dsimp only at hrun
  generalize longestFirst candidates = texts at hrun
  induction texts with
  | nil =>
    cases hrun
    rfl
  | cons text others ih =>
    rw [runSymbols] at hrun
    split at hrun
    · cases hrun
    · exact ih hrun

/-- Looking for spaces takes nothing. -/
theorem staysOn_noSpacesHere : noSpacesHere.StaysOn errors := by
  constructor
  intro region rest next error hrun _
  unfold noSpacesHere at hrun
  dsimp only at hrun
  split at hrun
  · split at hrun <;> cases hrun
    rfl
  · cases hrun

/-- Looking for the end of a line takes nothing. -/
theorem staysOn_noLineTerminatorHere : noLineTerminatorHere.StaysOn errors := by
  constructor
  intro region rest next error hrun _
  unfold noLineTerminatorHere at hrun
  dsimp only at hrun
  split at hrun <;> cases hrun
  rfl

/-- Where there is no trivia none is taken. -/
theorem staysOn_trivia : trivia.StaysOn errors := by
  constructor
  intro region rest next error hrun _
  unfold trivia at hrun
  dsimp only at hrun
  split at hrun <;> cases hrun
  rfl

/-- Looking for the end takes nothing. -/
theorem staysOn_endOfInput : endOfInput.StaysOn errors := by
  constructor
  intro region rest next error hrun _
  unfold endOfInput at hrun
  dsimp only at hrun
  split at hrun <;> cases hrun
  rfl

end Matchers

section Blocks

/-- Every failure of the interior of a token is one from inside brackets. -/
theorem isBlock_of_interior_failed {inner : Parser α} {config : LexerConfig} {token : Token}
    {error : ParseError} (h : interior inner config token = .failed error) : error.isBlock := by
  unfold Parser.interior at h
  cases hinside : runInside inner config token with
  | ok value => rw [hinside] at h; cases h
  | failed cause =>
    rw [hinside] at h
    cases h
    exact ParseError.isBlock_within .block cause
  | endless => rw [hinside] at h; cases h

/-- A block that moves over its token fails only inside brackets from there on. -/
theorem staysOn_block (kinds : List TokenKind) (inner : Parser α) :
    (block kinds inner).StaysOn fun error => error.isBlock = false := by
  refine (staysOn_tokenWhere _ _).bind fun token => FailsWith.not_outside ⟨fun hrun => ?_⟩
  exact isBlock_of_interior_failed (congrArg Reply.outcome hrun)

/-- A block to be read later does not fail once its token is matched. -/
theorem staysOn_lazyBlock (kinds : List TokenKind) (inner : Parser α) :
    (lazyBlock kinds inner).StaysOn errors :=
  (staysOn_tokenWhere _ _).bind fun _ => ⟨fun hrun => by cases hrun⟩

end Blocks

end StyleSyntax.Parser
