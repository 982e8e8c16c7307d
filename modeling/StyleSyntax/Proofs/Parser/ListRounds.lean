import StyleSyntax.Proofs.Parser.Repetition

/-!
# Rounds of a list

A list reads its first element and then goes round: a separator and an element in every round, until
one of them is left out. A round that consumes tokens brings the end of the tokens nearer, so there
are at most as many of them as tokens are left. But both parts of a round may match nothing, and
nothing in the list looks for that. Such a round leaves what was left before it, every later round
does the same, and the list goes on for ever. Other repetitions stop at a match that consumes
nothing, and always end.
-/

namespace StyleSyntax.Parser

variable {α σ : Type}

/-- Every run of the parser ends, and on success it leaves an end of the tokens. -/
abbrev MovesOn (p : Parser α) : Prop :=
  p.Keeps .any Promise.anything

/-- Every run of the parser ends. -/
def Ends (p : Parser α) : Prop :=
  ∀ region rest, (p.run region rest).outcome ≠ .endless

/-- The tokens that are left behind a part, where the part is found. -/
def leftBehind (p : Parser α) (region : Region) (rest : List Token) : Option (List Token) :=
  match p.optional.run region rest with
  | ⟨.ok (some _), next⟩ => some next
  | _ => none

/-- The tokens that are left after one more round of a list, if it is completed. -/
def nextRound (separator : Parser σ) (element : Parser α) (region : Region)
    (rest : List Token) : Option (List Token) :=
  (leftBehind separator region rest).bind (leftBehind element region)

/-- The tokens that are left after so many rounds of a list, if they are all completed. -/
def afterRounds (separator : Parser σ) (element : Parser α) (region : Region) :
    Nat → List Token → Option (List Token)
  | 0, start => some start
  | n + 1, start =>
    (nextRound separator element region start).bind (afterRounds separator element region n)

/-- Some round of a list consumes nothing. -/
def HasIdleRound (separator : Parser σ) (element : Parser α) (region : Region)
    (start : List Token) : Prop :=
  ∃ n stuck, afterRounds separator element region n start = some stuck ∧
    nextRound separator element region stuck = some stuck

variable {separator : Parser σ} {element : Parser α} {region : Region}
  {rest next start later stuck : List Token} {n : Nat}

/-! ## Rounds -/

/-- A part that is found leaves an end of the tokens. -/
theorem exists_used_of_leftBehind {p : Parser α} {promise : Promise α} (hp : p.Keeps .any promise)
    (h : leftBehind p region rest = some next) :
    ∃ used value, rest = used ++ next ∧ promise region used next value := by
  unfold leftBehind at h
  split at h
  · next value middle hrun =>
    cases h
    obtain ⟨used, hrest, hvalue⟩ := hp.optional.exists_used hrun
    exact ⟨used, value, hrest, hvalue⟩
  · cases h

/-- The last round comes behind all others. -/
theorem afterRounds_succ (n : Nat) (start : List Token) :
    afterRounds separator element region (n + 1) start =
      (afterRounds separator element region n start).bind
        (nextRound separator element region) := by
  induction n generalizing start with
  | zero => simp [afterRounds]
  | succ n ih =>
    cases hround : nextRound separator element region start with
    | none => simp [afterRounds, hround]
    | some next =>
      rw [afterRounds, hround, Option.bind_some, ih, afterRounds, hround, Option.bind_some]

/-- Rounds that are all completed have completed beginnings. -/
theorem exists_afterRounds_of_add {m : Nat}
    (h : afterRounds separator element region (n + m) start = some later) :
    ∃ middle, afterRounds separator element region n start = some middle := by
  induction m generalizing later with
  | zero => exact ⟨later, h⟩
  | succ m ih =>
    rw [← Nat.add_assoc, afterRounds_succ] at h
    obtain ⟨middle, hmiddle, -⟩ := Option.bind_eq_some_iff.mp h
    exact ih hmiddle

/-- No round is idle where none is completed. -/
theorem not_hasIdleRound_of_none (h : nextRound separator element region start = none) :
    ¬ HasIdleRound separator element region start := by
  rintro ⟨n, stuck, hstuck, hround⟩
  cases n with
  | zero =>
    cases hstuck
    cases h.symm.trans hround
  | succ n =>
    rw [afterRounds, h] at hstuck
    cases hstuck

/-- A list has an idle round behind one that consumes something just when it has one at all. -/
theorem hasIdleRound_iff_of_some (h : nextRound separator element region start = some next)
    (hmoves : next ≠ start) :
    HasIdleRound separator element region start ↔ HasIdleRound separator element region next := by
  have hlater (n : Nat) : afterRounds separator element region (n + 1) start =
      afterRounds separator element region n next := by rw [afterRounds, h, Option.bind_some]
  constructor
  · rintro ⟨n, stuck, hstuck, hround⟩
    cases n with
    | zero =>
      cases hstuck
      cases h.symm.trans hround
      exact absurd rfl hmoves
    | succ n => exact ⟨n, stuck, (hlater n).symm.trans hstuck, hround⟩
  · rintro ⟨n, stuck, hstuck, hround⟩
    exact ⟨n + 1, stuck, (hlater n).trans hstuck, hround⟩

/-- Behind a round that consumes nothing there is always one more. -/
theorem HasIdleRound.exists_afterRounds (h : HasIdleRound separator element region start)
    (n : Nat) : ∃ later, afterRounds separator element region n start = some later := by
  obtain ⟨first, stuck, hstuck, hround⟩ := h
  have hlater (m : Nat) :
      afterRounds separator element region (first + m) start = some stuck := by
    induction m with
    | zero => exact hstuck
    | succ m ih => rw [← Nat.add_assoc, afterRounds_succ, ih, Option.bind_some, hround]
  have hmore := hlater n
  rw [Nat.add_comm] at hmore
  exact exists_afterRounds_of_add hmore

section MovesOn

variable (helement : element.MovesOn) (hseparator : separator.MovesOn)

include helement hseparator

/-- A round leaves an end of the tokens. -/
theorem suffix_of_nextRound (h : nextRound separator element region rest = some next) :
    next <:+ rest := by
  obtain ⟨middle, hmiddle, hnext⟩ := Option.bind_eq_some_iff.mp h
  obtain ⟨before, -, rfl, -⟩ := exists_used_of_leftBehind hseparator hmiddle
  obtain ⟨used, -, rfl, -⟩ := exists_used_of_leftBehind helement hnext
  exact ⟨before ++ used, List.append_assoc _ _ _⟩

/-- Each round of a list without idle ones takes at least one token. -/
theorem length_of_afterRounds (hmoves : ¬ HasIdleRound separator element region start)
    (h : afterRounds separator element region n start = some later) :
    later.length + n ≤ start.length := by
  induction n generalizing later with
  | zero =>
    cases h
    exact Nat.le_refl _
  | succ n ih =>
    rw [afterRounds_succ] at h
    obtain ⟨middle, hmiddle, hround⟩ := Option.bind_eq_some_iff.mp h
    have hsuffix := suffix_of_nextRound helement hseparator hround
    have hne : later ≠ middle := by
      rintro rfl
      exact hmoves ⟨n, later, hmiddle, hround⟩
    have hshorter : later.length < middle.length :=
      Nat.lt_of_le_of_ne hsuffix.length_le fun heq => hne (hsuffix.eq_of_length heq)
    have hbound := ih hmiddle
    omega

/-- The rounds come to an end in time unless one of them is idle. -/
theorem afterRounds_eq_none_iff :
    afterRounds separator element region (start.length + 1) start = none ↔
      ¬ HasIdleRound separator element region start := by
  constructor
  · intro hnone hidle
    obtain ⟨later, hlater⟩ := hidle.exists_afterRounds (start.length + 1)
    cases hnone.symm.trans hlater
  · intro hmoves
    cases hrounds : afterRounds separator element region (start.length + 1) start with
    | none => rfl
    | some later =>
      have hbound := length_of_afterRounds helement hseparator hmoves hrounds
      omega

/-- Elements behind separators go on for ever just when a round of them is idle. -/
theorem runSeparated_eq_endless_iff :
    (runSeparated separator element region rest).outcome = .endless ↔
      HasIdleRound separator element region rest := by
  fun_induction runSeparated separator element region rest with
  | case1 rest next hsign =>
    refine iff_of_false (by simp) (not_hasIdleRound_of_none ?_)
    simp [nextRound, leftBehind, hsign]
  | case2 rest sign middle hsign next hvalue =>
    refine iff_of_false (by simp) (not_hasIdleRound_of_none ?_)
    simp [nextRound, leftBehind, hsign, hvalue]
  | case3 rest sign middle hsign value next hvalue hlt ih =>
    have hround : nextRound separator element region rest = some next := by
      simp [nextRound, leftBehind, hsign, hvalue]
    have hmoves : next ≠ rest := by
      rintro rfl
      exact Nat.lt_irrefl _ hlt
    rw [hasIdleRound_iff_of_some hround hmoves, ← ih]
    generalize runSeparated separator element region next = reply
    rcases reply with ⟨values | error | _, last⟩ <;> simp [Reply.map, Outcome.map]
  | case4 rest sign middle hsign value next hvalue hlt =>
    have hround : nextRound separator element region rest = some next := by
      simp [nextRound, leftBehind, hsign, hvalue]
    have hsuffix := suffix_of_nextRound helement hseparator hround
    obtain rfl := hsuffix.eq_of_length_le (Nat.not_lt.mp hlt)
    exact iff_of_true rfl ⟨0, next, rfl, hround⟩
  | case5 rest sign middle hsign error next hvalue =>
    refine iff_of_false (by simp) (not_hasIdleRound_of_none ?_)
    simp [nextRound, leftBehind, hsign, hvalue]
  | case6 rest sign middle hsign next hvalue =>
    have hends := helement.optional.outcome_ne_endless region middle
    exact absurd (congrArg Reply.outcome hvalue) hends
  | case7 rest error next hsign =>
    refine iff_of_false (by simp) (not_hasIdleRound_of_none ?_)
    simp [nextRound, leftBehind, hsign]
  | case8 rest next hsign =>
    have hends := hseparator.optional.outcome_ne_endless region rest
    exact absurd (congrArg Reply.outcome hsign) hends

/-- A list goes on for ever just when its first element is found and a round behind it is idle. -/
theorem list_run_eq_endless_iff (allowEmpty : Bool) :
    ((list element separator allowEmpty).run region rest).outcome = .endless ↔
      ∃ start ∈ leftBehind element region rest, HasIdleRound separator element region start := by
  rw [list, run_bind, leftBehind]
  rcases hfirst : element.optional.run region rest with ⟨found | error | _, start⟩
  · cases found with
    | none =>
      have hends : ((if allowEmpty then pure [] else fail fun region rest =>
          .leaf (.emptyList "list element".toList) (significantPosition rest region.finish) :
          Parser (List α)).run region start).outcome ≠ .endless := by
        cases allowEmpty <;> simp [fail]
      exact iff_of_false hends (by simp)
    | some first =>
      have hothers : (runSeparated separator element region start).outcome = .endless ↔
          HasIdleRound separator element region start :=
        runSeparated_eq_endless_iff helement hseparator
      simp only [Option.mem_def, Option.some.injEq, exists_eq_left', ← hothers]
      change ((separated separator element >>= _).run region start).outcome = _ ↔ _
      rw [run_bind]
      change _ ↔ ((separated separator element).run region start).outcome = .endless
      generalize (separated separator element).run region start = reply
      rcases reply with ⟨values | error | _, last⟩ <;> simp
  · exact iff_of_false (by simp) (by simp)
  · exact absurd (congrArg Reply.outcome hfirst) (helement.optional.outcome_ne_endless region rest)

omit hseparator in
/-- No round is idle when separators always consume something. -/
theorem not_hasIdleRound_of_separator {joint : Promise σ} (hjoint : separator.Keeps .any joint)
    (hmoves : ∀ region used next sign, joint region used next sign → used ≠ []) :
    ¬ HasIdleRound separator element region start := by
  rintro ⟨n, stuck, -, hround⟩
  obtain ⟨middle, hmiddle, hnext⟩ := Option.bind_eq_some_iff.mp hround
  obtain ⟨before, sign, hbefore, hsign⟩ := exists_used_of_leftBehind hjoint hmiddle
  obtain ⟨used, -, hused, -⟩ := exists_used_of_leftBehind helement hnext
  have hpos := List.length_pos_of_ne_nil (hmoves _ _ _ _ hsign)
  have hlengths := congrArg List.length (hbefore.trans (congrArg (before ++ ·) hused))
  simp only [List.length_append] at hlengths
  omega

end MovesOn

/-! ## Repetitions that end -/

/-- Zero or more matches end. -/
theorem ends_many {p : Parser α} (hp : p.MovesOn) : Ends (many p) := by
  have hmany : (many p).Keeps .any Promise.anything :=
    hp.many (fun _ _ => trivial) fun _ _ _ _ _ _ _ _ => trivial
  exact hmany.outcome_ne_endless

/-- Matches up to the end do end. -/
theorem ends_all {p : Parser α} (hp : p.MovesOn) : Ends (all p) := by
  have hall : (all p).Keeps .any fun _ _ next _ => next = [] ∧ True :=
    hp.all (fun _ => trivial) fun _ _ _ _ _ _ _ => trivial
  exact hall.outcome_ne_endless

/-- A first match and further ones behind it end. -/
theorem ends_leftRecursive {left right : Parser Text} (hleft : left.MovesOn)
    (hright : right.MovesOn) : Ends (leftRecursive left right) := by
  have hmore : ({ run := runTexts right } : Parser Text).Keeps .any Promise.anything :=
    hright.texts (fun _ _ => trivial) fun _ _ _ _ _ _ _ _ => trivial
  have hboth : (leftRecursive left right).Keeps .any Promise.anything :=
    Keeps.bind hleft fun _ => Keeps.bind hmore fun _ => keeps_pure fun _ _ _ _ _ _ => trivial
  exact hboth.outcome_ne_endless

/-- The loop of a list makes at most one round for each token that is left and one more, unless a
round of it consumes nothing; then there is always one more round, and the list goes on for ever.
The other repetitions end whatever they repeat. -/
theorem list_ends_iff (helement : element.MovesOn) (hseparator : separator.MovesOn)
    (allowEmpty : Bool) (region : Region) (rest : List Token) :
    ((∀ start ∈ leftBehind element region rest,
        afterRounds separator element region (start.length + 1) start = none) ↔
      ∀ start ∈ leftBehind element region rest, ¬ HasIdleRound separator element region start) ∧
    (((list element separator allowEmpty).run region rest).outcome = .endless ↔
      ∃ start ∈ leftBehind element region rest, HasIdleRound separator element region start) ∧
    (∀ start, HasIdleRound separator element region start →
      ∀ n, ∃ later, afterRounds separator element region n start = some later) ∧
    Ends (many element) ∧ Ends (all element) ∧
    ∀ left right : Parser Text, left.MovesOn → right.MovesOn → Ends (leftRecursive left right) := by
  refine ⟨?_, list_run_eq_endless_iff helement hseparator allowEmpty,
    fun _ hidle => hidle.exists_afterRounds, ends_many helement, ends_all helement,
    fun _ _ => ends_leftRecursive⟩
  exact forall₂_congr fun start _ => afterRounds_eq_none_iff helement hseparator

/-- Words that may be left out between commas. -/
theorem list_ends_iff_commas :
    let element := (keyword ['a']).optional
    let tokens : List Token := [⟨.literal, ['a'], ⟨1, 1⟩⟩, ⟨.comma, [','], ⟨1, 2⟩⟩,
      ⟨.comma, [','], ⟨1, 3⟩⟩, ⟨.literal, ['a'], ⟨1, 4⟩⟩]
    element.MovesOn ∧ comma.MovesOn ∧
      leftBehind element ⟨{}, ⟨1, 5⟩⟩ tokens = some tokens.tail ∧
      ∀ start ∈ leftBehind element ⟨{}, ⟨1, 5⟩⟩ tokens,
        afterRounds comma element ⟨{}, ⟨1, 5⟩⟩ (start.length + 1) start = none := by
  intro element tokens
  have helement : element.MovesOn :=
    (keeps_keyword ['a']).optional.mono fun _ _ _ _ _ => trivial
  have hcomma : comma.Keeps .any Promise.significant := keeps_anyToken .comma
  have hseparator : comma.MovesOn := hcomma.mono fun _ _ _ _ _ => trivial
  refine ⟨helement, hseparator, rfl,
    (list_ends_iff helement hseparator false _ tokens).1.mpr fun start _ => ?_⟩
  exact not_hasIdleRound_of_separator helement hcomma fun _ _ _ _ h => h.ne_nil

/-- Words and commas that may both be left out are read for ever where there are none of them. -/
theorem list_run_optional_commas :
    let element := (keyword ['a']).optional
    let separator := comma.optional
    element.MovesOn ∧ separator.MovesOn ∧ leftBehind element ⟨{}, .start⟩ [] = some [] ∧
      (∀ n, afterRounds separator element ⟨{}, .start⟩ n [] = some []) ∧
      ((list element separator false).run ⟨{}, .start⟩ []).outcome = .endless := by
  intro element separator
  have helement : element.MovesOn :=
    (keeps_keyword ['a']).optional.mono fun _ _ _ _ _ => trivial
  have hseparator : separator.MovesOn :=
    (keeps_anyToken .comma).optional.mono fun _ _ _ _ _ => trivial
  have hrounds (n : Nat) : afterRounds separator element ⟨{}, .start⟩ n [] = some [] := by
    induction n with
    | zero => rfl
    | succ n ih => exact ih
  exact ⟨helement, hseparator, rfl, hrounds,
    (list_run_eq_endless_iff helement hseparator false).mpr ⟨[], rfl, 0, [], rfl, rfl⟩⟩

end StyleSyntax.Parser
