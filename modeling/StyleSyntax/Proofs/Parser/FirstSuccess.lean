import StyleSyntax.Proofs.Parser.Refusal

/-!
# The outcome of a choice

What a choice answers depends on its alternatives as a whole. Only those count whose check accepts
the next significant token, and each of them runs from the same tokens. The first that settles the
choice gives its outcome, and a failure from inside brackets settles it as much as a success. If
none does, every alternative that was tried has failed outside brackets, and of these failures the
first that came after a first step is reported, or else the first of all.
-/

namespace StyleSyntax.Parser

variable {α : Type} {region : Region} {rest next : List Token}

/-- The alternatives whose check accepts the next significant token. -/
def triedOf (rest : List Token) (alternatives : List (Parser α)) : List (Parser α) :=
  alternatives.filter fun p => p.accepts (firstSignificant rest)

/-- Whether no later alternative is tried after the parser: it succeeds, or fails inside brackets,
or never ends. -/
def settles (region : Region) (rest : List Token) (p : Parser α) : Bool :=
  match (p.run region rest).outcome with
  | .ok _ => true
  | .failed error => error.isBlock
  | .endless => true

/-- The error of a parser that fails. -/
def error? (region : Region) (rest : List Token) (p : Parser α) : Option ParseError :=
  match (p.run region rest).outcome with
  | .failed error => some error
  | _ => none

/-- The errors of those parsers that fail. -/
def errorsOf (region : Region) (rest : List Token) (parsers : List (Parser α)) :
    List ParseError :=
  parsers.filterMap (error? region rest)

/-- The error that is reported for a list of them: the first that came after a first step, or else
the first. -/
def reportedOf (errors : List ParseError) : Option ParseError :=
  (errors.find? ParseError.isPartial).or errors.head?

/-- Recording errors one after another keeps the first of each sort. -/
theorem foldl_record (errors : List ParseError) (failures : Failures) :
    errors.foldl Failures.record failures =
      ⟨failures.begun.or (errors.find? ParseError.isPartial),
        failures.outright.or (errors.find? fun error => !error.isPartial)⟩ := by
  induction errors generalizing failures with
  | nil => simp
  | cons error errors ih =>
    rw [List.foldl_cons, ih]
    unfold Failures.record
    cases hpartial : error.isPartial <;> simp [hpartial]

/-- If no error came after a first step, the first error is the first of the other sort. -/
theorem report_foldl_record (errors : List ParseError) (region : Region) (rest : List Token) :
    (errors.foldl Failures.record {}).report region rest =
      (reportedOf errors).getD (region.unexpected rest) := by
  rw [foldl_record, Failures.report, reportedOf]
  simp only [Option.none_or]
  cases hbegun : errors.find? ParseError.isPartial with
  | some error => rfl
  | none =>
    rw [List.find?_eq_none] at hbegun
    cases errors with
    | nil => rfl
    | cons error errors => simp [hbegun error]

/-- The reported error is one of the errors. -/
theorem mem_of_reportedOf {errors : List ParseError} {error : ParseError}
    (h : reportedOf errors = some error) : error ∈ errors := by
  rcases Option.or_eq_some_iff.mp h with h | ⟨-, h⟩
  · exact List.mem_of_find?_eq_some h
  · exact List.mem_of_head? h

/-- Only an empty list of errors has none to report. -/
theorem reportedOf_eq_none {errors : List ParseError} : reportedOf errors = none ↔ errors = [] := by
  cases errors <;> simp [reportedOf]

/-- A parser with an error fails with it. -/
theorem error?_eq_some {p : Parser α} {error : ParseError} :
    error? region rest p = some error ↔ ∃ left, p.run region rest = ⟨.failed error, left⟩ := by
  unfold error?
  rcases p.run region rest with ⟨value | cause | _, left⟩ <;> simp

/-- A parser that does not settle a choice has an error. -/
theorem exists_error_of_not_settles {p : Parser α} (h : settles region rest p = false) :
    ∃ error, error? region rest p = some error := by
  unfold settles at h
  unfold error?
  rcases hrun : p.run region rest with ⟨value | error | _, left⟩
  · simp [hrun] at h
  · exact ⟨error, rfl⟩
  · simp [hrun] at h

/-- An alternative that is not tried has no part in a choice. -/
theorem triedOf_cons_of_not {p : Parser α} (h : ¬p.accepts (firstSignificant rest))
    (others : List (Parser α)) : triedOf rest (p :: others) = triedOf rest others :=
  List.filter_cons_of_neg h

/-- An alternative that is tried comes before the later ones. -/
theorem triedOf_cons {p : Parser α} (h : p.accepts (firstSignificant rest))
    (others : List (Parser α)) : triedOf rest (p :: others) = p :: triedOf rest others :=
  List.filter_cons_of_pos h

/-- After some failures, the first alternative that settles the choice gives its outcome, or else
the errors of all that were tried are added to the failures. -/
theorem runFirst_eq (region : Region) (rest : List Token) (failures : Failures)
    (alternatives : List (Parser α)) :
    runFirst region rest failures alternatives =
      match (triedOf rest alternatives).find? (settles region rest) with
      | some p => (attempt p).run region rest
      | none =>
        let errors := errorsOf region rest (triedOf rest alternatives)
        ⟨.failed ((errors.foldl Failures.record failures).report region rest), rest⟩ := by
  induction alternatives generalizing failures with
  | nil => rfl
  | cons p others ih =>
    rw [runFirst]
    by_cases haccepts : p.accepts (firstSignificant rest)
    · rw [if_pos haccepts, triedOf_cons haccepts]
      rcases hrun : p.run region rest with ⟨value | error | _, left⟩
      · have hsettles : settles region rest p = true := by simp [settles, hrun]
        simp [hsettles, attempt, hrun]
      · have hsettles : settles region rest p = error.isBlock := by simp [settles, hrun]
        have herror : error? region rest p = some error := error?_eq_some.mpr ⟨left, hrun⟩
        cases hblock : error.isBlock with
        | true => simp [hsettles, hblock, attempt, hrun]
        | false => simp [hsettles, hblock, ih, errorsOf, herror]
      · have hsettles : settles region rest p = true := by simp [settles, hrun]
        simp [hsettles, attempt, hrun]
    · rw [if_neg haccepts, triedOf_cons_of_not haccepts, ih]

/-- The alternatives that are tried are the tried ones among themselves. -/
theorem triedOf_triedOf (rest : List Token) (alternatives : List (Parser α)) :
    triedOf rest (triedOf rest alternatives) = triedOf rest alternatives := by
  unfold triedOf
  rw [List.filter_filter]
  simp

/-- Where none settles the choice, every parser has an error. -/
theorem map_error?_eq {parsers : List (Parser α)}
    (h : parsers.find? (settles region rest) = none) :
    parsers.map (error? region rest) = (errorsOf region rest parsers).map some := by
  induction parsers with
  | nil => rfl
  | cons p others ih =>
    rw [List.find?_eq_none, List.forall_mem_cons, ← List.find?_eq_none] at h
    obtain ⟨error, herror⟩ := exists_error_of_not_settles (by simpa using h.1)
    simp [errorsOf, herror, ih h.2]

/-- An attempt fails back at the start with the error of its parser. -/
theorem attempt_run_eq_failed {p : Parser α} {error : ParseError} :
    (attempt p).run region rest = ⟨.failed error, next⟩ ↔
      (∃ left, p.run region rest = ⟨.failed error, left⟩) ∧ next = rest := by
  unfold attempt
  dsimp only
  rcases p.run region rest with ⟨value | cause | _, left⟩ <;> simp [eq_comm]

/-- The first alternative that is tried and settles the choice gives its outcome, or else the choice
fails back at the start. -/
theorem firstOf_run_eq_match (alternatives : List (Parser α)) (region : Region)
    (rest : List Token) :
    (firstOf alternatives).run region rest =
      match (triedOf rest alternatives).find? (settles region rest) with
      | some p => (attempt p).run region rest
      | none =>
        ⟨.failed ((reportedOf (errorsOf region rest (triedOf rest alternatives))).getD
          (region.unexpected rest)), rest⟩ := by
  change runFirst region rest {} alternatives = _
  rw [runFirst_eq, ← report_foldl_record]

/-- A choice fails back at the start with the error of an alternative that was tried, or because
none was. -/
theorem cases_of_firstOf_failed {alternatives : List (Parser α)} {error : ParseError}
    (h : (firstOf alternatives).run region rest = ⟨.failed error, next⟩) :
    next = rest ∧
      ((∃ p ∈ triedOf rest alternatives, ∃ left, p.run region rest = ⟨.failed error, left⟩) ∨
        triedOf rest alternatives = [] ∧ error = region.unexpected rest) := by
  rw [firstOf_run_eq_match] at h
  cases hfirst : (triedOf rest alternatives).find? (settles region rest) with
  | some p =>
    rw [hfirst] at h
    have hp := List.mem_of_find?_eq_some hfirst
    obtain ⟨hp', hnext⟩ := attempt_run_eq_failed.mp h
    exact ⟨hnext, .inl ⟨p, hp, hp'⟩⟩
  | none =>
    rw [hfirst] at h
    cases h
    refine ⟨rfl, ?_⟩
    cases hreported : reportedOf (errorsOf region rest (triedOf rest alternatives)) with
    | some error =>
      obtain ⟨p, hp, herror⟩ := List.mem_filterMap.mp (mem_of_reportedOf hreported)
      exact .inl ⟨p, hp, error?_eq_some.mp herror⟩
    | none =>
      have hnone : (triedOf rest alternatives).map (error? region rest) = [] := by
        rw [map_error?_eq hfirst]
        exact congrArg (List.map some) (reportedOf_eq_none.mp hreported)
      exact .inr ⟨List.map_eq_nil_iff.mp hnone, rfl⟩

/-- A choice between alternatives. The first one tried that settles it gives the outcome, which is
its value with the tokens left after it, or its error with the choice back at the start. If none
settles it, all that were tried have failed, and the choice is back at the start with the first
error that came after a first step, or else the first error, or else that no rule applies.
Alternatives that were not tried change nothing, and no error of theirs is ever given. -/
theorem firstOf_run_eq (alternatives : List (Parser α)) (region : Region) (rest : List Token) :
    let tried := triedOf rest alternatives
    let errors := errorsOf region rest tried
    (firstOf alternatives).run region rest =
        (match tried.find? (settles region rest) with
        | some p => (attempt p).run region rest
        | none =>
          ⟨.failed (((errors.find? ParseError.isPartial).or errors.head?).getD
            (region.unexpected rest)), rest⟩) ∧
      (tried.find? (settles region rest) = none →
        tried.map (error? region rest) = errors.map some) ∧
      (firstOf tried).run region rest = (firstOf alternatives).run region rest ∧
      ∀ error next, (firstOf alternatives).run region rest = ⟨.failed error, next⟩ →
        next = rest ∧ ((∃ p ∈ tried, ∃ left, p.run region rest = ⟨.failed error, left⟩) ∨
          tried = [] ∧ error = region.unexpected rest) := by
  intro tried errors
  have hrun := firstOf_run_eq_match alternatives region rest
  refine ⟨hrun, map_error?_eq, ?_, fun error next => cases_of_firstOf_failed⟩
  rw [firstOf_run_eq_match tried, triedOf_triedOf]
  exact hrun.symm

/-- The last of three alternatives had matched its first step, so its error is given and not the
earlier one of the first. The second is not tried, although it would have succeeded. -/
theorem firstOf_run_eq_pair :
    let region : Region := ⟨{}, ⟨1, 2⟩⟩
    let rest : List Token := [⟨.literal, ['a'], .start⟩]
    let mark := sequence [keyword ['m']]
    let name := sequence [keyword ['a']]
    let pair := sequence [keyword ['a'], keyword ['b']]
    let alternatives := [mark, probe (fun _ => false) name, pair]
    let error := (ParseError.leaf (.unexpectedEnd (quotedName ['b'])) ⟨1, 2⟩).within (.step 1)
    (name.run region rest).outcome = .ok rest ∧ triedOf rest alternatives = [mark, pair] ∧
      (triedOf rest alternatives).find? (settles region rest) = none ∧
      (firstOf alternatives).run region rest = ⟨.failed error, rest⟩ ∧
      ∃ p ∈ [mark, pair], ∃ left, p.run region rest = ⟨.failed error, left⟩ := by
  intro region rest mark name pair alternatives error
  obtain ⟨hrun, -, -, hfailed⟩ := firstOf_run_eq alternatives region rest
  have hnone : (triedOf rest alternatives).find? (settles region rest) = none := rfl
  have herror : (firstOf alternatives).run region rest = ⟨.failed error, rest⟩ := by
    rw [hrun, hnone]
    rfl
  rcases (hfailed error rest herror).2 with hmem | ⟨htried, -⟩
  · exact ⟨by decide, rfl, hnone, herror, hmem⟩
  · cases htried

end StyleSyntax.Parser
