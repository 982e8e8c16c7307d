import Mathlib.Data.List.Nodup
import StyleSyntax.Parser.Bracketed
import StyleSyntax.Proofs.Parser.FirstSuccess

/-!
# The outcome of a choice of the longest

A choice of the longest runs every alternative whose check accepts the next significant token, each
from the same tokens, and keeps the success that leaves the fewest tokens. A later success replaces
the kept one only if it leaves fewer, so among equals the earliest stays. A failure from inside
brackets ends the search whatever was kept before it. Without any success the choice is back at the
start with the error that a choice of the first would report.
-/

namespace StyleSyntax.Parser

variable {α : Type} {region : Region} {rest : List Token}

/-- Whether the search for the longest ends at the parser: it fails inside brackets, or never
ends. -/
def aborts (region : Region) (rest : List Token) (p : Parser α) : Bool :=
  match (p.run region rest).outcome with
  | .ok _ => false
  | .failed error => error.isBlock
  | .endless => true

/-- The value of a parser that succeeds and the tokens that it leaves. -/
def success? (region : Region) (rest : List Token) (p : Parser α) : Option (α × List Token) :=
  match p.run region rest with
  | ⟨.ok value, next⟩ => some (value, next)
  | _ => none

/-- The successes of those parsers that succeed. -/
def successesOf (region : Region) (rest : List Token) (parsers : List (Parser α)) :
    List (α × List Token) :=
  parsers.filterMap (success? region rest)

/-- The success leaves fewer tokens than all before it and no more than any behind it. -/
def IsFurthest (successes : List (α × List Token)) (taken : α × List Token) : Prop :=
  ∃ front back, successes = front ++ taken :: back ∧
    (∀ other ∈ front, taken.2.length < other.2.length) ∧
    ∀ other ∈ back, taken.2.length ≤ other.2.length

/-- The success that is kept when these follow the one kept before. -/
def keptOf (best : Option (α × List Token)) (successes : List (α × List Token)) :
    Option (α × List Token) :=
  successes.foldl (fun best found => some (furthest best found.1 found.2)) best

namespace IsFurthest

variable {successes : List (α × List Token)} {taken : α × List Token}

/-- The furthest success is one of the successes. -/
theorem mem (h : IsFurthest successes taken) : taken ∈ successes := by
  obtain ⟨front, back, rfl, -⟩ := h
  simp

/-- The furthest success leaves no more tokens than any other. -/
theorem length_le (h : IsFurthest successes taken) {other : α × List Token}
    (hother : other ∈ successes) : taken.2.length ≤ other.2.length := by
  obtain ⟨front, back, rfl, hfront, hback⟩ := h
  rcases List.mem_append.mp hother with hother | hother
  · exact Nat.le_of_lt (hfront other hother)
  · rcases List.mem_cons.mp hother with rfl | hother
    · exact Nat.le_refl _
    · exact hback other hother

/-- A success in front that leaves more tokens changes nothing. -/
theorem cons_of_lt {held : α × List Token} (h : IsFurthest successes taken)
    (hheld : taken.2.length < held.2.length) : IsFurthest (held :: successes) taken := by
  obtain ⟨front, back, rfl, hfront, hback⟩ := h
  exact ⟨held :: front, back, rfl, List.forall_mem_cons.mpr ⟨hheld, hfront⟩, hback⟩

/-- A success right behind the first one that leaves no fewer tokens changes nothing. -/
theorem cons_cons_of_le {held found : α × List Token} (h : IsFurthest (held :: successes) taken)
    (hfound : held.2.length ≤ found.2.length) :
    IsFurthest (held :: found :: successes) taken := by
  obtain ⟨front, back, hsplit, hfront, hback⟩ := h
  cases front with
  | nil =>
    obtain ⟨rfl, rfl⟩ := List.cons.inj hsplit
    exact ⟨[], found :: successes, rfl, by simp, List.forall_mem_cons.mpr ⟨hfound, hback⟩⟩
  | cons first front =>
    obtain ⟨rfl, rfl⟩ := List.cons.inj hsplit
    rw [List.forall_mem_cons] at hfront
    refine ⟨held :: found :: front, back, rfl, ?_, hback⟩
    simp only [List.forall_mem_cons]
    exact ⟨hfront.1, Nat.lt_of_lt_of_le hfront.1 hfound, hfront.2⟩

/-- Where no two successes leave equally many tokens, the furthest one does not depend on their
order. -/
theorem eq_of_perm {others : List (α × List Token)} {taken' : α × List Token}
    (h : IsFurthest successes taken) (h' : IsFurthest others taken') (hperm : others.Perm successes)
    (hdistinct : (successes.map fun found => found.2.length).Nodup) : taken' = taken := by
  have hmem : taken' ∈ successes := hperm.subset h'.mem
  refine List.inj_on_of_nodup_map hdistinct hmem h.mem (Nat.le_antisymm ?_ (h.length_le hmem))
  exact h'.length_le (hperm.symm.subset h.mem)

end IsFurthest

/-- Of a kept success and those that follow it the furthest is kept. -/
theorem exists_keptOf_some (held : α × List Token) (successes : List (α × List Token)) :
    ∃ taken, keptOf (some held) successes = some taken ∧ IsFurthest (held :: successes) taken := by
  induction successes generalizing held with
  | nil => exact ⟨held, rfl, [], [], rfl, by simp, by simp⟩
  | cons found successes ih =>
    obtain ⟨taken, hkept, htaken⟩ := ih (furthest (some held) found.1 found.2)
    refine ⟨taken, hkept, ?_⟩
    unfold furthest at htaken
    dsimp only at htaken
    split_ifs at htaken with hlt
    · exact htaken.cons_of_lt (Nat.lt_of_le_of_lt (htaken.length_le List.mem_cons_self) hlt)
    · exact htaken.cons_cons_of_le (Nat.not_lt.mp hlt)

/-- Of some successes the furthest is kept. -/
theorem exists_keptOf_none {successes : List (α × List Token)} (h : successes ≠ []) :
    ∃ taken, keptOf none successes = some taken ∧ IsFurthest successes taken := by
  obtain ⟨held, successes, rfl⟩ := List.exists_cons_of_ne_nil h
  exact exists_keptOf_some held successes

/-- A parser that does not abort the search succeeds, or fails with an error that is recorded. -/
theorem run_cases_of_not_aborts {p : Parser α} (h : aborts region rest p = false) :
    (∃ value next, p.run region rest = ⟨.ok value, next⟩) ∨
      ∃ error next, p.run region rest = ⟨.failed error, next⟩ ∧ error.isBlock = false := by
  unfold aborts at h
  rcases hrun : p.run region rest with ⟨value | error | _, next⟩
  · exact .inl ⟨value, next, rfl⟩
  · rw [hrun] at h
    exact .inr ⟨error, next, rfl, h⟩
  · rw [hrun] at h
    cases h

/-- After some success and failures, the first alternative that aborts the search gives its outcome.
If none does, the furthest success is given, or else the errors of all that were tried are added to
the failures. -/
theorem runLongest_eq (region : Region) (rest : List Token) (best : Option (α × List Token))
    (failures : Failures) (alternatives : List (Parser α)) :
    runLongest region rest best failures alternatives =
      match (triedOf rest alternatives).find? (aborts region rest) with
      | some p => ⟨(p.run region rest).outcome, rest⟩
      | none =>
        match keptOf best (successesOf region rest (triedOf rest alternatives)) with
        | some (value, next) => ⟨.ok value, next⟩
        | none =>
          let errors := errorsOf region rest (triedOf rest alternatives)
          ⟨.failed ((errors.foldl Failures.record failures).report region rest), rest⟩ := by
  induction alternatives generalizing best failures with
  | nil => cases best <;> rfl
  | cons p others ih =>
    rw [runLongest]
    by_cases haccepts : p.accepts (firstSignificant rest)
    · rw [if_pos haccepts, triedOf_cons haccepts]
      rcases hrun : p.run region rest with ⟨value | error | _, left⟩
      · have haborts : aborts region rest p = false := by simp [aborts, hrun]
        have hsuccess : success? region rest p = some (value, left) := by simp [success?, hrun]
        have herror : error? region rest p = none := by simp [error?, hrun]
        simp [haborts, ih, successesOf, hsuccess, errorsOf, herror, keptOf]
      · have haborts : aborts region rest p = error.isBlock := by simp [aborts, hrun]
        have hsuccess : success? region rest p = none := by simp [success?, hrun]
        have herror : error? region rest p = some error := error?_eq_some.mpr ⟨left, hrun⟩
        cases hblock : error.isBlock with
        | true => simp [haborts, hblock, hrun]
        | false => simp [haborts, hblock, ih, successesOf, hsuccess, errorsOf, herror]
      · have haborts : aborts region rest p = true := by simp [aborts, hrun]
        simp [haborts, hrun]
    · rw [if_neg haccepts, triedOf_cons_of_not haccepts, ih]

/-- A choice of the longest depends on the alternatives that are tried alone. -/
theorem longestOf_run_eq_match (alternatives : List (Parser α)) (region : Region)
    (rest : List Token) :
    (longestOf alternatives).run region rest =
      match (triedOf rest alternatives).find? (aborts region rest) with
      | some p => ⟨(p.run region rest).outcome, rest⟩
      | none =>
        match keptOf none (successesOf region rest (triedOf rest alternatives)) with
        | some (value, next) => ⟨.ok value, next⟩
        | none =>
          ⟨.failed ((reportedOf (errorsOf region rest (triedOf rest alternatives))).getD
            (region.unexpected rest)), rest⟩ := by
  change runLongest region rest none {} alternatives = _
  rw [runLongest_eq, ← report_foldl_record]

/-- Some success among alternatives none of which aborts the search gives the furthest one. -/
theorem exists_longestOf_run {alternatives : List (Parser α)}
    (h : ∀ p ∈ triedOf rest alternatives, aborts region rest p = false)
    (hsuccesses : successesOf region rest (triedOf rest alternatives) ≠ []) :
    ∃ value next, IsFurthest (successesOf region rest (triedOf rest alternatives)) (value, next) ∧
      (longestOf alternatives).run region rest = ⟨.ok value, next⟩ := by
  obtain ⟨⟨value, next⟩, hkept, htaken⟩ := exists_keptOf_none hsuccesses
  have hnone : (triedOf rest alternatives).find? (aborts region rest) = none :=
    List.find?_eq_none.mpr fun p hp => by simp [h p hp]
  exact ⟨value, next, htaken, by rw [longestOf_run_eq_match, hnone, hkept]⟩

/-- Without a success and without one that aborts the search, no alternative settles a choice of
the first either. -/
theorem find?_settles_eq_none {parsers : List (Parser α)}
    (h : ∀ p ∈ parsers, aborts region rest p = false)
    (hsuccesses : successesOf region rest parsers = []) :
    parsers.find? (settles region rest) = none := by
  rw [List.find?_eq_none]
  intro p hp
  rcases run_cases_of_not_aborts (h p hp) with ⟨value, next, hrun⟩ | ⟨error, next, hrun, hblock⟩
  · have hnone : success? region rest p = none :=
      List.filterMap_eq_nil_iff.mp hsuccesses p hp
    simp [success?, hrun] at hnone
  · simp [settles, hrun, hblock]

/-- Without a success a choice of the longest fails as a choice of the first does. -/
theorem longestOf_run_of_successesOf_eq_nil {alternatives : List (Parser α)}
    (h : ∀ p ∈ triedOf rest alternatives, aborts region rest p = false)
    (hsuccesses : successesOf region rest (triedOf rest alternatives) = []) :
    ∃ error, (longestOf alternatives).run region rest = ⟨.failed error, rest⟩ ∧
      (firstOf alternatives).run region rest = ⟨.failed error, rest⟩ := by
  have hnone : (triedOf rest alternatives).find? (aborts region rest) = none :=
    List.find?_eq_none.mpr fun p hp => by simp [h p hp]
  refine ⟨(reportedOf (errorsOf region rest (triedOf rest alternatives))).getD
    (region.unexpected rest), ?_, ?_⟩
  · rw [longestOf_run_eq_match, hnone, hsuccesses]
    rfl
  · rw [firstOf_run_eq_match, find?_settles_eq_none h hsuccesses]

/-- Other orders of the alternatives change nothing where no two successes leave equally many
tokens and the error of a failure can be but one. -/
theorem longestOf_run_of_perm {alternatives others : List (Parser α)}
    (h : ∀ p ∈ triedOf rest alternatives, aborts region rest p = false)
    (hperm : others.Perm alternatives)
    (hdistinct : ((successesOf region rest (triedOf rest alternatives)).map
      fun found => found.2.length).Nodup)
    (hsingle : successesOf region rest (triedOf rest alternatives) = [] →
      (triedOf rest alternatives).length ≤ 1) :
    (longestOf others).run region rest = (longestOf alternatives).run region rest := by
  have htried : (triedOf rest others).Perm (triedOf rest alternatives) := hperm.filter _
  have hsuccesses := htried.filterMap (success? region rest)
  have hothers : ∀ p ∈ triedOf rest others, aborts region rest p = false :=
    fun p hp => h p (htried.subset hp)
  by_cases hnone : successesOf region rest (triedOf rest alternatives) = []
  · have hsame : triedOf rest others = triedOf rest alternatives := by
      rcases Nat.le_one_iff_eq_zero_or_eq_one.mp (hsingle hnone) with hlength | hlength
      · rw [List.length_eq_zero_iff] at hlength
        rw [hlength] at htried ⊢
        exact htried.eq_nil
      · obtain ⟨p, hp⟩ := List.length_eq_one_iff.mp hlength
        rw [hp] at htried ⊢
        exact List.perm_singleton.mp htried
    rw [longestOf_run_eq_match others, longestOf_run_eq_match alternatives, hsame]
  · have hne : successesOf region rest (triedOf rest others) ≠ [] := by
      intro hnil
      exact hnone ((hnil ▸ hsuccesses : List.Perm [] _).symm.eq_nil)
    obtain ⟨value, next, htaken, hrun⟩ := exists_longestOf_run h hnone
    obtain ⟨value', next', htaken', hrun'⟩ := exists_longestOf_run hothers hne
    cases htaken.eq_of_perm htaken' hsuccesses hdistinct
    rw [hrun, hrun']

/-- A choice of the longest between alternatives. The first one tried that fails inside brackets
gives its error with the choice back at the start, also after a success; so does one that never
ends. If there is none of these, some success means that the furthest one is given with the tokens
left after it, and without any success the choice is back at the start as a choice of the first is.
The order of the alternatives does not matter where no two successes leave equally many tokens; it
is only the error of a failure that it could change as well. -/
theorem longestOf_run_eq (alternatives : List (Parser α)) (region : Region) (rest : List Token) :
    let tried := triedOf rest alternatives
    let successes := successesOf region rest tried
    let reply := (longestOf alternatives).run region rest
    (∀ p, tried.find? (aborts region rest) = some p →
        reply = ⟨(p.run region rest).outcome, rest⟩) ∧
      ((∀ p ∈ tried, aborts region rest p = false) →
        (successes ≠ [] → ∃ value next, IsFurthest successes (value, next) ∧
          reply = ⟨.ok value, next⟩) ∧
        (successes = [] → ∃ error, reply = ⟨.failed error, rest⟩ ∧
          (firstOf alternatives).run region rest = ⟨.failed error, rest⟩) ∧
        ∀ others : List (Parser α), others.Perm alternatives →
          (successes.map fun found => found.2.length).Nodup →
          (successes = [] → tried.length ≤ 1) → (longestOf others).run region rest = reply) := by
  intro tried successes reply
  constructor
  · intro p hp
    change (longestOf alternatives).run region rest = _
    rw [longestOf_run_eq_match, hp]
  · intro h
    exact ⟨exists_longestOf_run h, longestOf_run_of_successesOf_eq_nil h,
      fun others hperm hdistinct hsingle => longestOf_run_of_perm h hperm hdistinct hsingle⟩

/-- Of two words the pair is taken before and behind the single word, and a mark that is not there
fails alone. Of a region in braces and its interior the interior gives its error, although the
region as a token is found first. -/
theorem longestOf_run_eq_words :
    let region : Region := ⟨{}, ⟨1, 3⟩⟩
    let words : List Token := [⟨.literal, ['a'], ⟨1, 1⟩⟩, ⟨.literal, ['b'], ⟨1, 2⟩⟩]
    let braces : List Token := [⟨.lazyBlock, ['\x7b', '\x7d'], ⟨1, 1⟩⟩]
    let name := sequence [keyword ['a']]
    let pair := sequence [keyword ['a'], keyword ['b']]
    let mark := sequence [keyword ['m']]
    let body := block [.lazyBlock] name
    (∀ p ∈ triedOf words [name, mark, pair], aborts region words p = false) ∧
      IsFurthest (successesOf region words (triedOf words [name, mark, pair])) (words, []) ∧
      (longestOf [name, mark, pair]).run region words = ⟨.ok words, []⟩ ∧
      (longestOf [pair, name, mark]).run region words = ⟨.ok words, []⟩ ∧
      (∃ error, (longestOf [mark]).run region words = ⟨.failed error, words⟩ ∧
        (firstOf [mark]).run region words = ⟨.failed error, words⟩) ∧
      ((sequence [anyBlock]).run region braces).outcome = .ok braces ∧
      (longestOf [sequence [anyBlock], body]).run region braces =
        ⟨(body.run region braces).outcome, braces⟩ := by
  intro region words braces name pair mark body
  obtain ⟨-, hthree⟩ := longestOf_run_eq [name, mark, pair] region words
  obtain ⟨-, hone⟩ := longestOf_run_eq [mark] region words
  obtain ⟨hbraces, -⟩ := longestOf_run_eq [sequence [anyBlock], body] region braces
  have hthree' : ∀ p ∈ triedOf words [name, mark, pair], aborts region words p = false := by
    intro p hp
    simp only [triedOf, List.mem_filter, List.mem_cons, List.not_mem_nil, or_false] at hp
    rcases hp.1 with rfl | rfl | rfl <;> rfl
  obtain ⟨hfurthest, -, hperm⟩ := hthree hthree'
  obtain ⟨value, next, htaken, hrun⟩ := hfurthest (List.cons_ne_nil _ _)
  have hwords : (longestOf [name, mark, pair]).run region words = ⟨.ok words, []⟩ := rfl
  obtain ⟨hvalue, rfl⟩ := Reply.mk.inj (hrun.symm.trans hwords)
  obtain rfl := Outcome.ok.inj hvalue
  refine ⟨hthree', htaken, hwords, ?_, ?_, rfl, hbraces body ?_⟩
  · refine Eq.trans (hperm [pair, name, mark] ?_ (by decide) ?_) hwords
    · exact @List.perm_append_comm _ [pair] [name, mark]
    · intro hnone
      cases hnone
  · have hone' : ∀ p ∈ triedOf words [mark], aborts region words p = false := by
      intro p hp
      obtain rfl := List.mem_singleton.mp hp
      rfl
    exact (hone hone').2.1 rfl
  · have hwhole : aborts region braces (sequence [anyBlock]) = false := rfl
    have hbody : aborts region braces body = true := by decide +kernel
    rw [show triedOf braces [sequence [anyBlock], body] = [sequence [anyBlock], body] from rfl]
    simp [hwhole, hbody]

end StyleSyntax.Parser
