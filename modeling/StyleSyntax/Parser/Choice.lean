import StyleSyntax.Parser.Basic

/-!
# Alternatives

Alternatives all start from the same tokens. Those whose check refuses the next significant token
are passed over. An error from inside brackets ends the search at once. If no alternative succeeds,
the error of a sequence that had matched its first step is preferred, since it got further than one
that failed outright; among equals the earlier alternative is reported.
-/

namespace StyleSyntax.Parser

variable {α : Type}

/-- The failures of alternatives that are worth reporting. -/
structure Failures where
  /-- The first failure after a first step. -/
  begun : Option ParseError := none
  /-- The first failure of another sort. -/
  outright : Option ParseError := none
deriving DecidableEq

/-- Keeps a failure unless an earlier one of its sort is known. -/
def Failures.record (failures : Failures) (error : ParseError) : Failures :=
  if error.isPartial then { failures with begun := failures.begun.or (some error) }
  else { failures with outright := failures.outright.or (some error) }

/-- The failure to report. -/
def Failures.report (failures : Failures) (region : Region) (rest : List Token) : ParseError :=
  (failures.begun.or failures.outright).getD (region.unexpected rest)

/-- Tries alternatives in order after the given failures. -/
def runFirst (region : Region) (rest : List Token) (failures : Failures) :
    List (Parser α) → Reply α
  | [] => ⟨.failed (failures.report region rest), rest⟩
  | p :: others =>
    if p.accepts (firstSignificant rest) then
      match p.run region rest with
      | ⟨.ok value, next⟩ => ⟨.ok value, next⟩
      | ⟨.failed error, _⟩ =>
        if error.isBlock then ⟨.failed error, rest⟩
        else runFirst region rest (failures.record error) others
      | ⟨.endless, _⟩ => ⟨.endless, rest⟩
    else runFirst region rest failures others

/-- The first alternative that succeeds. -/
def firstOf (alternatives : List (Parser α)) : Parser α :=
  { run := fun region rest => runFirst region rest {} alternatives }

/-- The better of two successes: the new one only if it leaves fewer tokens. -/
def furthest (best : Option (α × List Token)) (value : α) (next : List Token) : α × List Token :=
  match best with
  | none => (value, next)
  | some (held, left) => if next.length < left.length then (value, next) else (held, left)

/-- Tries all alternatives after the given success and failures. -/
def runLongest (region : Region) (rest : List Token) (best : Option (α × List Token))
    (failures : Failures) : List (Parser α) → Reply α
  | [] =>
    match best with
    | some (value, next) => ⟨.ok value, next⟩
    | none => ⟨.failed (failures.report region rest), rest⟩
  | p :: others =>
    if p.accepts (firstSignificant rest) then
      match p.run region rest with
      | ⟨.ok value, next⟩ =>
        runLongest region rest (some (furthest best value next)) failures others
      | ⟨.failed error, _⟩ =>
        if error.isBlock then ⟨.failed error, rest⟩
        else runLongest region rest best (failures.record error) others
      | ⟨.endless, _⟩ => ⟨.endless, rest⟩
    else runLongest region rest best failures others

/-- The alternative that consumes the most tokens; of equals the first. -/
def longestOf (alternatives : List (Parser α)) : Parser α :=
  { run := fun region rest => runLongest region rest none {} alternatives }

end StyleSyntax.Parser
