import StyleSyntax.Lexer.Config
import StyleSyntax.Parser.Error
import StyleSyntax.Token.Fragment

/-!
# Parsers

A parser runs on the tokens that are left in its region and answers with an outcome and the tokens
left after it, also when it fails. Failure is an ordinary value, and giving up an alternative means
going on from the tokens that were left before it. An error from inside a bracketed token is never
given up: the brackets show that the right alternative had been found.

A parser may also look at the next significant token beforehand. Alternatives and optional parts
whose check refuses that token are passed over and leave no error behind. Only the combinators that
say so ask for the check, and a parser built by sequencing accepts every token.
-/

namespace StyleSyntax

/-- How a computation ends: with a value, with an error, or never, because a loop would go on
without moving. -/
inductive Outcome (ε α : Type) where
  | ok (value : α)
  | failed (error : ε)
  | endless
deriving DecidableEq

namespace Outcome

variable {ε δ α β : Type}

/-- Changes the value. -/
def map (f : α → β) : Outcome ε α → Outcome ε β
  | ok value => ok (f value)
  | failed error => failed error
  | endless => endless

/-- Changes the error. -/
def mapError (f : ε → δ) : Outcome ε α → Outcome δ α
  | ok value => ok value
  | failed error => failed (f error)
  | endless => endless

end Outcome

/-- What a parser knows of the text that its tokens come from. -/
structure Region where
  /-- The settings by which interiors of brackets are split into tokens. -/
  config : LexerConfig
  /-- The position just past the last token. -/
  finish : Position
deriving DecidableEq

/-- The region of a list of tokens whose first character sits at `origin`. -/
def Region.ofTokens (config : LexerConfig) (tokens : List Token) (origin : Position) : Region :=
  ⟨config, endPosition tokens origin⟩

/-- An outcome and the tokens left after it. -/
structure Reply (α : Type) where
  outcome : Outcome ParseError α
  rest : List Token

/-- A computation on the tokens left in a region, with a check of the next significant token. -/
structure Parser (α : Type) where
  run : Region → List Token → Reply α
  accepts : Option Token → Bool := fun _ => true

/-- The error that something is needed where the next significant token stands. -/
def Region.expected (region : Region) (wanted : Text) (rest : List Token) : ParseError :=
  match firstSignificant rest with
  | some token => .expectedAt wanted token
  | none => .leaf (.unexpectedEnd wanted) region.finish

/-- The error that no rule applies to the next significant token. -/
def Region.unexpected (region : Region) (rest : List Token) : ParseError :=
  match firstSignificant rest with
  | some token => .unexpectedAt token
  | none => .leaf (.unexpectedEnd "more input".toList) region.finish

/-- The tokens of `before` that are no longer in `rest`, where `rest` is an end of `before`. -/
def consumed (before rest : List Token) : List Token :=
  before.take (before.length - rest.length)

namespace Reply

variable {α β : Type}

/-- Changes the value. -/
def map (f : α → β) (reply : Reply α) : Reply β :=
  ⟨reply.outcome.map f, reply.rest⟩

/-- Changes the error. -/
def mapError (f : ParseError → ParseError) (reply : Reply α) : Reply α :=
  ⟨reply.outcome.mapError f, reply.rest⟩

end Reply

namespace Parser

variable {α β : Type}

/-- Succeeds where it stands. -/
protected def pure (value : α) : Parser α :=
  { run := fun _ rest => ⟨.ok value, rest⟩ }

/-- Runs a parser, and on success another one that may depend on the value. -/
protected def bind (p : Parser α) (next : α → Parser β) : Parser β :=
  { run := fun region rest =>
      match p.run region rest with
      | ⟨.ok value, rest⟩ => (next value).run region rest
      | ⟨.failed error, rest⟩ => ⟨.failed error, rest⟩
      | ⟨.endless, rest⟩ => ⟨.endless, rest⟩ }

/-- Changes the value of a parser. -/
protected def map (f : α → β) (p : Parser α) : Parser β :=
  { run := fun region rest => (p.run region rest).map f }

instance : Monad Parser where
  pure := Parser.pure
  bind := Parser.bind
  map := Parser.map

@[simp] theorem run_pure (value : α) (region : Region) (rest : List Token) :
    (pure value : Parser α).run region rest = ⟨.ok value, rest⟩ := rfl

/-- Sequencing hands the tokens that are left to the next parser. -/
theorem run_bind (p : Parser α) (next : α → Parser β) (region : Region) (rest : List Token) :
    (p >>= next).run region rest =
      match p.run region rest with
      | ⟨.ok value, rest⟩ => (next value).run region rest
      | ⟨.failed error, rest⟩ => ⟨.failed error, rest⟩
      | ⟨.endless, rest⟩ => ⟨.endless, rest⟩ := rfl

@[simp] theorem run_map (f : α → β) (p : Parser α) (region : Region) (rest : List Token) :
    (p.map f).run region rest = (p.run region rest).map f := rfl

/-- Fails where it stands. -/
def fail (error : Region → List Token → ParseError) : Parser α :=
  { run := fun region rest => ⟨.failed (error region rest), rest⟩ }

/-- Fails because something else is needed here. -/
def expected (wanted : Text) : Parser α :=
  fail fun region rest => region.expected wanted rest

/-- Fails because no rule applies here. -/
def unexpected : Parser α :=
  fail fun region rest => region.unexpected rest

/-- Runs a parser that is only built when it runs. -/
def delay (p : Unit → Parser α) : Parser α :=
  { run := fun region rest => (p ()).run region rest }

/-- Runs a parser and goes back to the start unless it succeeds. -/
def attempt (p : Parser α) : Parser α :=
  { run := fun region rest =>
      match p.run region rest with
      | ⟨.ok value, next⟩ => ⟨.ok value, next⟩
      | ⟨.failed error, _⟩ => ⟨.failed error, rest⟩
      | ⟨.endless, _⟩ => ⟨.endless, rest⟩ }

/-- Runs a parser if its check accepts the next significant token, and turns its failure into no
value; only an error from inside brackets remains an error. -/
def optional (p : Parser α) : Parser (Option α) :=
  { run := fun region rest =>
      if p.accepts (firstSignificant rest) then
        match p.run region rest with
        | ⟨.ok value, next⟩ => ⟨.ok (some value), next⟩
        | ⟨.failed error, _⟩ => if error.isBlock then ⟨.failed error, rest⟩ else ⟨.ok none, rest⟩
        | ⟨.endless, _⟩ => ⟨.endless, rest⟩
      else ⟨.ok none, rest⟩ }

/-- Adds a check of the next significant token; the end of the tokens does not pass it. -/
def probe (test : Token → Bool) (p : Parser α) : Parser α :=
  { p with accepts := fun next => next.any test }

/-- A step of a sequence, which marks its errors unless it is the first. -/
def step (index : Nat) (p : Parser α) : Parser α :=
  { run := fun region rest => (p.run region rest).mapError (ParseError.atStep index) }

/-- Runs parsers one after another and marks the errors by the index of the step, from `index`
on. -/
def stepsFrom (index : Nat) : List (Parser α) → Parser (List α)
  | [] => pure []
  | p :: rest => do
    let value ← step index p
    let values ← stepsFrom (index + 1) rest
    return value :: values

/-- Runs parsers one after another, all or nothing. -/
def sequence (parsers : List (Parser α)) : Parser (List α) :=
  attempt (stepsFrom 0 parsers)

end Parser

end StyleSyntax
