import StyleSyntax.Lexer.Fault
import StyleSyntax.Token.Basic

/-!
# Parse errors

A parse error is a cause with a position, or a frame around another error: the step of a sequence
that failed, or the brackets whose interior did. Each level has a position of its own, and a frame
is put around an error with the position that the error has. So an error stands for a chain of
errors, from the outermost frame in to the cause, and has the message of the cause.
-/

namespace StyleSyntax

/-- Why a parser failed. -/
inductive ParseFault where
  /-- The tokens ran out while this was still needed. -/
  | unexpectedEnd (wanted : Text)
  /-- Another token stands where this is needed. -/
  | expected (wanted found : Text)
  /-- No rule applies to the token. -/
  | unexpectedToken (found : Text)
  /-- A list that needs an element has none. -/
  | emptyList (wanted : Text)
  /-- The interior of a bracketed token has no tokens. -/
  | lexical (fault : LexFault)
deriving DecidableEq, Inhabited

/-- The wording of a cause. -/
def ParseFault.message : ParseFault → Text
  | .unexpectedEnd wanted => "unexpected end of input, ".toList ++ wanted ++ " is expected".toList
  | .expected wanted found => wanted ++ " is expected, found '".toList ++ found ++ ['\x27']
  | .unexpectedToken found => "unexpected token '".toList ++ found ++ ['\x27']
  | .emptyList wanted => "at least one ".toList ++ wanted ++ " is expected".toList
  | .lexical fault => fault.message

/-- What an error is put into on the way out. -/
inductive Frame where
  /-- Step `index` of a sequence, after earlier steps had matched. -/
  | step (index : Nat)
  /-- The interior of a bracketed token. -/
  | block
deriving DecidableEq, Inhabited

/-- A cause, or a frame around another error, each with a position. -/
inductive ParseError where
  | leaf (fault : ParseFault) (position : Position)
  | framed (frame : Frame) (position : Position) (cause : ParseError)
deriving DecidableEq, Inhabited

namespace ParseError

/-- The position of the outermost level. -/
def position : ParseError → Position
  | leaf _ position | framed _ position _ => position

/-- The innermost cause. -/
def fault : ParseError → ParseFault
  | leaf fault _ => fault
  | framed _ _ cause => cause.fault

/-- The frames around the cause with the outermost one first. -/
def context : ParseError → List Frame
  | leaf .. => []
  | framed frame _ cause => frame :: cause.context

/-- The error of a text without tokens. -/
def ofLexError (error : LexError) : ParseError :=
  leaf (.lexical error.fault) error.position

/-- The error that something else is needed where a token stands. -/
def expectedAt (wanted : Text) (token : Token) : ParseError :=
  leaf (.expected wanted token.value) token.position

/-- The error that no rule applies to a token. -/
def unexpectedAt (token : Token) : ParseError :=
  leaf (.unexpectedToken token.value) token.position

/-- Puts a frame around the error. -/
def within (frame : Frame) (error : ParseError) : ParseError :=
  framed frame error.position error

/-- The failure of a sequence at a step. The first step leaves the error as it is, since nothing
had matched before it. -/
def atStep (index : Nat) (error : ParseError) : ParseError :=
  if index = 0 then error else error.within (.step index)

/-- Whether the error arose inside a bracketed token. Such an error is never given up for another
alternative. -/
def isBlock : ParseError → Bool
  | leaf .. => false
  | framed .block _ _ => true
  | framed (.step _) _ cause => cause.isBlock

/-- Whether a sequence failed after its first step. -/
def isPartial : ParseError → Bool
  | framed (.step _) _ _ => true
  | _ => false

/-- Whether the error is that the tokens ran out, with no frame around it. -/
def isUnexpectedEnd : ParseError → Bool
  | leaf (.unexpectedEnd _) _ => true
  | _ => false

/-- The error that this one wraps. -/
def cause? : ParseError → Option ParseError
  | leaf .. => none
  | framed _ _ cause => some cause

/-- The innermost error. -/
def rootCause : ParseError → ParseError
  | leaf fault position => leaf fault position
  | framed _ _ cause => cause.rootCause

/-- The error and all that it wraps, from the outside in. -/
def chain : ParseError → List ParseError
  | leaf fault position => [leaf fault position]
  | framed frame position cause => framed frame position cause :: cause.chain

/-- The wording without the place. -/
def wording (error : ParseError) : Text :=
  error.fault.message

/-- The wording with the place. -/
def message (error : ParseError) : Text :=
  error.wording ++ error.position.suffix

@[simp] theorem position_within (frame : Frame) (error : ParseError) :
    (error.within frame).position = error.position := rfl

@[simp] theorem cause?_within (frame : Frame) (error : ParseError) :
    (error.within frame).cause? = some error := rfl

@[simp] theorem rootCause_within (frame : Frame) (error : ParseError) :
    (error.within frame).rootCause = error.rootCause := rfl

/-- What is inside a bracketed token stays so in any further frame. -/
theorem isBlock_within (frame : Frame) (error : ParseError) :
    (error.within frame).isBlock = (frame == .block || error.isBlock) := by
  cases frame <;> rfl

end ParseError

end StyleSyntax
