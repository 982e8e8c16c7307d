import StyleSyntax.Lexer.Reader

/-!
# Reading a text with a cursor

A cursor divides a text into what has been passed and what is left, and knows the position of
the next character. All consuming operations go through `Cursor.take`, which moves characters
from the second part to the first and advances the position over them; so the two parts always
make up the text, and the position is always the origin advanced over the first part.
-/

namespace StyleSyntax

/-- A text under reading. -/
structure Cursor where
  /-- The characters before the cursor, in reading order. -/
  passed : Text
  /-- The characters after the cursor. -/
  rest : Text
  /-- Where the next character sits. -/
  position : Position
deriving DecidableEq

namespace Cursor

/-- The cursor before the first character of a text that sits at `origin`. -/
def ofText (text : Text) (origin : Position) : Cursor :=
  ⟨[], text, origin⟩

/-- The whole text. -/
def text (cursor : Cursor) : Text :=
  cursor.passed ++ cursor.rest

/-- The number of bytes before the cursor. -/
def offset (cursor : Cursor) : Nat :=
  Text.byteLength cursor.passed

/-- Moves over the next `count` characters and returns them. -/
def take (cursor : Cursor) (count : Nat) : Text × Cursor :=
  let taken := cursor.rest.take count
  (taken, ⟨cursor.passed ++ taken, cursor.rest.drop count, cursor.position.advanceText taken⟩)

/-- The next character. -/
def peek (cursor : Cursor) : Option Char :=
  cursor.rest.head?

/-- The character `count` places after the next one. -/
def peekAt (cursor : Cursor) (count : Nat) : Option Char :=
  (cursor.rest.drop count).head?

/-- Whether nothing is left. -/
def isAtEnd (cursor : Cursor) : Bool :=
  cursor.rest.isEmpty

/-- Moves over the next character, if there is one. -/
def advance (cursor : Cursor) : Option Char × Cursor :=
  (cursor.peek, (cursor.take 1).2)

/-- Moves over the next character; at the end of the text this is an error and the cursor stays. -/
def nextChar (cursor : Cursor) : Except LexError Char × Cursor :=
  match cursor.rest with
  | [] => (.error ⟨.unexpectedEnd, cursor.position⟩, cursor)
  | c :: _ => (.ok c, (cursor.take 1).2)

/-- Moves over the characters up to the first one outside the class. -/
def readWhile (cursor : Cursor) (isMember : Char → Bool) : Text × Cursor :=
  cursor.take (Text.lengthWhile isMember cursor.rest)

/-- Moves through the first occurrence of the delimiter, or to the end of the text. -/
def readUntil (cursor : Cursor) (delimiter : Text) : Text × Cursor :=
  cursor.take (Text.lengthThrough delimiter cursor.rest)

/-- The text between an earlier place, given by the number of characters before it, and the
cursor. -/
def sliceFrom (cursor : Cursor) (place : Nat) : Text :=
  cursor.passed.drop place

/-- Lets a reader try. A reader that declines leaves the cursor; one that fails leaves it where
the fault was seen. -/
def read (cursor : Cursor) (reader : Reader) (config : LexerConfig) :
    Except LexError (Option Token) × Cursor :=
  match reader config cursor.rest with
  | .declined => (.ok none, cursor)
  | .lexeme kind length =>
    let (value, next) := cursor.take length
    (.ok (some ⟨kind, value, cursor.position⟩), next)
  | .failed fault blame stop =>
    (.error ⟨fault, (cursor.take blame).2.position⟩, (cursor.take stop).2)

@[simp] theorem text_ofText (text : Text) (origin : Position) : (ofText text origin).text = text :=
  rfl

/-- Moving keeps the text. -/
@[simp] theorem text_take (cursor : Cursor) (count : Nat) :
    (cursor.take count).2.text = cursor.text := by
  simp [take, Cursor.text]

/-- One operation on a cursor. -/
inductive Action where
  | peek
  | peekAt (count : Nat)
  | advance
  | nextChar
  | startsWith (opening : Text)
  | isAtEnd
  | rest
  | readWhile (isMember : Char → Bool)
  | readUntil (delimiter : Text)
  /-- Remembers the place of the cursor. -/
  | mark
  /-- Asks for the text from a remembered place to the cursor. -/
  | slice (index : Nat)
  | read (reader : Reader) (config : LexerConfig)

/-- What an operation gives back. -/
inductive Result where
  | nothing
  | char (c : Char)
  | text (text : Text)
  | flag (value : Bool)
  | token (token : Token)
  | error (error : LexError)

/-- A missing character gives nothing back. -/
def Result.ofChar? : Option Char → Result
  | none => .nothing
  | some c => .char c

/-- A cursor with the places remembered so far. -/
structure Reading where
  cursor : Cursor
  marks : List Nat := []

/-- Performs one operation. -/
def Reading.perform (reading : Reading) : Action → Result × Reading
  | .peek => (.ofChar? reading.cursor.peek, reading)
  | .peekAt count => (.ofChar? (reading.cursor.peekAt count), reading)
  | .advance =>
    let (c, cursor) := reading.cursor.advance
    (.ofChar? c, { reading with cursor })
  | .nextChar =>
    match reading.cursor.nextChar with
    | (.ok c, cursor) => (.char c, { reading with cursor })
    | (.error error, cursor) => (.error error, { reading with cursor })
  | .startsWith opening => (.flag (Text.startsWith reading.cursor.rest opening), reading)
  | .isAtEnd => (.flag reading.cursor.isAtEnd, reading)
  | .rest => (.text reading.cursor.rest, reading)
  | .readWhile isMember =>
    let (taken, cursor) := reading.cursor.readWhile isMember
    (.text taken, { reading with cursor })
  | .readUntil delimiter =>
    let (taken, cursor) := reading.cursor.readUntil delimiter
    (.text taken, { reading with cursor })
  | .mark => (.nothing, { reading with marks := reading.marks ++ [reading.cursor.passed.length] })
  | .slice index =>
    match reading.marks[index]? with
    | some place => (.text (reading.cursor.sliceFrom place), reading)
    | none => (.nothing, reading)
  | .read reader config =>
    match reading.cursor.read reader config with
    | (.ok (some token), cursor) => (.token token, { reading with cursor })
    | (.ok none, cursor) => (.nothing, { reading with cursor })
    | (.error error, cursor) => (.error error, { reading with cursor })

end Cursor

end StyleSyntax
