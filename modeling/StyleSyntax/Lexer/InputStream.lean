import StyleSyntax.Lexer.Cursor
import StyleSyntax.Text.Bytes

/-!
# Streams of characters

A stream holds a whole text, the number of bytes before its next character and the position of that
character. The two are kept apart: a character moves the offset by its bytes and the position by a
line or a column, while a search sets the offset from the byte offset at which it found its
delimiter and moves the position over all that lies between. What is given back is cut out of the
text between offsets. Where an offset lies inside a character there is nothing to cut out, and the
text given back is empty; no stream gets there from the beginning of its text.
-/

namespace StyleSyntax

/-- A text under reading. -/
structure InputStream where
  text : Text
  /-- The number of bytes before the next character. -/
  offset : Nat
  /-- Where the next character sits. -/
  position : Position
deriving DecidableEq

namespace InputStream

/-- The stream before the first character of a text that sits at `origin`. -/
def ofText (text : Text) (origin : Position) : InputStream :=
  ⟨text, 0, origin⟩

/-- Whether nothing is left. -/
def isAtEnd (stream : InputStream) : Bool :=
  Text.byteLength stream.text ≤ stream.offset

/-- The text that is left, where the offset is a place in the text. -/
def rest? (stream : InputStream) : Option Text :=
  Text.fromByte? stream.text stream.offset

/-- The text that is left. -/
def rest (stream : InputStream) : Text :=
  stream.rest?.getD []

/-- The next character. -/
def peek (stream : InputStream) : Option Char :=
  stream.rest.head?

/-- The character `count` places after the next one. -/
def peekAt (stream : InputStream) (count : Nat) : Option Char :=
  stream.rest[count]?

/-- Whether the text that is left begins with the given characters. -/
def startsWith (stream : InputStream) (opening : Text) : Bool :=
  Text.startsWith stream.rest opening

/-- The text between a saved offset and the stream, where both are places in the text. -/
def sliceFrom? (stream : InputStream) (start : Nat) : Option Text :=
  Text.betweenBytes? stream.text start stream.offset

/-- The text between a saved offset and the stream. -/
def sliceFrom (stream : InputStream) (start : Nat) : Text :=
  (stream.sliceFrom? start).getD []

/-- Moves over a character. -/
def bump (stream : InputStream) (c : Char) : InputStream :=
  { stream with
    offset := stream.offset + c.utf8Size
    position := stream.position.advance c }

/-- Moves over the next character; at the end of the text this is an error and the stream stays. -/
def nextChar (stream : InputStream) : Except LexError Char × InputStream :=
  match stream.peek with
  | none => (.error ⟨.unexpectedEnd, stream.position⟩, stream)
  | some c => (.ok c, stream.bump c)

/-- Moves over the next character, if there is one. -/
def advance (stream : InputStream) : Option Char × InputStream :=
  match stream.peek with
  | none => (none, stream)
  | some c => (some c, stream.bump c)

/-- The number of bytes from the next character on. -/
def bytesLeft (stream : InputStream) : Nat :=
  Text.byteLength stream.text - stream.offset

/-- A next character lies before the end of the text. -/
theorem offset_lt_of_peek {stream : InputStream} {c : Char} (h : stream.peek = some c) :
    stream.offset < Text.byteLength stream.text := by
  rw [peek, rest] at h
  cases hrest : stream.rest? with
  | none => rw [hrest] at h; cases h
  | some after =>
    rw [hrest] at h
    obtain ⟨later, rfl⟩ := List.head?_eq_some_iff.mp h
    exact Text.lt_byteLength_of_fromByte? hrest

/-- Behind the next character fewer bytes are left. -/
theorem bytesLeft_bump_lt {stream : InputStream} {c : Char} (h : stream.peek = some c) :
    (stream.bump c).bytesLeft < stream.bytesLeft := by
  have hlt := offset_lt_of_peek h
  have hsize := c.utf8Size_pos
  simp only [bytesLeft, bump]
  omega

/-- Moves over characters as long as they belong to the class. -/
def bumpWhile (isMember : Char → Bool) (stream : InputStream) : InputStream :=
  match _ : stream.peek with
  | none => stream
  | some c => if isMember c then bumpWhile isMember (stream.bump c) else stream
termination_by stream.bytesLeft
decreasing_by exact bytesLeft_bump_lt ‹_›

/-- Moves over the characters up to the first one outside the class. -/
def readWhile (stream : InputStream) (isMember : Char → Bool) : Text × InputStream :=
  let next := stream.bumpWhile isMember
  (next.sliceFrom stream.offset, next)

/-- The offset behind the first occurrence of the delimiter, or the end of the text. -/
def offsetThrough (stream : InputStream) (delimiter : Text) : Nat :=
  match Text.findByte? delimiter stream.rest with
  | some found => stream.offset + found + Text.byteLength delimiter
  | none => Text.byteLength stream.text

/-- Moves through the first occurrence of the delimiter, or to the end of the text. -/
def readUntil (stream : InputStream) (delimiter : Text) : Text × InputStream :=
  let stop := stream.offsetThrough delimiter
  let consumed := (Text.betweenBytes? stream.text stream.offset stop).getD []
  (consumed,
    { stream with offset := stop, position := stream.position.advanceText consumed })

variable {stream : InputStream}

/-- An advance does not move the stream back. -/
theorem bytesLeft_advance_le (stream : InputStream) :
    stream.advance.2.bytesLeft ≤ stream.bytesLeft := by
  unfold advance
  split
  · exact Nat.le_refl _
  · next c hpeek => exact Nat.le_of_lt (bytesLeft_bump_lt hpeek)

/-- An advance moves the stream on where there is a character. -/
theorem bytesLeft_advance_lt {c : Char} (h : stream.peek = some c) :
    stream.advance.2.bytesLeft < stream.bytesLeft := by
  rw [advance, h]
  exact bytesLeft_bump_lt h

/-- A character and the one behind it are passed where there is one at least. -/
theorem bytesLeft_advance_advance_lt {c : Char} (h : stream.peek = some c) :
    stream.advance.2.advance.2.bytesLeft < stream.bytesLeft :=
  Nat.lt_of_le_of_lt (bytesLeft_advance_le _) (bytesLeft_advance_lt h)

/-- Behind a character that an advance gives fewer bytes are left. -/
theorem bytesLeft_lt_of_advance {c : Char} {next : InputStream}
    (h : stream.advance = (some c, next)) : next.bytesLeft < stream.bytesLeft := by
  rw [advance] at h
  split at h
  · cases h
  · next hpeek =>
    cases h
    exact bytesLeft_bump_lt hpeek

/-- Passing characters of a class does not move the stream back. -/
theorem bytesLeft_bumpWhile_le (isMember : Char → Bool) (stream : InputStream) :
    (stream.bumpWhile isMember).bytesLeft ≤ stream.bytesLeft := by
  fun_induction bumpWhile isMember stream with
  | case1 => exact Nat.le_refl _
  | case2 stream c hpeek _ ih => exact Nat.le_trans ih (Nat.le_of_lt (bytesLeft_bump_lt hpeek))
  | case3 => exact Nat.le_refl _

/-- A run moves the stream on where its first character is there. -/
theorem bytesLeft_readWhile_lt {isMember : Char → Bool} {c : Char} (h : stream.peek = some c)
    (hc : isMember c) : (stream.readWhile isMember).2.bytesLeft < stream.bytesLeft := by
  have hmoves : stream.bumpWhile isMember = (stream.bump c).bumpWhile isMember := by
    rw [bumpWhile]
    split
    · next hnone => rw [h] at hnone; cases hnone
    · next d hd =>
      rw [h] at hd
      cases hd
      rw [if_pos hc]
  rw [readWhile, hmoves]
  exact Nat.lt_of_le_of_lt (bytesLeft_bumpWhile_le isMember _) (bytesLeft_bump_lt h)

/-- A search moves the stream on wherever it is not at the end. -/
theorem bytesLeft_readUntil_lt {delimiter : Text} {c : Char} (h : stream.peek = some c)
    (hdelimiter : 0 < Text.byteLength delimiter) :
    (stream.readUntil delimiter).2.bytesLeft < stream.bytesLeft := by
  have hlt := offset_lt_of_peek h
  have hstop : stream.offset < stream.offsetThrough delimiter := by
    unfold offsetThrough
    split
    · omega
    · exact hlt
  simp only [readUntil, bytesLeft]
  omega

/-- The stream begins with the first character of what it starts with. -/
theorem peek_of_startsWith {c : Char} {opening : Text} (h : stream.startsWith (c :: opening)) :
    stream.peek = some c := by
  obtain ⟨later, hlater⟩ := List.isPrefixOf_iff_prefix.mp h
  rw [peek, ← hlater]
  rfl

/-- Passing characters of a class moves the stream on or leaves it. -/
theorem bumpWhile_eq_self_or_lt (isMember : Char → Bool) (stream : InputStream) :
    stream.bumpWhile isMember = stream ∨
      (stream.bumpWhile isMember).bytesLeft < stream.bytesLeft := by
  rw [bumpWhile]
  split
  · exact .inl rfl
  · next c hpeek =>
    split
    · exact .inr (Nat.lt_of_le_of_lt (bytesLeft_bumpWhile_le isMember _) (bytesLeft_bump_lt hpeek))
    · exact .inl rfl

/-- There is nothing between the stream and itself. -/
theorem sliceFrom_offset (stream : InputStream) : stream.sliceFrom stream.offset = [] := by
  rw [sliceFrom, sliceFrom?, Text.betweenBytes?]
  cases hsplit : Text.splitAtByte? stream.text stream.offset with
  | none => rfl
  | some parts =>
    obtain ⟨before, after⟩ := parts
    have hnothing := Text.fromByte?_append before []
    rw [List.append_nil, ← (Text.eq_of_splitAtByte? hsplit).2] at hnothing
    rw [Option.bind_some]
    dsimp only
    rw [hnothing]
    rfl

/-- One operation on a stream. -/
inductive Action where
  | peek
  | peekAt (count : Nat)
  | advance
  | nextChar
  | startsWith (opening : Text)
  | isAtEnd
  | rest
  | readWhile (isMember : Char → Bool)
  | readUntil (delimiter : Text)
  /-- Remembers the offset of the stream. -/
  | mark
  /-- Asks for the text from a remembered offset to the stream. -/
  | slice (index : Nat)

/-- A stream with the offsets remembered so far. -/
structure Reading where
  stream : InputStream
  marks : List Nat := []

/-- Performs one operation. -/
def Reading.perform (reading : Reading) : Action → Cursor.Result × Reading
  | .peek => (.ofChar? reading.stream.peek, reading)
  | .peekAt count => (.ofChar? (reading.stream.peekAt count), reading)
  | .advance =>
    let (c, stream) := reading.stream.advance
    (.ofChar? c, { reading with stream })
  | .nextChar =>
    match reading.stream.nextChar with
    | (.ok c, stream) => (.char c, { reading with stream })
    | (.error error, stream) => (.error error, { reading with stream })
  | .startsWith opening => (.flag (reading.stream.startsWith opening), reading)
  | .isAtEnd => (.flag reading.stream.isAtEnd, reading)
  | .rest => (.text reading.stream.rest, reading)
  | .readWhile isMember =>
    let (taken, stream) := reading.stream.readWhile isMember
    (.text taken, { reading with stream })
  | .readUntil delimiter =>
    let (taken, stream) := reading.stream.readUntil delimiter
    (.text taken, { reading with stream })
  | .mark => (.nothing, { reading with marks := reading.marks ++ [reading.stream.offset] })
  | .slice index =>
    match reading.marks[index]? with
    | some start => (.text (reading.stream.sliceFrom start), reading)
    | none => (.nothing, reading)

end InputStream

end StyleSyntax
