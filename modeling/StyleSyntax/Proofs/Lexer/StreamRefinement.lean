import StyleSyntax.Lexer.InputStream
import StyleSyntax.Proofs.Lexer.Passing

/-!
# Streams as cursors

A cursor that divides a text stands for the stream that stores the number of bytes before it. On
such streams the offset is a place in the text, so what is cut out of the text is there, and every
operation does to the stream what it does to the cursor: the bytes that a character adds to the
offset, and the offset that a search computes from the bytes before its delimiter, are the bytes of
the characters that the cursor has passed.
-/

namespace StyleSyntax

/-! ## Searches -/

namespace Text

variable {delimiter text : Text}

/-- A delimiter that is found begins behind the bytes before it. -/
theorem byteLength_take_lengthThrough {found : Nat} (h : findByte? delimiter text = some found) :
    byteLength (text.take (lengthThrough delimiter text)) = found + byteLength delimiter := by
  fun_induction findByte? delimiter text generalizing found with
  | case1 hempty =>
    cases h
    rw [List.isEmpty_iff.mp hempty]
    rfl
  | case2 => cases h
  | case3 c rest hstarts =>
    cases h
    obtain ⟨left, hleft⟩ := List.isPrefixOf_iff_prefix.mp hstarts
    rw [lengthThrough, if_pos hstarts, ← hleft, List.take_left, Nat.zero_add]
  | case4 c rest hstarts ih =>
    obtain ⟨before, hbefore, rfl⟩ := Option.map_eq_some_iff.mp h
    rw [lengthThrough, if_neg hstarts, List.take_succ_cons, byteLength, ih hbefore, Nat.add_assoc]

/-- Without the delimiter the search goes to the end. -/
theorem lengthThrough_of_findByte?_eq_none (h : findByte? delimiter text = none) :
    lengthThrough delimiter text = text.length := by
  fun_induction findByte? delimiter text with
  | case1 => cases h
  | case2 => rfl
  | case3 => cases h
  | case4 c rest hstarts ih =>
    rw [lengthThrough, if_neg hstarts, ih (Option.map_eq_none_iff.mp h), List.length_cons]

end Text

namespace Cursor

variable {cursor : Cursor}

/-! ## Moves of a cursor -/

/-- Taking nothing leaves the cursor. -/
@[simp] theorem take_zero (cursor : Cursor) : cursor.take 0 = ([], cursor) := by
  simp [take]

@[simp] theorem rest_take (cursor : Cursor) (count : Nat) :
    (cursor.take count).2.rest = cursor.rest.drop count := rfl

/-- Two moves in turn are one move. -/
theorem take_take (cursor : Cursor) (first second : Nat) :
    ((cursor.take first).2.take second).2 = (cursor.take (first + second)).2 := by
  simp only [take, List.take_add, List.drop_drop, List.append_assoc, Position.advanceText_append]

/-- No move goes past the end. -/
theorem take_min_length (cursor : Cursor) (count : Nat) :
    (cursor.take (min count cursor.rest.length)).2 = (cursor.take count).2 := by
  rcases Nat.le_total count cursor.rest.length with hle | hle
  · rw [Nat.min_eq_left hle]
  · rw [Nat.min_eq_right hle, take, take, List.take_of_length_le hle, List.drop_eq_nil_of_le hle,
      List.take_length, List.drop_length]

/-! ## The stream of a cursor -/

/-- The stream that stands where the cursor does. -/
def toStream (cursor : Cursor) : InputStream :=
  ⟨cursor.text, cursor.offset, cursor.position⟩

@[simp] theorem toStream_ofText (text : Text) (origin : Position) :
    (ofText text origin).toStream = .ofText text origin := rfl

@[simp] theorem text_toStream (cursor : Cursor) : cursor.toStream.text = cursor.text := rfl

@[simp] theorem offset_toStream (cursor : Cursor) : cursor.toStream.offset = cursor.offset := rfl

@[simp] theorem position_toStream (cursor : Cursor) :
    cursor.toStream.position = cursor.position := rfl

/-- The offset of such a stream is a place in the text, and what is left there is what is left of
the cursor. -/
@[simp] theorem rest?_toStream (cursor : Cursor) : cursor.toStream.rest? = some cursor.rest :=
  Text.fromByte?_append cursor.passed cursor.rest

@[simp] theorem rest_toStream (cursor : Cursor) : cursor.toStream.rest = cursor.rest := by
  rw [InputStream.rest, rest?_toStream, Option.getD_some]

@[simp] theorem peek_toStream (cursor : Cursor) : cursor.toStream.peek = cursor.peek := by
  rw [InputStream.peek, rest_toStream, peek]

@[simp] theorem peekAt_toStream (cursor : Cursor) (count : Nat) :
    cursor.toStream.peekAt count = cursor.peekAt count := by
  rw [InputStream.peekAt, rest_toStream, peekAt, List.head?_drop]

@[simp] theorem startsWith_toStream (cursor : Cursor) (opening : Text) :
    cursor.toStream.startsWith opening = Text.startsWith cursor.rest opening := by
  rw [InputStream.startsWith, rest_toStream]

@[simp] theorem isAtEnd_toStream (cursor : Cursor) : cursor.toStream.isAtEnd = cursor.isAtEnd := by
  obtain ⟨passed, rest, position⟩ := cursor
  cases rest with
  | nil => simp [InputStream.isAtEnd, isAtEnd, toStream, Cursor.text, offset]
  | cons c rest =>
    have hsize := c.utf8Size_pos
    simp [InputStream.isAtEnd, isAtEnd, toStream, Cursor.text, offset, Text.byteLength]
    omega

/-- What lies between a cursor and where it was moved to is cut out whole. -/
theorem sliceFrom?_toStream (cursor : Cursor) (count : Nat) :
    (cursor.take count).2.toStream.sliceFrom? cursor.offset = some (cursor.take count).1 :=
  Text.betweenBytes?_append cursor.passed (cursor.rest.take count) (cursor.rest.drop count)

theorem sliceFrom_toStream (cursor : Cursor) (count : Nat) :
    (cursor.take count).2.toStream.sliceFrom cursor.offset = (cursor.take count).1 := by
  rw [InputStream.sliceFrom, sliceFrom?_toStream, Option.getD_some]

/-- The bytes of the next character are those of the text that the cursor takes. -/
theorem bump_toStream {c : Char} (h : cursor.peek = some c) :
    cursor.toStream.bump c = (cursor.take 1).2.toStream := by
  obtain ⟨passed, rest, position⟩ := cursor
  obtain ⟨later, rfl⟩ := List.head?_eq_some_iff.mp h
  simp [InputStream.bump, toStream, take, Cursor.text, offset, Text.byteLength]

@[simp] theorem advance_toStream (cursor : Cursor) :
    cursor.toStream.advance = (cursor.advance.1, cursor.advance.2.toStream) := by
  rw [InputStream.advance, peek_toStream, advance]
  cases hpeek : cursor.peek with
  | none =>
    have hstays : (cursor.take 1).2 = cursor := by
      rw [← take_min_length, List.head?_eq_none_iff.mp hpeek]
      exact congrArg Prod.snd (take_zero cursor)
    rw [hstays]
  | some c => exact congrArg (Prod.mk (some c)) (bump_toStream hpeek)

@[simp] theorem nextChar_toStream (cursor : Cursor) :
    cursor.toStream.nextChar = (cursor.nextChar.1, cursor.nextChar.2.toStream) := by
  rw [InputStream.nextChar, peek_toStream, nextChar]
  cases hrest : cursor.rest with
  | nil => rw [peek, hrest]; rfl
  | cons c later =>
    have hpeek : cursor.peek = some c := by rw [peek, hrest]; rfl
    rw [hpeek, ← bump_toStream hpeek]

/-- Characters are passed one by one as long as they belong to the class. -/
theorem bumpWhile_toStream (isMember : Char → Bool) (cursor : Cursor) :
    cursor.toStream.bumpWhile isMember =
      (cursor.take (Text.lengthWhile isMember cursor.rest)).2.toStream := by
  generalize hrest : cursor.rest = rest
  induction rest generalizing cursor with
  | nil =>
    rw [InputStream.bumpWhile]
    split
    · simp [Text.lengthWhile]
    · next hpeek =>
      rw [peek_toStream, peek, hrest] at hpeek
      cases hpeek
  | cons c later ih =>
    have hpeek : cursor.peek = some c := by rw [peek, hrest]; rfl
    rw [InputStream.bumpWhile]
    split
    · next hnone =>
      rw [peek_toStream, hpeek] at hnone
      cases hnone
    · next d hd =>
      rw [peek_toStream, hpeek] at hd
      cases hd
      rw [Text.lengthWhile]
      split_ifs
      · rw [bump_toStream hpeek, ih, take_take, Nat.add_comm]
        rw [rest_take, hrest]
        rfl
      · rw [take_zero]

@[simp] theorem readWhile_toStream (cursor : Cursor) (isMember : Char → Bool) :
    cursor.toStream.readWhile isMember =
      ((cursor.readWhile isMember).1, (cursor.readWhile isMember).2.toStream) := by
  rw [InputStream.readWhile, bumpWhile_toStream, offset_toStream, sliceFrom_toStream, readWhile]

/-- The offset behind the delimiter counts the bytes of what the cursor passes. -/
theorem offsetThrough_toStream (cursor : Cursor) (delimiter : Text) :
    cursor.toStream.offsetThrough delimiter =
      Text.byteLength
        (cursor.passed ++ cursor.rest.take (Text.lengthThrough delimiter cursor.rest)) := by
  rw [InputStream.offsetThrough, rest_toStream, Text.byteLength_append]
  cases hfound : Text.findByte? delimiter cursor.rest with
  | none =>
    rw [Text.lengthThrough_of_findByte?_eq_none hfound, List.take_length]
    exact Text.byteLength_append cursor.passed cursor.rest
  | some found =>
    rw [Text.byteLength_take_lengthThrough hfound, ← Nat.add_assoc]
    rfl

@[simp] theorem readUntil_toStream (cursor : Cursor) (delimiter : Text) :
    cursor.toStream.readUntil delimiter =
      ((cursor.readUntil delimiter).1, (cursor.readUntil delimiter).2.toStream) := by
  have hconsumed : Text.betweenBytes? cursor.toStream.text cursor.toStream.offset
      (cursor.toStream.offsetThrough delimiter) = some (cursor.readUntil delimiter).1 := by
    rw [offsetThrough_toStream, text_toStream,
      ← text_take cursor (Text.lengthThrough delimiter cursor.rest)]
    exact sliceFrom?_toStream cursor _
  rw [InputStream.readUntil, hconsumed, offsetThrough_toStream]
  simp [readUntil, toStream, take, Cursor.text, offset]

end Cursor

end StyleSyntax
