import StyleSyntax.Proofs.Lexer.CursorRuns
import StyleSyntax.Proofs.Lexer.StreamRefinement

/-!
# Runs of a stream

A stream and a cursor that start on the same text and perform the same operations stay together: the
stream is the one that stands where the cursor does, both give back the same, and each offset that
the one has remembered counts the bytes before the place that the other has remembered. What a run
does to the text follows from the parts that the cursor stands between. So the offset and the
position of a stream, which a character moves one by one and a search all at once, are at any time
those of one and the same beginning of the text, and every offset at which the text is cut is a
place in it.
-/

namespace StyleSyntax.InputStream

/-- The same operation on a cursor. -/
def Action.onCursor : Action → Cursor.Action
  | .peek => .peek
  | .peekAt count => .peekAt count
  | .advance => .advance
  | .nextChar => .nextChar
  | .startsWith opening => .startsWith opening
  | .isAtEnd => .isAtEnd
  | .rest => .rest
  | .readWhile isMember => .readWhile isMember
  | .readUntil delimiter => .readUntil delimiter
  | .mark => .mark
  | .slice index => .slice index

/-- What an operation gives back of the text that it passes. -/
def Action.taken : Action → Cursor.Result → Text
  | .advance, .char c => [c]
  | .nextChar, .char c => [c]
  | .readWhile _, .text text => text
  | .readUntil _, .text text => text
  | _, _ => []

/-- What operations give back of the text, one after another. -/
def takenBy (actions : List Action) (results : List Cursor.Result) : Text :=
  (List.zipWith Action.taken actions results).flatten

/-- Performs operations one after another. -/
def Reading.performAll (reading : Reading) : List Action → List Cursor.Result × Reading
  | [] => ([], reading)
  | action :: actions =>
    let (result, next) := reading.perform action
    let (results, last) := next.performAll actions
    (result :: results, last)

variable {reading : Reading} {shadow : Cursor.Reading}

/-- No operation of a stream is a reader of a cursor. -/
theorem Action.onCursor_ne_read (action : Action) (reader : Reader) (config : LexerConfig) :
    action.onCursor ≠ .read reader config := by
  cases action <;> exact Cursor.Action.noConfusion

/-- Both sorts of operations give back the same of the text. -/
theorem takenBy_onCursor (actions : List Action) (results : List Cursor.Result) :
    Cursor.takenBy (actions.map Action.onCursor) results = takenBy actions results := by
  have htaken (action : Action) (result : Cursor.Result) :
      action.onCursor.taken result = action.taken result := by
    cases action <;> cases result <;> rfl
  rw [Cursor.takenBy, takenBy, List.zipWith_map_left]
  simp only [htaken]

/-- A stream stands where a cursor does, and its remembered offsets count the bytes before the
places that the cursor has remembered, none of which lies ahead. -/
structure Reading.Follows (reading : Reading) (shadow : Cursor.Reading) : Prop where
  stream : reading.stream = shadow.cursor.toStream
  marks : reading.marks =
    shadow.marks.map fun place => Text.byteLength (shadow.cursor.passed.take place)
  passed : ∀ place ∈ shadow.marks, place ≤ shadow.cursor.passed.length

namespace Reading.Follows

/-- What is remembered stays valid when both move over the same characters. -/
theorem take (h : reading.Follows shadow) (count : Nat) :
    Follows { reading with stream := (shadow.cursor.take count).2.toStream }
      { shadow with cursor := (shadow.cursor.take count).2 } := by
  refine ⟨rfl, ?_, fun place hplace => ?_⟩
  · rw [h.marks]
    apply List.map_congr_left
    intro place hplace
    rw [Cursor.take, List.take_append_of_le_length (h.passed place hplace)]
  · rw [Cursor.take, List.length_append]
    exact Nat.le_trans (h.passed place hplace) (Nat.le_add_right _ _)

/-- The offset that is remembered counts the bytes before the place that is remembered. -/
theorem mark (h : reading.Follows shadow) :
    Follows { reading with marks := reading.marks ++ [reading.stream.offset] }
      { shadow with marks := shadow.marks ++ [shadow.cursor.passed.length] } := by
  refine ⟨h.stream, ?_, List.forall_mem_append.mpr ⟨h.passed, by simp⟩⟩
  rw [List.map_append, ← h.marks, h.stream]
  simp [Cursor.offset]

/-- Between the bytes before a place and the stream stands the text from the place on. -/
theorem sliceFrom? (h : reading.Follows shadow) (place : Nat) :
    reading.stream.sliceFrom? (Text.byteLength (shadow.cursor.passed.take place)) =
      some (shadow.cursor.sliceFrom place) := by
  have hcut := Text.betweenBytes?_append (shadow.cursor.passed.take place)
    (shadow.cursor.passed.drop place) shadow.cursor.rest
  rw [List.take_append_drop] at hcut
  rw [h.stream]
  exact hcut

/-- Both give back the same for an operation, and stay together. -/
theorem perform (h : reading.Follows shadow) (action : Action) :
    (reading.perform action).1 = (shadow.perform action.onCursor).1 ∧
      (reading.perform action).2.Follows (shadow.perform action.onCursor).2 := by
  obtain ⟨stream, marks⟩ := reading
  obtain rfl : stream = shadow.cursor.toStream := h.stream
  cases action with
  | peek => exact ⟨congrArg Cursor.Result.ofChar? (Cursor.peek_toStream _), h⟩
  | peekAt count => exact ⟨congrArg Cursor.Result.ofChar? (Cursor.peekAt_toStream _ count), h⟩
  | startsWith opening =>
    exact ⟨congrArg Cursor.Result.flag (Cursor.startsWith_toStream _ opening), h⟩
  | isAtEnd => exact ⟨congrArg Cursor.Result.flag (Cursor.isAtEnd_toStream _), h⟩
  | rest => exact ⟨congrArg Cursor.Result.text (Cursor.rest_toStream _), h⟩
  | mark => exact ⟨rfl, h.mark⟩
  | advance =>
    dsimp only [Reading.perform]
    rw [Cursor.advance_toStream]
    exact ⟨rfl, h.take 1⟩
  | nextChar =>
    dsimp only [Reading.perform, Action.onCursor, Cursor.Reading.perform]
    rw [Cursor.nextChar_toStream, Cursor.nextChar]
    cases shadow.cursor.rest with
    | nil => exact ⟨rfl, h⟩
    | cons c later => exact ⟨rfl, h.take 1⟩
  | readWhile isMember =>
    dsimp only [Reading.perform]
    rw [Cursor.readWhile_toStream]
    exact ⟨rfl, h.take _⟩
  | readUntil delimiter =>
    dsimp only [Reading.perform]
    rw [Cursor.readUntil_toStream]
    exact ⟨rfl, h.take _⟩
  | slice index =>
    dsimp only [Reading.perform, Action.onCursor, Cursor.Reading.perform]
    have hstart : marks[index]? = shadow.marks[index]?.map fun place =>
        Text.byteLength (shadow.cursor.passed.take place) := by
      rw [← List.getElem?_map, ← h.marks]
    rw [hstart]
    cases shadow.marks[index]? with
    | none => exact ⟨rfl, h⟩
    | some place =>
      rw [Option.map_some]
      dsimp only
      rw [InputStream.sliceFrom, h.sliceFrom? place]
      exact ⟨rfl, h⟩

/-- Both give back the same for a run of operations, and stay together. -/
theorem performAll (h : reading.Follows shadow) (actions : List Action) :
    (reading.performAll actions).1 = (shadow.performAll (actions.map Action.onCursor)).1 ∧
      (reading.performAll actions).2.Follows
        (shadow.performAll (actions.map Action.onCursor)).2 := by
  induction actions generalizing reading shadow with
  | nil => exact ⟨rfl, h⟩
  | cons action actions ih =>
    obtain ⟨hresult, hnext⟩ := h.perform action
    obtain ⟨hresults, hlast⟩ := ih hnext
    exact ⟨congrArg₂ List.cons hresult hresults, hlast⟩

end Reading.Follows

/-- After any operations the offset of a stream is the number of bytes of a beginning of its text, a
boundary of characters that is not past the end, and its position is that of the same beginning,
which is what the operations have given back of the text. What is left can be cut out there, as can
the text from every remembered offset on. From there a search goes through the first occurrence of
its delimiter, or to the end, and at the end there is no next character, which leaves the stream as
it is. -/
theorem inStep_of_performAll (text : Text) (origin : Position) (actions : List Action) :
    let run := Reading.performAll ⟨ofText text origin, []⟩ actions
    let stream := run.2.stream
    ∃ before after, text = before ++ after ∧ stream.text = text ∧
      stream.offset = Text.byteLength before ∧ stream.offset ≤ Text.byteLength text ∧
      String.Pos.Raw.IsValid (String.ofList text) ⟨stream.offset⟩ ∧
      stream.position = origin.advanceText before ∧
      takenBy actions run.1 = before ∧
      stream.rest? = some after ∧
      (∀ start ∈ run.2.marks, ∃ slice, slice <:+ before ∧ stream.sliceFrom? start = some slice) ∧
      (∀ delimiter, ∃ left, SearchesThrough delimiter after (stream.readUntil delimiter).1 left ∧
        (stream.readUntil delimiter).2.rest? = some left) ∧
      (stream.isAtEnd →
        stream.nextChar = (.error ⟨.unexpectedEnd, stream.position⟩, stream)) := by
  intro run stream
  have hstart : Reading.Follows ⟨ofText text origin, []⟩ ⟨.ofText text origin, []⟩ :=
    ⟨rfl, rfl, List.forall_mem_nil _⟩
  obtain ⟨hresults, hfollows⟩ := hstart.performAll actions
  obtain ⟨before, after, htext, hbetween, htaken⟩ :=
    Cursor.exists_isBetween_performAll_ofText text origin (actions.map Action.onCursor)
  have hreaders : ∀ reader config, .read reader config ∉ actions.map Action.onCursor := by
    simp [Action.onCursor_ne_read]
  let cursor : Cursor := ⟨before, after, origin.advanceText before⟩
  have hcursor : _ = cursor := hbetween.eq_mk
  have hstream : stream = cursor.toStream := hfollows.stream.trans (congrArg _ hcursor)
  refine ⟨before, after, htext, ?_, ?_, ?_, ?_, ?_, ?_, ?_, ?_, ?_, ?_⟩
  · rw [hstream, htext]
    rfl
  · rw [hstream]
    rfl
  · rw [hstream, htext, Text.byteLength_append]
    exact Nat.le_add_right _ _
  · rw [hstream, htext]
    exact Text.isValid_byteLength before after
  · rw [hstream]
    rfl
  · rw [← takenBy_onCursor, hresults, htaken hreaders]
  · rw [hstream, Cursor.rest?_toStream]
  · intro start hstart
    rw [hfollows.marks, hcursor] at hstart
    obtain ⟨place, -, rfl⟩ := List.mem_map.mp hstart
    refine ⟨before.drop place, List.drop_suffix place before, ?_⟩
    have hslice := hfollows.sliceFrom? place
    rwa [hcursor] at hslice
  · intro delimiter
    refine ⟨after.drop (Text.lengthThrough delimiter after), ?_, ?_⟩ <;>
      rw [hstream, Cursor.readUntil_toStream]
    · exact searchesThrough_lengthThrough delimiter after
    · exact Cursor.rest?_toStream _
  · intro hend
    rw [hstream, Cursor.isAtEnd_toStream] at hend
    rw [hstream, Cursor.nextChar_toStream, Cursor.nextChar, List.isEmpty_iff.mp hend]
    rfl

/-- A character of two bytes, a search that passes a line feed, the text from a remembered offset,
and the end of the text. -/
theorem inStep_of_performAll_two_lines :
    let actions : List Action :=
      [.advance, .mark, .peek, .readUntil "*/".toList, .slice 0, .nextChar]
    let run := Reading.performAll ⟨ofText "é\n*/x".toList .start, []⟩ actions
    run.2.stream.isAtEnd ∧ takenBy actions run.1 = "é\n*/x".toList ∧ run.2.stream.offset = 6 ∧
      run.2.stream.position = ⟨2, 4⟩ ∧
      run.2.stream.nextChar = (.error ⟨.unexpectedEnd, ⟨2, 4⟩⟩, run.2.stream) := by
  intro actions run
  have hend : run.2.stream.isAtEnd := by decide +kernel
  have hnothing : run.2.stream.rest? = some [] := by decide +kernel
  obtain ⟨before, after, htext, -, hoffset, -, -, hposition, htaken, hrest, -, -, hnext⟩ :=
    inStep_of_performAll "é\n*/x".toList .start actions
  obtain rfl := Option.some.inj (hrest.symm.trans hnothing)
  rw [List.append_nil] at htext
  subst htext
  have hplace : run.2.stream.position = ⟨2, 4⟩ := hposition
  exact ⟨hend, htaken, hoffset, hplace, hplace ▸ hnext hend⟩

end StyleSyntax.InputStream
