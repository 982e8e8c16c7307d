import StyleSyntax.Lexer.Cursor
import StyleSyntax.Proofs.Lexer.Passing

/-!
# Runs of a cursor

A cursor stands between two parts of its text. Every operation takes some characters from the second
part to the first, and the operations that give text back give back just these, so what a run of
operations gives back makes up the first part. The offset of the cursor is therefore always a
boundary of characters, and its position that of the text before it, however the operations that
look ahead, search and stop early follow one another. Readers have their part in this as well, but
one that fails gives nothing back for what it has passed.
-/

namespace StyleSyntax

/-- What a search takes of a text and leaves of it: everything through the first occurrence of the
delimiter, or the whole text without one. -/
inductive SearchesThrough (delimiter text : Text) : Text → Text → Prop where
  | found {before left : Text} : text = before ++ (delimiter ++ left) →
      (∀ other later, text = other ++ (delimiter ++ later) → before.length ≤ other.length) →
      SearchesThrough delimiter text (before ++ delimiter) left
  | absent : ¬ delimiter <:+: text → SearchesThrough delimiter text text []

/-- A text takes as many bytes as the string of its characters. -/
theorem Text.byteLength_eq (text : Text) : byteLength text = (String.ofList text).utf8ByteSize := by
  induction text with
  | nil => rfl
  | cons c rest ih =>
    rw [byteLength, ih, String.ofList_cons, String.utf8ByteSize_append,
      String.utf8ByteSize_singleton]

/-- The bytes before a character, or of the whole text, end at a boundary of its string. -/
theorem Text.isValid_byteLength (before after : Text) :
    String.Pos.Raw.IsValid (String.ofList (before ++ after)) ⟨byteLength before⟩ := by
  rw [String.Pos.Raw.isValid_ofList]
  exact ⟨before.length, by rw [List.take_left, byteLength_eq]⟩

/-- The search takes everything through the first occurrence of the delimiter, or all. -/
theorem searchesThrough_lengthThrough (delimiter text : Text) :
    SearchesThrough delimiter text (text.take (Text.lengthThrough delimiter text))
      (text.drop (Text.lengthThrough delimiter text)) := by
  by_cases hoccurs : delimiter <:+: text
  · obtain ⟨before, left, rfl, hlength, hfirst⟩ := Text.exists_first_occurrence hoccurs
    rw [hlength, ← List.append_assoc, List.take_left, List.drop_left]
    exact .found (List.append_assoc _ _ _) (by rwa [List.append_assoc])
  · rw [Text.lengthThrough_eq_length hoccurs, List.take_length, List.drop_length]
    exact .absent hoccurs

namespace Cursor

/-- What an operation gives back of the text that it passes. -/
def Action.taken : Action → Result → Text
  | .advance, .char c => [c]
  | .nextChar, .char c => [c]
  | .readWhile _, .text text => text
  | .readUntil _, .text text => text
  | .read .., .token token => token.value
  | _, _ => []

/-- Performs operations one after another. -/
def Reading.performAll (reading : Reading) : List Action → List Result × Reading
  | [] => ([], reading)
  | action :: actions =>
    let (result, next) := reading.perform action
    let (results, last) := next.performAll actions
    (result :: results, last)

/-- What operations give back of the text, one after another. -/
def takenBy (actions : List Action) (results : List Result) : Text :=
  (List.zipWith Action.taken actions results).flatten

/-- The cursor stands between the parts of a text that sits at `origin`. -/
structure IsBetween (cursor : Cursor) (origin : Position) (before after : Text) : Prop where
  passed : cursor.passed = before
  rest : cursor.rest = after
  position : cursor.position = origin.advanceText before

variable {cursor : Cursor} {reading : Reading} {origin : Position} {before after text : Text}

/-- At first nothing has been passed. -/
theorem isBetween_ofText (text : Text) (origin : Position) :
    (ofText text origin).IsBetween origin [] text :=
  ⟨rfl, rfl, rfl⟩

namespace IsBetween

/-- The two parts and the origin determine the cursor. -/
theorem eq_mk (h : cursor.IsBetween origin before after) :
    cursor = ⟨before, after, origin.advanceText before⟩ := by
  obtain ⟨rfl, rfl, hposition⟩ := h
  rw [← hposition]

/-- Taking characters moves them from one part to the other. -/
theorem take (h : cursor.IsBetween origin before after) (count : Nat) :
    (cursor.take count).1 = after.take count ∧
      (cursor.take count).2.IsBetween origin (before ++ after.take count) (after.drop count) := by
  obtain ⟨rfl, rfl, hposition⟩ := h
  refine ⟨rfl, rfl, rfl, ?_⟩
  rw [Position.advanceText_append, ← hposition]
  rfl

/-- A reader takes some characters from the second part to the first. -/
theorem read (h : cursor.IsBetween origin before after) (reader : Reader) (config : LexerConfig) :
    ∃ count, (cursor.read reader config).2.IsBetween origin (before ++ after.take count)
      (after.drop count) := by
  rw [Cursor.read]
  cases reader config cursor.rest with
  | declined => exact ⟨0, by simpa using h⟩
  | lexeme kind length => exact ⟨length, (h.take length).2⟩
  | failed fault blame stop => exact ⟨stop, (h.take stop).2⟩

/-- A single operation takes some characters from the second part to the first, and gives them back
unless it is a reader. -/
theorem perform (h : reading.cursor.IsBetween origin before after) (action : Action) :
    ∃ count, (reading.perform action).2.cursor.IsBetween origin (before ++ after.take count)
        (after.drop count) ∧
      ((∀ reader config, action ≠ .read reader config) →
        action.taken (reading.perform action).1 = after.take count) := by
  have hstays : reading.cursor.IsBetween origin (before ++ after.take 0) (after.drop 0) := by
    simpa using h
  cases action with
  | peek => exact ⟨0, hstays, fun _ => rfl⟩
  | peekAt count => exact ⟨0, hstays, fun _ => rfl⟩
  | startsWith opening => exact ⟨0, hstays, fun _ => rfl⟩
  | isAtEnd => exact ⟨0, hstays, fun _ => rfl⟩
  | rest => exact ⟨0, hstays, fun _ => rfl⟩
  | mark => exact ⟨0, hstays, fun _ => rfl⟩
  | slice index =>
    refine ⟨0, ?_, fun _ => ?_⟩ <;> cases hmark : reading.marks[index]? <;>
      simp only [Reading.perform, hmark]
    · exact hstays
    · exact hstays
    · rfl
    · rfl
  | advance =>
    refine ⟨1, (h.take 1).2, fun _ => ?_⟩
    rw [← h.rest]
    simp only [Reading.perform, Cursor.advance, Cursor.peek]
    cases reading.cursor.rest <;> rfl
  | nextChar =>
    have hrest := h.rest
    cases after with
    | nil =>
      refine ⟨0, ?_, fun _ => ?_⟩ <;> simp only [Reading.perform, Cursor.nextChar, hrest]
      · exact hstays
      · rfl
    | cons c later =>
      refine ⟨1, ?_, fun _ => ?_⟩ <;> simp only [Reading.perform, Cursor.nextChar, hrest]
      · exact (h.take 1).2
      · rfl
  | readWhile isMember => exact ⟨_, (h.take _).2, fun _ => (h.take _).1⟩
  | readUntil delimiter => exact ⟨_, (h.take _).2, fun _ => (h.take _).1⟩
  | read reader config =>
    have hcursor : (reading.perform (.read reader config)).2.cursor =
        (reading.cursor.read reader config).2 := by
      simp only [Reading.perform]
      split <;> simp_all
    obtain ⟨count, hread⟩ := h.read reader config
    rw [hcursor]
    exact ⟨count, hread, fun hreader => absurd rfl (hreader reader config)⟩

/-- A run of operations takes some characters from the second part to the first, and gives them back
unless a reader is among them. -/
theorem performAll (h : reading.cursor.IsBetween origin before after) (actions : List Action) :
    ∃ count, (reading.performAll actions).2.cursor.IsBetween origin (before ++ after.take count)
        (after.drop count) ∧
      ((∀ reader config, .read reader config ∉ actions) →
        takenBy actions (reading.performAll actions).1 = after.take count) := by
  induction actions generalizing reading before after with
  | nil => exact ⟨0, by simpa [Reading.performAll] using h, fun _ => rfl⟩
  | cons action actions ih =>
    obtain ⟨first, hfirst, htaken⟩ := h.perform action
    obtain ⟨others, hothers, htakenAll⟩ := ih hfirst
    refine ⟨first + others, ?_, fun hreader => ?_⟩
    · rw [List.take_add, ← List.append_assoc, ← List.drop_drop]
      exact hothers
    · have haction := htaken fun reader config heq =>
        hreader reader config (List.mem_cons.mpr (.inl heq.symm))
      have hactions := htakenAll fun reader config hmem =>
        hreader reader config (List.mem_cons_of_mem action hmem)
      rw [List.take_add, ← haction, ← hactions]
      rfl

end IsBetween

/-- After any operations the cursor stands between a beginning of its text and what is left, and
without readers among the operations that beginning is what they have given back. -/
theorem exists_isBetween_performAll_ofText (text : Text) (origin : Position)
    (actions : List Action) :
    let run := Reading.performAll ⟨ofText text origin, []⟩ actions
    ∃ before after, text = before ++ after ∧ run.2.cursor.IsBetween origin before after ∧
      ((∀ reader config, .read reader config ∉ actions) → takenBy actions run.1 = before) := by
  have hstart : (Reading.mk (ofText text origin) []).cursor.IsBetween origin [] text :=
    isBetween_ofText text origin
  obtain ⟨count, hbetween, htaken⟩ := hstart.performAll actions
  exact ⟨text.take count, text.drop count, (List.take_append_drop count text).symm, hbetween,
    htaken⟩

end Cursor

end StyleSyntax
