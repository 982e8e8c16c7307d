import StyleSyntax.Text.Delimiter

/-!
# Byte offsets

A place in a text may also be given by the number of bytes before it. Not every number is one: a
character may take several bytes, and between these there is no place. What is asked of a text at
such a number, or at one past the end, has no answer.
-/

namespace StyleSyntax.Text

/-- The parts of a text before and after a byte offset. -/
def splitAtByte? : Text → Nat → Option (Text × Text)
  | text, 0 => some ([], text)
  | [], _ + 1 => none
  | c :: rest, offset + 1 =>
    if c.utf8Size ≤ offset + 1 then
      (splitAtByte? rest (offset + 1 - c.utf8Size)).map fun (before, after) => (c :: before, after)
    else none

/-- The text from a byte offset on. -/
def fromByte? (text : Text) (start : Nat) : Option Text :=
  (splitAtByte? text start).map Prod.snd

/-- The text between two byte offsets. -/
def betweenBytes? (text : Text) (start stop : Nat) : Option Text :=
  (splitAtByte? text stop).bind fun (before, _) => fromByte? before start

/-- The byte offset of the first occurrence of the delimiter. -/
def findByte? (delimiter : Text) : Text → Option Nat
  | [] => if delimiter.isEmpty then some 0 else none
  | c :: rest =>
    if startsWith (c :: rest) delimiter then some 0
    else (findByte? delimiter rest).map (c.utf8Size + ·)

/-- A text splits at the bytes of its beginning. -/
theorem splitAtByte?_append (before after : Text) :
    splitAtByte? (before ++ after) (byteLength before) = some (before, after) := by
  induction before with
  | nil => cases after <;> rfl
  | cons c before ih =>
    have hpos := c.utf8Size_pos
    obtain ⟨size, hsize⟩ : ∃ size, c.utf8Size + byteLength before = size + 1 :=
      ⟨c.utf8Size + byteLength before - 1, by omega⟩
    have hfits : c.utf8Size ≤ size + 1 := by omega
    have hrest : size + 1 - c.utf8Size = byteLength before := by omega
    rw [byteLength, hsize, List.cons_append, splitAtByte?, if_pos hfits, hrest, ih]
    rfl

/-- The parts on the two sides of a byte offset make up the text, and the offset counts the bytes of
the first one. -/
theorem eq_of_splitAtByte? {text before after : Text} {offset : Nat}
    (h : splitAtByte? text offset = some (before, after)) :
    text = before ++ after ∧ offset = byteLength before := by
  fun_induction splitAtByte? text offset generalizing before after with
  | case1 text =>
    cases h
    exact ⟨rfl, rfl⟩
  | case2 => cases h
  | case3 c rest offset hsize ih =>
    obtain ⟨⟨front, back⟩, hfront, hparts⟩ := Option.map_eq_some_iff.mp h
    cases hparts
    obtain ⟨rfl, hoffset⟩ := ih hfront
    refine ⟨rfl, ?_⟩
    rw [byteLength, ← hoffset]
    omega
  | case4 => cases h

/-- What is left behind the bytes of a beginning. -/
@[simp] theorem fromByte?_append (before after : Text) :
    fromByte? (before ++ after) (byteLength before) = some after := by
  rw [fromByte?, splitAtByte?_append]
  rfl

/-- What stands between the bytes of two beginnings. -/
theorem betweenBytes?_append (before middle after : Text) :
    betweenBytes? (before ++ middle ++ after) (byteLength before) (byteLength (before ++ middle)) =
      some middle := by
  rw [betweenBytes?, splitAtByte?_append]
  exact fromByte?_append before middle

/-- Where something is left, the offset is not the end. -/
theorem lt_byteLength_of_fromByte? {text after : Text} {c : Char} {offset : Nat}
    (h : fromByte? text offset = some (c :: after)) : offset < byteLength text := by
  obtain ⟨⟨before, rest⟩, hsplit, rfl⟩ := Option.map_eq_some_iff.mp h
  obtain ⟨rfl, rfl⟩ := eq_of_splitAtByte? hsplit
  have hsize := c.utf8Size_pos
  rw [byteLength_append, byteLength]
  omega

end StyleSyntax.Text
