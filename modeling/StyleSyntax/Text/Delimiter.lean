import StyleSyntax.Text.Position

/-!
# Delimiters

How far a text reaches up to the end of a delimiter, and up to the first character of a class.
The lengths are counts of characters, so that a text is always the part taken and the part
dropped.
-/

namespace StyleSyntax.Text

/-- Whether the text begins with the given characters. -/
def startsWith (text opening : Text) : Bool :=
  opening.isPrefixOf text

/-- The length through the end of the first occurrence of the delimiter, or of the whole text
when it does not occur. -/
def lengthThrough (delimiter : Text) : Text → Nat
  | [] => 0
  | c :: rest =>
    if startsWith (c :: rest) delimiter then delimiter.length
    else lengthThrough delimiter rest + 1

/-- The length of the longest beginning whose characters all belong to the class. -/
def lengthWhile (isMember : Char → Bool) : Text → Nat
  | [] => 0
  | c :: rest => if isMember c then lengthWhile isMember rest + 1 else 0

theorem lengthThrough_le (delimiter text : Text) : lengthThrough delimiter text ≤ text.length := by
  induction text with
  | nil => simp [lengthThrough]
  | cons c rest ih =>
    unfold lengthThrough
    split
    · next h => exact (List.isPrefixOf_iff_prefix.mp h).length_le
    · simp only [List.length_cons]; omega

theorem lengthWhile_le (isMember : Char → Bool) (text : Text) :
    lengthWhile isMember text ≤ text.length := by
  induction text with
  | nil => simp [lengthWhile]
  | cons c rest ih =>
    unfold lengthWhile
    split
    · simp only [List.length_cons]; omega
    · omega

/-- What is taken is the longest beginning inside the class. -/
theorem take_lengthWhile (isMember : Char → Bool) (text : Text) :
    text.take (lengthWhile isMember text) = text.takeWhile isMember := by
  induction text with
  | nil => rfl
  | cons c rest ih => by_cases h : isMember c <;> simp [lengthWhile, h, ih]

end StyleSyntax.Text
