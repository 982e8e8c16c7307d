/-!
# Positions in a text

A text is a list of characters. A position names a character by its line and column, both
counted from one; a line feed ends a line and every other character takes one column. The
position after a text depends on the position before it alone, so positions of consecutive
pieces compose.
-/

namespace StyleSyntax

/-- Source text, one entry for each character. -/
abbrev Text := List Char

namespace Text

/-- The number of bytes that the text takes in UTF-8. -/
def byteLength : Text → Nat
  | [] => 0
  | c :: rest => c.utf8Size + byteLength rest

/-- A number in decimal digits. -/
def ofNat (n : Nat) : Text :=
  Nat.toDigits 10 n

@[simp] theorem byteLength_nil : byteLength [] = 0 := rfl

@[simp] theorem byteLength_append (a b : Text) :
    byteLength (a ++ b) = byteLength a + byteLength b := by
  induction a with
  | nil => simp
  | cons c rest ih => rw [List.cons_append, byteLength, byteLength, ih, Nat.add_assoc]

end Text

/-- A place in a text: line and column, both counted from one. -/
structure Position where
  line : Nat
  col : Nat
deriving DecidableEq, Inhabited

namespace Position

/-- The first character of a document. -/
def start : Position := ⟨1, 1⟩

/-- The position after one character. -/
def advance (position : Position) (c : Char) : Position :=
  if c = '\n' then ⟨position.line + 1, 1⟩ else ⟨position.line, position.col + 1⟩

/-- The position after a whole text. -/
def advanceText (position : Position) (text : Text) : Position :=
  text.foldl advance position

/-- Earlier lines come first, and on one line earlier columns. -/
def order (a b : Position) : Ordering :=
  (compare a.line b.line).then (compare a.col b.col)

/-- Line and column with a colon between them. -/
def text (position : Position) : Text :=
  Text.ofNat position.line ++ ':' :: Text.ofNat position.col

/-- The words that end a message about this place. -/
def suffix (position : Position) : Text :=
  " at line ".toList ++ Text.ofNat position.line ++ ", column ".toList ++ Text.ofNat position.col

@[simp] theorem advanceText_nil (position : Position) : position.advanceText [] = position := rfl

@[simp] theorem advanceText_cons (position : Position) (c : Char) (text : Text) :
    position.advanceText (c :: text) = (position.advance c).advanceText text := rfl

/-- Advancing over two texts in turn is advancing over their concatenation. -/
theorem advanceText_append (position : Position) (a b : Text) :
    position.advanceText (a ++ b) = (position.advanceText a).advanceText b :=
  List.foldl_append

end Position

end StyleSyntax
