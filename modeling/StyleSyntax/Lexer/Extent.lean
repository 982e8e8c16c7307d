import StyleSyntax.Text.Delimiter

/-!
# Extents of quoted runs and balanced regions

A quoted run reaches through its closing quote, a balanced region through the bracket that closes
its first one. Both may lack their end, and then the extent tells how far the search went.
Within a region only brackets of its own sort count; escaped characters, quoted runs and comments
are passed over as whole items.
-/

namespace StyleSyntax

/-- How far a run reaches: through its end, or as far as the search for the end went. -/
inductive Extent where
  | closed (length : Nat)
  | unclosed (length : Nat)
deriving DecidableEq

namespace Extent

/-- The number of characters, closed or not. -/
def length : Extent → Nat
  | closed n | unclosed n => n

/-- The same extent seen from `count` characters before. -/
def shift (count : Nat) : Extent → Extent
  | closed n => closed (n + count)
  | unclosed n => unclosed (n + count)

@[simp] theorem length_shift (count : Nat) (extent : Extent) :
    (extent.shift count).length = extent.length + count := by
  cases extent <;> rfl

end Extent

/-- The extent of a quoted run from after its opening quote. A backslash takes the next character
with it. With `oneLine` the search stops before a line feed. -/
def quotedExtent (quote : Char) (oneLine : Bool) : Text → Extent
  | [] => .unclosed 0
  | c :: rest =>
    if c = '\\' then
      match rest with
      | [] => .unclosed 1
      | _ :: later => (quotedExtent quote oneLine later).shift 2
    else if c = quote then .closed 1
    else if oneLine && c == '\n' then .unclosed 0
    else (quotedExtent quote oneLine rest).shift 1

/-- The opening of a comment to the end of the line. -/
def lineCommentOpening : Text := ['/', '/']

/-- The opening of a block comment. -/
def blockCommentOpening : Text := ['/', '*']

/-- The end of a block comment. -/
def blockCommentClosing : Text := ['*', '/']

/-- A character that opens and closes a quoted run. -/
def isQuote (c : Char) : Bool :=
  c == '\x27' || c == '\x22' || c == '\x60'

/-- The length of the item that begins with `c` inside a balanced region: an escaped character, a
quoted run, a comment, or one character. -/
def itemLength (c : Char) (rest : Text) : Nat :=
  if c = '\\' then min 2 (rest.length + 1)
  else if isQuote c then (quotedExtent c false rest).length + 1
  else if Text.startsWith (c :: rest) lineCommentOpening then
    Text.lengthWhile (· != '\n') (c :: rest)
  else if Text.startsWith (c :: rest) blockCommentOpening then
    Text.lengthThrough blockCommentClosing (c :: rest)
  else 1

/-- The extent of a balanced region from after its opening bracket, with `depth` inner brackets
open. -/
def balancedExtent (opening closing : Char) (depth : Nat) (text : Text) : Extent :=
  match text with
  | [] => .unclosed 0
  | c :: rest =>
    if c = opening then (balancedExtent opening closing (depth + 1) rest).shift 1
    else if c = closing then
      match depth with
      | 0 => .closed 1
      | outer + 1 => (balancedExtent opening closing outer rest).shift 1
    else
      (balancedExtent opening closing depth (rest.drop (itemLength c rest - 1))).shift
        (itemLength c rest)
termination_by text.length
decreasing_by all_goals simp only [List.length_cons, List.length_drop]; omega

end StyleSyntax
