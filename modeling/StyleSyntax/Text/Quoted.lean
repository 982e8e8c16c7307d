import StyleSyntax.Text.Position
import StyleSyntax.Text.Printed

/-!
# Quoted text

A text on one line between double quotes: the quote and the backslash are escaped, tab, line
feed, carriage return and the null character have letters of their own, and a character without
a printed form is shown by its code in braces.
-/

namespace StyleSyntax.Text

/-- The quoted form of one character. -/
def escapeChar (c : Char) : Text :=
  if c = '\x00' then ['\\', '0']
  else if c = '\t' then ['\\', 't']
  else if c = '\n' then ['\\', 'n']
  else if c = '\r' then ['\\', 'r']
  else if c = '\x22' then ['\\', '\x22']
  else if c = '\\' then ['\\', '\\']
  else if isPrinted c then [c]
  else ['\\', 'u', '\x7b'] ++ Nat.toDigits 16 c.toNat ++ ['\x7d']

/-- The quoted form of a text. -/
def quoted (text : Text) : Text :=
  '\x22' :: text.flatMap escapeChar ++ ['\x22']

/-- The quoted forms of several texts in square brackets. -/
def quotedList (texts : List Text) : Text :=
  '[' :: List.intercalate [',', ' '] (texts.map quoted) ++ [']']

end StyleSyntax.Text
