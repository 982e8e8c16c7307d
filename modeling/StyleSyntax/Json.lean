import StyleSyntax.Token.Basic

/-!
# JSON documents

Values with objects in field order, and their layout with two spaces for each level: one element
or field on a line, and empty arrays and objects closed at once. In strings the quote, the backslash
and the codes below 32 are escaped and everything else stands as it is.
-/

namespace StyleSyntax

/-- A JSON value whose numbers are natural. -/
inductive Json where
  | null
  | bool (value : Bool)
  | number (value : Nat)
  | text (value : Text)
  | array (items : List Json)
  | object (fields : List (Text × Json))

namespace Json

/-- A text, or null where there is none. -/
def ofText? : Option Text → Json
  | none => null
  | some value => text value

/-- A position with its line before its column. -/
def ofPosition (position : Position) : Json :=
  object [("line".toList, number position.line), ("col".toList, number position.col)]

/-- A token with its kind, value and position. -/
def ofToken (token : Token) : Json :=
  object [("kind".toList, text token.kind.name), ("value".toList, text token.value),
    ("position".toList, ofPosition token.position)]

/-- The digits of a code below 32 in four places. -/
def hexPlaces (n : Nat) : Text :=
  let digits := Nat.toDigits 16 n
  List.replicate (4 - digits.length) '0' ++ digits

/-- The form of a character inside a string. -/
def escapeChar (c : Char) : Text :=
  if c = '\x22' then ['\\', '\x22']
  else if c = '\\' then ['\\', '\\']
  else if c = '\x08' then ['\\', 'b']
  else if c = '\t' then ['\\', 't']
  else if c = '\n' then ['\\', 'n']
  else if c = '\x0c' then ['\\', 'f']
  else if c = '\r' then ['\\', 'r']
  else if c.toNat < 32 then '\\' :: 'u' :: hexPlaces c.toNat
  else [c]

/-- A string in its quotes. -/
def quoted (value : Text) : Text :=
  '\x22' :: value.flatMap escapeChar ++ ['\x22']

/-- A new line at a level. -/
def lineBreak (depth : Nat) : Text :=
  '\n' :: List.replicate (2 * depth) ' '

mutual

/-- The layout of a value that stands at a level. -/
def renderAt (depth : Nat) : Json → Text
  | null => "null".toList
  | bool value => (if value then "true" else "false").toList
  | number value => Text.ofNat value
  | text value => quoted value
  | array [] => ['[', ']']
  | array (item :: items) =>
    '[' :: lineBreak (depth + 1) ++ renderAt (depth + 1) item ++ renderItems (depth + 1) items ++
      lineBreak depth ++ [']']
  | object [] => ['\x7b', '\x7d']
  | object ((name, value) :: fields) =>
    '\x7b' :: lineBreak (depth + 1) ++ quoted name ++ ": ".toList ++ renderAt (depth + 1) value ++
      renderFields (depth + 1) fields ++ lineBreak depth ++ ['\x7d']

/-- The further elements of an array, each after a comma. -/
def renderItems (depth : Nat) : List Json → Text
  | [] => []
  | item :: items => ',' :: lineBreak depth ++ renderAt depth item ++ renderItems depth items

/-- The further fields of an object, each after a comma. -/
def renderFields (depth : Nat) : List (Text × Json) → Text
  | [] => []
  | (name, value) :: fields =>
    ',' :: lineBreak depth ++ quoted name ++ ": ".toList ++ renderAt depth value ++
      renderFields depth fields

end

/-- The layout of a document. -/
def render (value : Json) : Text :=
  renderAt 0 value

end Json

end StyleSyntax
