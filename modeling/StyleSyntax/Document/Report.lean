import StyleSyntax.Text.Position

/-!
# Error reports

A report names the file, the place and the message, and shows the line in question with a caret
under the column. Lines end at a line feed, and one carriage return right before it belongs to the
end; a last line without characters does not count. Tabs are kept in the padding before the caret,
so that it stands under its column however wide they are shown.
-/

namespace StyleSyntax

/-- Puts a character before the first of some lines. -/
def prependChar (c : Char) : List Text → List Text
  | [] => [[c]]
  | line :: lines => (c :: line) :: lines

/-- The lines of a text: a carriage return before a line feed goes with it. -/
def sourceLines : Text → List Text
  | [] => []
  | [c] => if c = '\n' then [[]] else [[c]]
  | c :: next :: rest =>
    if c = '\n' then [] :: sourceLines (next :: rest)
    else if c = '\r' ∧ next = '\n' then sourceLines (next :: rest)
    else prependChar c (sourceLines (next :: rest))

/-- The characters before the caret: tabs stay, all others become spaces. -/
def caretPadding (line : Text) (col : Nat) : Text :=
  (line.take (col - 1)).map fun c => if c = '\t' then '\t' else ' '

/-- The line in question with its number, and the caret on a line under it. -/
def excerptLines (line : Text) (position : Position) : Text :=
  let number := Text.ofNat position.line
  number ++ " | ".toList ++ line ++ '\n' ::
    List.replicate number.length ' ' ++ " | ".toList ++ caretPadding line position.col ++
      ['^', '\n']

/-- The report of a message about a place in a source. Past the last line there is no excerpt. -/
def report (path source : Text) (position : Position) (message : Text) : Text :=
  path ++ ":(".toList ++ position.text ++ ") : ".toList ++ message ++ '\n' ::
    match (sourceLines source)[position.line - 1]? with
    | none => []
    | some line => excerptLines line position

end StyleSyntax
