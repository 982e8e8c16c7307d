import StyleSyntax.Grammar.Basic
import StyleSyntax.Parser.Bracketed

/-!
# Media queries

A media query is a medium, perhaps with a modifier, or an expression in round brackets, and then
further expressions that are joined to it. An expression names a feature and may give it a value.
-/

namespace StyleSyntax.Grammar

open StyleSyntax.Parser

/-- The value of a feature: everything that is left, at least one significant token. -/
def featureValue : Parser Unit :=
  { run := fun region rest =>
      if rest.any Token.isSignificant then ⟨.ok (), []⟩
      else ⟨.failed (region.expected "media feature value".toList []), []⟩ }

/-- A feature with its value, if it has one. -/
def mediaFeature : Parser Unit :=
  attempt do
    let _ ← identifier .css
    let given : Parser Unit := attempt do
      let _ ← symbol [':']
      step 1 featureValue
    let _ ← step 1 given.optional

/-- A feature in round brackets, as written. -/
def mediaExpression : Parser Text :=
  rawValue (block [.roundBrackets] mediaFeature)

/-- An expression with the word that joins it to what is before, as written. -/
def andExpression : Parser Text :=
  rawValue <| attempt do
    let _ ← keyword "and".toList
    step 1 mediaExpression

/-- A medium with its modifier, as written. -/
def medium : Parser Text :=
  rawValue <| attempt do
    let _ ← (firstOf [keyword "only".toList, keyword "not".toList]).optional
    step 1 (identifier .css)

/-- One query, as written. -/
def mediaQuery : Parser Text :=
  firstOf [leftRecursive medium andExpression, leftRecursive mediaExpression andExpression]

/-- One or more queries with commas between them, as written. -/
def mediaQueryList : Parser Excerpt :=
  excerpt (commaList mediaQuery)

end StyleSyntax.Grammar
