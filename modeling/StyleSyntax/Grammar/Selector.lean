import StyleSyntax.Grammar.Basic

/-!
# Selectors

A selector is a chain of compound selectors joined by a combinator sign or by whitespace. A
compound selector is an optional element name and then id, class, attribute and pseudo selectors,
each written right after the one before.
-/

namespace StyleSyntax.Grammar

open StyleSyntax.Parser

/-- The signs that join compound selectors. -/
def combinator : Parser Text :=
  oneOfSymbols [['>'], ['+'], ['~']]

/-- The name of an element; in the extended language also the sign for the enclosing rule. -/
def elementName (dialect : Dialect) : Parser Text :=
  let name := (identifier dialect).map Excerpt.text
  match dialect with
  | .css => firstOf [name, symbol ['*']]
  | .jss => firstOf [name, symbol ['*'], symbol ['&']]

/-- A sign with a name right after it, as written. -/
def signedName (sign : Parser Text) (dialect : Dialect) : Parser Text :=
  rawValue <| attempt do
    let _ ← sign
    step 1 noSpacesHere
    let _ ← step 2 (identifier dialect)

/-- The arguments of a pseudo selector, right after its name. -/
def pseudoArguments : Parser Token :=
  attempt do
    noSpacesHere
    step 1 roundBrackets

/-- A pseudo class or element with its arguments, as written. -/
def pseudoSelector (dialect : Dialect) : Parser Text :=
  rawValue <| attempt do
    let _ ← oneOfSymbols [[':'], [':', ':']]
    step 1 noSpacesHere
    let _ ← step 2 (identifier dialect)
    let _ ← step 3 pseudoArguments.optional

/-- An id, class, attribute or pseudo selector. -/
def subclassSelector (dialect : Dialect) : Parser Text :=
  firstOf [signedName (symbol ['#']) dialect, signedName (symbol ['.']) dialect,
    rawValue squareBrackets, pseudoSelector dialect]

/-- The pieces of a compound selector, at least one. -/
def compoundSelector (dialect : Dialect) : Parser (List Text) :=
  attempt do
    skipTrivia
    let element ← (elementName dialect).optional
    let others ← many do
      noSpacesHere
      subclassSelector dialect
    let pieces := element.toList ++ others
    if pieces.isEmpty then expected "selector".toList else return pieces

/-- What joins two compound selectors: a sign, or else whitespace, which stands as one space. -/
def joint : Parser Text :=
  firstOf [combinator, trivia.map fun _ => [' ']]

/-- In the extended language a selector may begin with a combinator. -/
def leadingCombinator (dialect : Dialect) : Parser (List Text) :=
  match dialect with
  | .css => return []
  | .jss => return (← combinator.optional).toList

/-- The fragments of a whole selector. -/
def selectorFragments (dialect : Dialect) : Parser (List Text) := do
  let leading ← leadingCombinator dialect
  let first ← compoundSelector dialect
  let others ← separated joint (compoundSelector dialect)
  return leading ++ first ++ others.flatMap fun (sign, pieces) => sign :: pieces

/-- A selector with its source. -/
def selector (dialect : Dialect) : Parser Selector := do
  let (fragments, source) ← capture (selectorFragments dialect)
  return ⟨dialect, fragments, source⟩

/-- One or more selectors with commas between them. -/
def selectorList (dialect : Dialect) : Parser (List Selector) :=
  commaList (selector dialect)

end StyleSyntax.Grammar
