import StyleSyntax.Grammar.Statement

/-!
# Bodies and stylesheets

The item lists of both languages. A body is read by the grammar of one level less, and the number
of characters of the text is always enough levels, since each pair of brackets takes two of them.
-/

namespace StyleSyntax.Grammar

open StyleSyntax.Parser

/-- Lone semicolons and declarations. -/
def declarationItems (dialect : Dialect) : Parser (List Node) :=
  items (firstOf [probe Token.isSemicolon straySemicolon, declaration dialect])

/-- Items of a rule block or a variable block. -/
def blockItems (bodies : Bodies) (dialect : Dialect) : Parser (List Node) :=
  match dialect with
  | .css => declarationItems .css
  | .jss =>
    items <| firstOf
      [probe Token.isSemicolon straySemicolon, probe Token.isAt (atRule bodies .jss),
        probe isVariableStart (variableBlock bodies), probe isSpreadStart spread,
        probe isScriptKeyword script, declaration .jss, ruleBlock bodies .jss]

/-- Items of a media rule: at-rules and rule blocks. -/
def mediaItems (bodies : Bodies) (dialect : Dialect) : Parser (List Node) :=
  items <| firstOf
    [probe Token.isSemicolon straySemicolon, probe Token.isAt (atRule bodies dialect),
      ruleBlock bodies dialect]

/-- Top-level items. In the extended language everything that is nothing else is script. -/
def stylesheetItems (bodies : Bodies) (dialect : Dialect) : Parser (List Node) :=
  match dialect with
  | .css =>
    items <| firstOf
      [probe Token.isSemicolon straySemicolon, probe Token.isAt (atRule bodies .css),
        ruleBlock bodies .css]
  | .jss =>
    items <| firstOf
      [probe Token.isSemicolon straySemicolon, probe Token.isAt (atRule bodies .jss),
        probe isVariableStart (variableBlock bodies), probe isScriptKeyword script,
        ruleBlock bodies .jss, script]

/-- The parsers of bodies with at most this many levels of blocks inside. -/
def Bodies.within : Nat → Bodies
  | 0 => ⟨fun _ => unexpected, fun _ => unexpected, fun _ => unexpected⟩
  | depth + 1 =>
    ⟨fun dialect => delay fun _ => Grammar.blockItems (within depth) dialect,
      fun dialect => delay fun _ => Grammar.mediaItems (within depth) dialect, declarationItems⟩

/-- A parser with bodies of as many levels as the text has characters. -/
def withBodies {α : Type} (p : Bodies → Parser α) : Parser α :=
  { run := fun region rest => (p (.within (spelling rest).length)).run region rest }

/-- The items of a whole document. -/
def stylesheet (dialect : Dialect) : Parser (List Node) :=
  withBodies fun bodies => stylesheetItems bodies dialect

end StyleSyntax.Grammar
