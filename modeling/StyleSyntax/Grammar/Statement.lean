import StyleSyntax.Grammar.MediaQuery
import StyleSyntax.Grammar.Selector

/-!
# Statements

Declarations, rule blocks, at-rules, variable blocks, spreads and script. Those with a body take
the parsers of the bodies as an argument: a body lies inside a token and is therefore shorter than
the text around it, so the whole grammar is built from the inside out.
-/

namespace StyleSyntax.Grammar

open StyleSyntax.Parser

/-- The parsers of the bodies between braces. -/
structure Bodies where
  /-- The body of a rule or a variable. -/
  blockItems : Dialect → Parser (List Node)
  /-- The body of a media rule. -/
  mediaItems : Dialect → Parser (List Node)
  /-- The body of a page rule. -/
  pageItems : Dialect → Parser (List Node)

/-- A brace region in a value is allowed in the extended language alone, after a literal that ends
in a dollar sign. -/
def valueAllows (dialect : Dialect) (previous : Option Token) (token : Token) : Bool :=
  !token.isBraces ||
    dialect == .jss &&
      previous.any fun before => before.kind == .literal && before.value.getLast? == some '$'

/-- The value of a declaration: everything up to a semicolon or an exclamation mark. -/
def declarationValue (dialect : Dialect) : Parser Unit :=
  value "value".toList (fun token => token.isSymbol ['!']) (valueAllows dialect)

/-- The mark of an important declaration. -/
def importantMark : Parser Token :=
  attempt do
    let _ ← symbol ['!']
    step 1 (keyword "important".toList)

/-- A property, a colon, a value and perhaps the mark of importance. The semicolon may be left out
before the end of the block. -/
def declaration (dialect : Dialect) : Parser Node := do
  let ((property, value, isImportant), source) ← capture <| attempt do
    let property ← identifier dialect
    let _ ← step 1 (symbol [':'])
    let value ← step 2 (excerpt (declarationValue dialect))
    let mark ← step 3 importantMark.optional
    step 4 statementEnd
    return (property, value, mark.isSome)
  return .leaf (.declaration ⟨dialect, property, value, isImportant, source.text⟩)

/-- Selectors and a body. -/
def ruleBlock (bodies : Bodies) (dialect : Dialect) : Parser Node := do
  let ((selectors, items), source) ← capture <| attempt do
    let selectors ← selectorList dialect
    let items ← step 1 (block braces (bodies.blockItems dialect))
    return (selectors, items)
  return .block (.rule dialect selectors) items source

/-- The rule that names the character set. -/
def charset : Parser Node := do
  let (name, source) ← capture <| attempt do
    let _ ← symbol ['@']
    let _ ← step 1 (keyword "charset".toList)
    let name ← step 2 anyString
    step 3 statementEnd
    return name
  return .leaf (.charset name.value source)

/-- A path in quotes, or an address in round brackets as written. -/
def importPath : Parser Text :=
  let address : Parser Excerpt := excerpt <| attempt do
    let _ ← keyword "url".toList
    step 1 noSpacesHere
    step 2 roundBrackets
  firstOf [anyString.map Token.value, address.map Excerpt.text]

/-- The rule that imports another sheet. -/
def importRule : Parser Node := do
  let ((path, queries), source) ← capture <| attempt do
    let _ ← symbol ['@']
    let _ ← step 1 (keyword "import".toList)
    let path ← step 2 importPath
    let queries ← step 3 mediaQueryList.optional
    step 4 statementEnd
    return (path, queries)
  return .leaf (.importRule path (queries.map Excerpt.text) source)

/-- Media queries and a body. -/
def mediaRule (bodies : Bodies) (dialect : Dialect) : Parser Node := do
  let ((queries, items), source) ← capture <| attempt do
    let _ ← symbol ['@']
    let _ ← step 1 (keyword "media".toList)
    let queries ← step 2 mediaQueryList
    let items ← step 3 (block braces (bodies.mediaItems dialect))
    return (queries, items)
  return .block (.media queries) items source

/-- The pseudo class of a page. -/
def pagePseudo : Parser Excerpt :=
  excerpt <| attempt do
    let _ ← symbol [':']
    step 1 noSpacesHere
    step 2 (identifier .css)

/-- A page rule, whose body holds declarations. -/
def pageRule (bodies : Bodies) (dialect : Dialect) : Parser Node := do
  let ((pseudo, items), source) ← capture <| attempt do
    let _ ← symbol ['@']
    let _ ← step 1 (keyword "page".toList)
    let pseudo ← step 2 pagePseudo.optional
    let items ← step 3 (block braces (bodies.pageItems dialect))
    return (pseudo, items)
  return .block (.page (pseudo.map Excerpt.text)) items source

/-- The rule for the name that stands right after the sign. -/
def namedRule (bodies : Bodies) (dialect : Dialect) (name : Token) : Parser Node :=
  if name.isLiteral "charset".toList then charset
  else if name.isLiteral "import".toList then importRule
  else if name.isLiteral "media".toList then mediaRule bodies dialect
  else if name.isLiteral "page".toList then pageRule bodies dialect
  else
    fail fun _ _ => .expectedAt "'charset', 'import', 'media' or 'page'".toList name

/-- An at-rule, chosen by the token right after the sign. -/
def atRule (bodies : Bodies) (dialect : Dialect) : Parser Node :=
  { run := fun region rest =>
      match dropTrivia rest with
      | [] => ⟨.failed (region.expected (quotedName ['@']) rest), rest⟩
      | sign :: following =>
        if sign.isAt then
          match following with
          | [] => ⟨.failed (region.expected "at-rule name".toList []), rest⟩
          | name :: _ => (namedRule bodies dialect name).run region rest
        else ⟨.failed (region.expected (quotedName ['@']) rest), rest⟩ }

/-- Words that begin a script statement. -/
def scriptKeywords : List Text :=
  ["async", "await", "break", "case", "catch", "class", "const", "continue", "default", "delete",
    "do", "else", "export", "finally", "for", "function", "if", "import", "let", "new", "return",
    "switch", "throw", "try", "typeof", "var", "void", "while", "yield"].map String.toList

/-- A literal that begins a script statement. -/
def isScriptKeyword (token : Token) : Bool :=
  token.kind == .literal && scriptKeywords.contains token.value

/-- A literal that may begin a variable block. -/
def isVariableStart (token : Token) : Bool :=
  token.kind == .literal &&
    (token.value == "export".toList || (VarKeyword.ofText? token.value).isSome)

/-- A symbol that may begin a spread. -/
def isSpreadStart (token : Token) : Bool :=
  token.kind == .symbol && token.value.head? == some '.'

/-- The word that introduces a variable. -/
def varKeyword : Parser VarKeyword :=
  firstOf [(keyword "const".toList).map fun _ => .constKeyword,
    (keyword "let".toList).map fun _ => .letKeyword,
    (keyword "var".toList).map fun _ => .varKeyword]

/-- A variable whose value is a block of items. -/
def variableBlock (bodies : Bodies) : Parser Node := do
  let ((exporting, keyword, name, items), source) ← capture <| attempt do
    let exporting ← (keyword "export".toList).optional
    let keyword ← step 1 varKeyword
    let name ← step 2 anyLiteral
    let _ ← step 3 (symbol ['='])
    let items ← step 4 (block braces (bodies.blockItems .jss))
    let _ ← step 5 (symbol [';']).optional
    return (exporting, keyword, name, items)
  return .block (.variableBlock keyword name.value exporting.isSome) items source

/-- Three dots and the expression that they spread. -/
def spread : Parser Node := do
  let (expression, source) ← capture <| attempt do
    let _ ← symbol ['.', '.', '.']
    let expression ← step 1 (excerpt (value "expression".toList (fun _ => false) fun _ _ => true))
    step 2 statementEnd
    return expression
  return .leaf (.spread expression source)

/-- The number of tokens of a script statement: through the first semicolon, through the first brace
region and a semicolon right after it, or up to the last significant token before a line feed or the
end. -/
def scriptLength : List Token → Nat
  | [] => 0
  | token :: rest =>
    if token.isTrivia then
      if breaksLine token then 0
      else
        match scriptLength rest with
        | 0 => 0
        | length + 1 => length + 2
    else if token.isSemicolon then 1
    else if token.isBraces then
      if rest.head?.any Token.isSemicolon then 2 else 1
    else scriptLength rest + 1

/-- A script statement, kept as written. -/
def script : Parser Node :=
  { run := fun region rest =>
      match dropTrivia rest with
      | [] => ⟨.failed (region.expected "statement".toList rest), rest⟩
      | token :: following =>
        let length := scriptLength (token :: following)
        let source := spelling ((token :: following).take length)
        ⟨.ok (.leaf (.script ⟨source, token.position⟩)), (token :: following).drop length⟩ }

end StyleSyntax.Grammar
