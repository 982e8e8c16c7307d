import StyleSyntax.Parser.Match

/-!
# Repetition

Repeated elements are read as long as the tokens get fewer. A repetition whose element succeeds
without consuming stops there; a list whose separator and element both match nothing would read the
same nothing again for ever, and its outcome is `endless`. What has been read before a failure stays
consumed.
-/

namespace StyleSyntax.Parser

variable {α σ : Type}

/-- Zero or more matches, up to the first failure or the end of the tokens. -/
def runMany (p : Parser α) (region : Region) (rest : List Token) : Reply (List α) :=
  if rest.isEmpty then ⟨.ok [], rest⟩
  else
    match p.optional.run region rest with
    | ⟨.ok none, next⟩ => ⟨.ok [], next⟩
    | ⟨.ok (some value), next⟩ =>
      if next.length < rest.length then (runMany p region next).map (value :: ·)
      else ⟨.ok [value], next⟩
    | ⟨.failed error, next⟩ => ⟨.failed error, next⟩
    | ⟨.endless, next⟩ => ⟨.endless, next⟩
termination_by rest.length

/-- Zero or more matches, up to the first failure or the end of the tokens. -/
def many (p : Parser α) : Parser (List α) :=
  { run := runMany p }

/-- Matches until no token is left; a match that consumes nothing is an unexpected token. -/
def runAll (p : Parser α) (region : Region) (rest : List Token) : Reply (List α) :=
  if rest.isEmpty then ⟨.ok [], rest⟩
  else
    match p.run region rest with
    | ⟨.ok value, next⟩ =>
      if next.length < rest.length then (runAll p region next).map (value :: ·)
      else ⟨.failed (region.unexpected next), next⟩
    | ⟨.failed error, next⟩ => ⟨.failed error, next⟩
    | ⟨.endless, next⟩ => ⟨.endless, next⟩
termination_by rest.length

/-- Matches until no token is left; every failure is returned. -/
def all (p : Parser α) : Parser (List α) :=
  { run := runAll p }

/-- Zero or more elements, each after a separator. A separator is consumed only together with the
element after it. -/
def runSeparated (separator : Parser σ) (element : Parser α) (region : Region)
    (rest : List Token) : Reply (List (σ × α)) :=
  match separator.optional.run region rest with
  | ⟨.ok none, _⟩ => ⟨.ok [], rest⟩
  | ⟨.ok (some joint), middle⟩ =>
    match element.optional.run region middle with
    | ⟨.ok none, _⟩ => ⟨.ok [], rest⟩
    | ⟨.ok (some value), next⟩ =>
      if next.length < rest.length then
        (runSeparated separator element region next).map ((joint, value) :: ·)
      else ⟨.endless, rest⟩
    | ⟨.failed error, _⟩ => ⟨.failed error, rest⟩
    | ⟨.endless, _⟩ => ⟨.endless, rest⟩
  | ⟨.failed error, _⟩ => ⟨.failed error, rest⟩
  | ⟨.endless, _⟩ => ⟨.endless, rest⟩
termination_by rest.length

/-- Zero or more elements with the separators before them. -/
def separated (separator : Parser σ) (element : Parser α) : Parser (List (σ × α)) :=
  { run := runSeparated separator element }

/-- Elements with separators between them. Without any element this is an error unless an empty
list is allowed. -/
def list (element : Parser α) (separator : Parser σ) (allowEmpty : Bool) : Parser (List α) := do
  match ← element.optional with
  | some first =>
    let others ← separated separator element
    return first :: others.map Prod.snd
  | none =>
    if allowEmpty then return []
    else
      fail fun region rest =>
        .leaf (.emptyList "list element".toList) (significantPosition rest region.finish)

/-- One or more elements with commas between them. -/
def commaList (element : Parser α) : Parser (List α) :=
  list element comma false

/-- The texts of zero or more matches, one after another. -/
def runTexts (p : Parser Text) (region : Region) (rest : List Token) : Reply Text :=
  match p.optional.run region rest with
  | ⟨.ok none, next⟩ => ⟨.ok [], next⟩
  | ⟨.ok (some text), next⟩ =>
    if next.length < rest.length then (runTexts p region next).map (text ++ ·)
    else ⟨.ok text, next⟩
  | ⟨.failed error, next⟩ => ⟨.failed error, next⟩
  | ⟨.endless, next⟩ => ⟨.endless, next⟩
termination_by rest.length

/-- A first text and the texts of all matches after it. -/
def leftRecursive (left right : Parser Text) : Parser Text := do
  let first ← left
  let more ← { run := runTexts right : Parser Text }
  return first ++ more

end StyleSyntax.Parser
