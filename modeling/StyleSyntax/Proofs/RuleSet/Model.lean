import StyleSyntax.Proofs.Grammar.Keywords

/-!
# Rule sets and their texts

A rule set is given by its parts: selectors, declarations, nested rules, and the gaps of whitespace
and comments between them. It has a text, which is these parts written one after another, and an
outline, which is what a reader of the text should find: the texts of the selectors, the properties
with their values, and the nesting.
-/

namespace StyleSyntax

/-- What a node says without its positions and gaps. -/
inductive Outline where
  | declaration (property value : Text)
  | rule (selectors : List Text) (items : List Outline)
  /-- A node of any other sort. -/
  | other

mutual

/-- The outline of a node; whitespace, comments and lone semicolons have none. -/
def Node.outline? : Node → Option Outline
  | leaf (.ignored _) => none
  | leaf (.declaration d) => some (.declaration d.property.text d.value.text)
  | leaf _ => some .other
  | block (.rule _ selectors) items _ =>
    some (.rule (selectors.map fun selector => selector.source.text) (Node.outlines items))
  | block _ _ _ => some .other

/-- The outlines of the nodes of a list. -/
def Node.outlines : List Node → List Outline
  | [] => []
  | node :: nodes => node.outline?.toList ++ Node.outlines nodes

end

namespace RuleSet

/-- A literal character other than the dollar sign, or a dash. -/
def isNameChar (c : Char) : Bool :=
  c == '-' || Reader.isLiteralChar c && c != '$'

/-- A character of a name, or one that numbers, colours and units have besides. -/
def isWordChar (c : Char) : Bool :=
  isNameChar c || ['.', '+', '%', '#'].contains c

/-- A name: parts joined by dashes, not all of them empty. -/
structure Name where
  text : Text
  isName : text.all isNameChar
  hasPart : text.any (· != '-')

/-- The characters of a name. -/
theorem Name.isNameChar_of_mem (name : Name) {c : Char} (h : c ∈ name.text) : isNameChar c :=
  List.all_eq_true.mp name.isName c h

/-- The name of an element is no keyword. -/
structure Element extends Name where
  notKeyword : text ∉ Grammar.scriptKeywords

/-- The name of a property does not begin with a keyword. -/
structure Property extends Name where
  notKeyword : startsWithKeyword text = false

/-- A part of a gap: a whitespace character, or a closed block comment with this body. -/
inductive GapPart where
  | space (c : Char) (isSpace : Reader.isSpace c)
  | comment (body : Text) (noEnd : ¬ blockCommentClosing <:+: body)

/-- The part as written. -/
def GapPart.text : GapPart → Text
  | space c _ => [c]
  | comment body _ => blockCommentOpening ++ body ++ blockCommentClosing

/-- The part is a comment whose body begins with a slash, so that the star of its opening and the
slash look like its end. -/
def GapPart.endsEarly : GapPart → Bool
  | space .. => false
  | comment body _ => body.head? == some '/'

/-- Whitespace and comments. -/
abbrev Gap := List GapPart

/-- The gap as written. -/
def Gap.text (gap : Gap) : Text :=
  gap.flatMap GapPart.text

/-- The sign before the name of a class, of an id or of a pseudo class. -/
inductive Sign where
  | dot
  | hash
  | colon
deriving DecidableEq

/-- The sign as written. -/
def Sign.char : Sign → Char
  | dot => '.'
  | hash => '#'
  | colon => ':'

/-- A class, an id or a pseudo class. -/
structure Piece where
  sign : Sign
  name : Name

/-- The piece as written. -/
def Piece.text (piece : Piece) : Text :=
  piece.sign.char :: piece.name.text

/-- An element with its pieces, or at least one piece. -/
structure Compound where
  element : Option Element
  pieces : List Piece
  nonempty : element.isSome ∨ pieces ≠ []

/-- The compound as written. -/
def Compound.text (compound : Compound) : Text :=
  (compound.element.map fun element => element.text).getD [] ++ compound.pieces.flatMap Piece.text

/-- What joins two compounds: whitespace, or a sign with or without whitespace around it. -/
inductive Joint where
  | space
  | spaced (sign : Char) (isSign : sign ∈ ['>', '+', '~'])
  | tight

/-- The joint as written. -/
def Joint.text : Joint → Text
  | space => [' ']
  | spaced sign _ => [' ', sign, ' ']
  | tight => ['>']

/-- A chain of compounds. -/
structure Complex where
  first : Compound
  others : List (Joint × Compound)

/-- The chain as written. -/
def Complex.text (complex : Complex) : Text :=
  complex.first.text ++ complex.others.flatMap fun (joint, compound) => joint.text ++ compound.text

/-- A word of a value. -/
inductive Word where
  /-- A name, a number with its unit, or a colour. -/
  | plain (text : Text) (ne_nil : text ≠ []) (isWord : text.all isWordChar)
  /-- A name in braces behind a dollar sign. -/
  | interpolation (name : Name)

/-- The word as written. -/
def Word.text : Word → Text
  | plain text _ _ => text
  | interpolation name => '$' :: '\x7b' :: name.text ++ ['\x7d']

/-- A word without interpolation. -/
def Word.isPlain : Word → Bool
  | plain .. => true
  | interpolation _ => false

/-- A property and the words of its value, with the gaps around the colon and behind the
declaration. -/
structure Declaration where
  property : Property
  first : Word
  others : List Word
  beforeColon : Gap
  afterColon : Gap
  after : Gap

namespace Declaration

/-- The words of the value. -/
def words (declaration : Declaration) : List Word :=
  declaration.first :: declaration.others

/-- The value as written, with one space between two words. -/
def value (declaration : Declaration) : Text :=
  declaration.first.text ++ declaration.others.flatMap fun word => ' ' :: word.text

/-- The declaration as written, up to the end of its value. -/
def text (declaration : Declaration) : Text :=
  declaration.property.text ++ declaration.beforeColon.text ++ ':' :: declaration.afterColon.text ++
    declaration.value

/-- What a reader should find. -/
def outline (declaration : Declaration) : Outline :=
  .declaration declaration.property.text declaration.value

end Declaration

/-- Declarations one after another with a semicolon behind each, but perhaps not behind the
last. -/
def declarationsText (lastSemicolon : Bool) : List Declaration → Text
  | [] => []
  | [declaration] =>
    declaration.text ++ (if lastSemicolon then [';'] else []) ++ declaration.after.text
  | declaration :: next :: rest =>
    declaration.text ++ ';' :: declaration.after.text ++
      declarationsText lastSemicolon (next :: rest)

/-- A rule apart from the rules nested in it. -/
structure RuleParts where
  first : Complex
  others : List Complex
  declarations : List Declaration
  openGap : Gap
  closeGap : Gap
  lastSemicolon : Bool

namespace RuleParts

/-- The selectors as written, with a comma and a space between two. -/
def selectorsText (parts : RuleParts) : Text :=
  parts.first.text ++ parts.others.flatMap fun complex => ',' :: ' ' :: complex.text

/-- The texts of the selectors. -/
def selectors (parts : RuleParts) : List Text :=
  (parts.first :: parts.others).map Complex.text

/-- All gaps of the rule. -/
def gaps (parts : RuleParts) : List Gap :=
  parts.openGap :: parts.closeGap ::
    parts.declarations.flatMap fun d => [d.beforeColon, d.afterColon, d.after]

/-- The element that the rule begins with is a keyword, or one that is continued behind a dash. -/
def beginsWithKeyword (parts : RuleParts) : Bool :=
  parts.first.first.element.any fun element => startsWithKeyword element.text

/-- No value of the rule has an interpolation. -/
def isPlain (parts : RuleParts) : Bool :=
  parts.declarations.all fun declaration => declaration.words.all Word.isPlain

end RuleParts

/-- A rule with the rules nested in it. -/
inductive Rule where
  | mk (parts : RuleParts) (nested : List Rule)

mutual

/-- The rule as written. The semicolon behind the last declaration is left out only if no nested
rule follows. -/
def Rule.text : Rule → Text
  | .mk parts nested =>
    parts.selectorsText ++ parts.openGap.text ++ '\x7b' ::
      (declarationsText (!nested.isEmpty || parts.lastSemicolon) parts.declarations ++
        rulesText nested ++ parts.closeGap.text) ++ ['\x7d']

/-- Rules as written, with a line feed behind each. -/
def rulesText : List Rule → Text
  | [] => []
  | rule :: rules => rule.text ++ '\n' :: rulesText rules

end

mutual

/-- What a reader should find of a rule. -/
def Rule.outline : Rule → Outline
  | .mk parts nested =>
    .rule parts.selectors (parts.declarations.map Declaration.outline ++ outlinesOf nested)

/-- What a reader should find of rules. -/
def outlinesOf : List Rule → List Outline
  | [] => []
  | rule :: rules => rule.outline :: outlinesOf rules

end

mutual

/-- The parts of a rule and of the rules nested in it at all depths. -/
def Rule.allParts : Rule → List RuleParts
  | .mk parts nested => parts :: allPartsOf nested

/-- The parts of rules and of the rules nested in them at all depths. -/
def allPartsOf : List Rule → List RuleParts
  | [] => []
  | rule :: rules => rule.allParts ++ allPartsOf rules

end

/-- What holds of a rule when it holds of the rules nested directly in it holds of all rules. -/
theorem Rule.induction {motive : Rule → Prop}
    (mk : ∀ parts nested, (∀ rule ∈ nested, motive rule) → motive (.mk parts nested))
    (rule : Rule) : motive rule :=
  @Rule.rec motive (fun rules => ∀ rule ∈ rules, motive rule) mk (by simp)
    (fun _ _ hrule hrules => List.forall_mem_cons.mpr ⟨hrule, hrules⟩) rule

/-- The text of rules is the text of each with a line feed behind it. -/
theorem rulesText_eq_flatMap (rules : List Rule) :
    rulesText rules = rules.flatMap fun rule => rule.text ++ ['\n'] := by
  induction rules with
  | nil => rfl
  | cons rule rules ih => rw [rulesText, List.flatMap_cons, ih, List.append_assoc]; rfl

/-- The parts of rules are those of each of them. -/
theorem allPartsOf_eq_flatMap (rules : List Rule) :
    allPartsOf rules = rules.flatMap Rule.allParts := by
  induction rules with
  | nil => rfl
  | cons rule rules ih => rw [allPartsOf, List.flatMap_cons, ih]

/-- The parts of one of the rules are among the parts of all. -/
theorem mem_allPartsOf {parts : RuleParts} {rule : Rule} {rules : List Rule} (hrule : rule ∈ rules)
    (hparts : parts ∈ rule.allParts) : parts ∈ allPartsOf rules := by
  rw [allPartsOf_eq_flatMap]
  exact List.mem_flatMap.mpr ⟨rule, hrule, hparts⟩

/-- A rule is shorter than the text of rules that it is one of. -/
theorem length_text_lt {rule : Rule} {rules : List Rule} (h : rule ∈ rules) :
    rule.text.length < (rulesText rules).length := by
  induction rules with
  | nil => cases h
  | cons first rules ih =>
    rw [rulesText, List.length_append, List.length_cons]
    rcases List.mem_cons.mp h with rfl | h
    · omega
    · have hlt := ih h
      omega

/-- A rule of the plain language: no rule is nested in it and no value has an interpolation. -/
def Rule.isPlain : Rule → Bool
  | .mk parts nested => nested.isEmpty && parts.isPlain

end RuleSet

end StyleSyntax
