import StyleSyntax.Dialect
import StyleSyntax.Token.Fragment

/-!
# Syntax trees

A stylesheet is a list of nodes. Every node keeps the exact source it was read from, and lists keep
whitespace and comments as ignored nodes, so the sources of the nodes of a list make up the text of
the list. Rule blocks, selectors and declarations carry the language they were read in.
-/

namespace StyleSyntax

/-- The word that introduces a variable block. -/
inductive VarKeyword where
  | constKeyword
  | letKeyword
  | varKeyword
deriving DecidableEq

namespace VarKeyword

/-- The word as written. -/
def text : VarKeyword → Text
  | constKeyword => "const".toList
  | letKeyword => "let".toList
  | varKeyword => "var".toList

/-- The keyword with this text. -/
def ofText? (text : Text) : Option VarKeyword :=
  [constKeyword, letKeyword, varKeyword].find? fun keyword => keyword.text == text

end VarKeyword

/-- A chain of compound selectors. Combinators stand among the pieces as fragments of their own,
the descendant combinator as one space. -/
structure Selector where
  dialect : Dialect
  fragments : List Text
  source : Excerpt
deriving DecidableEq

/-- A property with its value. -/
structure Declaration where
  dialect : Dialect
  property : Excerpt
  value : Excerpt
  important : Bool
  source : Text
deriving DecidableEq

/-- What stands before the braces of a node with a body. -/
inductive Head where
  /-- The selectors of a rule. -/
  | rule (dialect : Dialect) (selectors : List Selector)
  /-- The queries of a media rule. -/
  | media (queries : Excerpt)
  /-- The pseudo class of a page rule. -/
  | page (pseudo : Option Text)
  /-- The keyword and name of a variable, and whether it is exported. -/
  | variableBlock (keyword : VarKeyword) (name : Text) (exported : Bool)
deriving DecidableEq

/-- A node without a body, with the source it was read from. -/
inductive Leaf where
  /-- Whitespace, comments, or a semicolon with nothing before it. -/
  | ignored (source : Excerpt)
  /-- A script statement, kept as written. -/
  | script (source : Excerpt)
  /-- A rule that imports another sheet, with its media queries. -/
  | importRule (path : Text) (queries : Option Text) (source : Excerpt)
  /-- A rule that names the character set. -/
  | charset (name : Text) (source : Excerpt)
  | declaration (declaration : Declaration)
  | selector (selector : Selector)
  /-- An expression whose items are spread into the block. -/
  | spread (expression source : Excerpt)
deriving DecidableEq

/-- A node of the tree. -/
inductive Node where
  | leaf (leaf : Leaf)
  /-- A node with a body of items. -/
  | block (head : Head) (items : List Node) (source : Excerpt)

/-- A stylesheet is the list of its top-level nodes. -/
abbrev Stylesheet := List Node

namespace Leaf

/-- The name of the type of a node. -/
def typeName : Leaf → Text
  | ignored _ => "Ignore".toList
  | script _ => "Raw".toList
  | importRule .. => "CssImport".toList
  | charset .. => "CssCharset".toList
  | declaration ⟨.css, _, _, _, _⟩ => "CssDeclaration".toList
  | declaration ⟨.jss, _, _, _, _⟩ => "JssDeclaration".toList
  | selector ⟨.css, _, _⟩ => "CssSelector".toList
  | selector ⟨.jss, _, _⟩ => "JssSelector".toList
  | spread .. => "JssSpread".toList

/-- The source of a node with its position. A declaration stands where its property does. -/
def excerpt : Leaf → Excerpt
  | ignored source | script source | importRule _ _ source | charset _ source
  | spread _ source => source
  | declaration d => ⟨d.source, d.property.position⟩
  | selector s => s.source

end Leaf

/-- The name of the type of a node with this head. -/
def Head.typeName : Head → Text
  | rule .css _ => "CssBlock".toList
  | rule .jss _ => "JssBlock".toList
  | media _ => "CssMedia".toList
  | page _ => "CssPage".toList
  | variableBlock .. => "JssVarDeclaration".toList

namespace Node

/-- The name of the type of a node. -/
def typeName : Node → Text
  | leaf l => l.typeName
  | block head _ _ => head.typeName

/-- The source of a node with its position. -/
def excerpt : Node → Excerpt
  | leaf l => l.excerpt
  | block _ _ source => source

/-- The exact source of a node. -/
def source (node : Node) : Text :=
  node.excerpt.text

/-- The position of a node. -/
def position (node : Node) : Position :=
  node.excerpt.position

/-- The items of a node with a body. -/
def items? : Node → Option (List Node)
  | block _ items _ => some items
  | leaf _ => none

/-- The selectors of a rule block. -/
def selectors? : Node → Option (List Selector)
  | block (.rule _ selectors) _ _ => some selectors
  | _ => none

/-- A node that is a declaration. -/
def declaration? : Node → Option Declaration
  | leaf (.declaration d) => some d
  | _ => none

/-- A node that is a selector. -/
def selector? : Node → Option Selector
  | leaf (.selector s) => some s
  | _ => none

/-- Whitespace, comments and lone semicolons. -/
def isIgnored : Node → Bool
  | leaf (.ignored _) => true
  | _ => false

mutual

/-- A node and the nodes of its body, each before its own items, with their depths. -/
def listing (depth : Nat) : Node → List (Nat × Node)
  | leaf l => [(depth, leaf l)]
  | block head items source => (depth, block head items source) :: listingOf (depth + 1) items

/-- The nodes of a list and of their bodies in order, with their depths. -/
def listingOf (depth : Nat) : List Node → List (Nat × Node)
  | [] => []
  | node :: nodes => listing depth node ++ listingOf depth nodes

end

mutual

/-- Nodes are compared by their parts. -/
def decideEq : (a b : Node) → Decidable (a = b)
  | leaf a, leaf b => decidable_of_iff (a = b) (by simp)
  | block head items source, block head' items' source' =>
    have : Decidable (items = items') := decideEqLists items items'
    decidable_of_iff (head = head' ∧ items = items' ∧ source = source') (by simp)
  | leaf _, block .. => isFalse (by simp)
  | block .., leaf _ => isFalse (by simp)

/-- Lists of nodes are compared node by node. -/
def decideEqLists : (a b : List Node) → Decidable (a = b)
  | [], [] => isTrue rfl
  | a :: as, b :: bs =>
    have : Decidable (a = b) := decideEq a b
    have : Decidable (as = bs) := decideEqLists as bs
    decidable_of_iff (a = b ∧ as = bs) (by simp)
  | [], _ :: _ => isFalse (by simp)
  | _ :: _, [] => isFalse (by simp)

end

instance : DecidableEq Node := decideEq

end Node

/-- The text that a list of nodes was read from. -/
def toSource (nodes : List Node) : Text :=
  nodes.flatMap Node.source

/-- The number of nodes at all depths, ignored ones not counted. -/
def countNodes (nodes : List Node) : Nat :=
  (Node.listingOf 0 nodes).countP fun entry => !entry.2.isIgnored

end StyleSyntax
