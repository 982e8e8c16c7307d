import StyleSyntax.Text.Quoted
import StyleSyntax.Tree.Node

/-!
# Listings of a tree

The dump of a tree prints each node on a line of its own, in depth-first order, indented by two
spaces for each level. The outline is the same listing as data, with the selectors of a rule as
rows of their own before its items.
-/

namespace StyleSyntax

/-- What the dump says of a node without a body after its type and position. -/
def Leaf.details : Leaf → Text
  | ignored source | script source => ' ' :: Text.quoted source.text
  | importRule path none _ => ' ' :: path
  | importRule path (some queries) _ => ' ' :: path ++ " media=".toList ++ queries
  | charset name _ => ' ' :: name
  | declaration d =>
    ' ' :: d.property.text ++ " = ".toList ++ d.value.text ++
      (if d.important then " !important".toList else [])
  | selector s => ' ' :: Text.quotedList s.fragments
  | spread expression _ => ' ' :: expression.text

/-- What the dump says of the part before the braces. -/
def Head.details : Head → Text
  | rule _ selectors => ' ' :: List.intercalate ", ".toList (selectors.map fun s => s.source.text)
  | media queries => ' ' :: queries.text
  | page none => []
  | page (some pseudo) => ' ' :: pseudo
  | variableBlock keyword name exported =>
    (if exported then " export".toList else []) ++ ' ' :: keyword.text ++ ' ' :: name

namespace Node

/-- What the dump says of a node after its type and position. -/
def details : Node → Text
  | leaf l => l.details
  | block head _ _ => head.details

/-- The line of a node in the dump. -/
def dumpLine (depth : Nat) (node : Node) : Text :=
  List.replicate (2 * depth) ' ' ++ node.typeName ++ ' ' :: node.position.text ++ node.details ++
    ['\n']

end Node

/-- One line for each node, indented by its depth. -/
def dump (nodes : List Node) : Text :=
  (Node.listingOf 0 nodes).flatMap fun entry => entry.2.dumpLine entry.1

/-- One row of an outline. -/
structure OutlineRow where
  depth : Nat
  node : Node

namespace OutlineRow

/-- The number of items of a node with a body. -/
def itemCount (row : OutlineRow) : Option Nat :=
  row.node.items?.map List.length

/-- The texts of the selectors of a rule. -/
def selectorTexts (row : OutlineRow) : Option (List Text) :=
  row.node.selectors?.map fun selectors => selectors.map fun s => s.source.text

/-- The declarations directly in the body of a rule. -/
def declarations (row : OutlineRow) : Option (List Declaration) :=
  match row.node with
  | .block (.rule ..) items _ => some (items.filterMap Node.declaration?)
  | _ => none

end OutlineRow

/-- The rows of a listed node: the node, and one level deeper its selectors. -/
def outlineRows (entry : Nat × Node) : List OutlineRow :=
  ⟨entry.1, entry.2⟩ ::
    (entry.2.selectors?.getD []).map fun s => ⟨entry.1 + 1, .leaf (.selector s)⟩

/-- The rows of all nodes in order. -/
def outline (nodes : List Node) : List OutlineRow :=
  (Node.listingOf 0 nodes).flatMap outlineRows

end StyleSyntax
