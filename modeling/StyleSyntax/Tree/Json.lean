import StyleSyntax.Json
import StyleSyntax.Tree.Node

/-!
# Trees as JSON documents

An object for each node, with its type first and the texts and positions of its parts after it.
-/

namespace StyleSyntax

namespace Json

/-- A field for a text and one for its position. -/
def excerptFields (name positionName : Text) (excerpt : Excerpt) : List (Text × Json) :=
  [(name, text excerpt.text), (positionName, ofPosition excerpt.position)]

/-- The fields for the source of a node. -/
def sourceFields (source : Excerpt) : List (Text × Json) :=
  excerptFields "raw".toList "position".toList source

/-- The field that names the type of a node. -/
def typeField (typeName : Text) : Text × Json :=
  ("type".toList, text typeName)

/-- The fields of a node without a body after its type. -/
def leafFields : Leaf → List (Text × Json)
  | .ignored source | .script source => excerptFields "value".toList "position".toList source
  | .importRule path queries source =>
    ("path".toList, text path) :: ("media".toList, ofText? queries) :: sourceFields source
  | .charset name source => ("charset".toList, text name) :: sourceFields source
  | .declaration d =>
    excerptFields "property".toList "property_position".toList d.property ++
      excerptFields "value".toList "value_position".toList d.value ++
        [("important".toList, bool d.important), ("raw".toList, text d.source)]
  | .selector s =>
    ("fragments".toList, array (s.fragments.map text)) :: sourceFields s.source
  | .spread expression source =>
    excerptFields "expression".toList "expression_position".toList expression ++
      sourceFields source

/-- A node without a body. -/
def ofLeaf (leaf : Leaf) : Json :=
  object (typeField leaf.typeName :: leafFields leaf)

/-- The fields of the part before the braces. -/
def headFields : Head → List (Text × Json)
  | .rule _ selectors =>
    [("selectors".toList, array (selectors.map fun s => ofLeaf (.selector s)))]
  | .media queries => excerptFields "media".toList "media_position".toList queries
  | .page pseudo => [("pseudo".toList, ofText? pseudo)]
  | .variableBlock keyword name exported =>
    [("keyword".toList, text keyword.text), ("name".toList, text name),
      ("exported".toList, bool exported)]

mutual

/-- A node with the nodes of its body. -/
def ofNode : Node → Json
  | .leaf leaf => ofLeaf leaf
  | .block head items source =>
    object (typeField head.typeName :: headFields head ++
      ("items".toList, array (ofNodes items)) :: sourceFields source)

/-- The nodes of a list. -/
def ofNodes : List Node → List Json
  | [] => []
  | node :: nodes => ofNode node :: ofNodes nodes

end

/-- A stylesheet with its items. -/
def ofStylesheet (sheet : Stylesheet) : Json :=
  object [("items".toList, array (ofNodes sheet))]

end Json

end StyleSyntax
