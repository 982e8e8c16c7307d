import StyleSyntax.Tree.Node

/-!
# What is seen of a tree

A view of the nodes of a list keeps some of what they record: it says what is seen of the texts that
may hold whitespace and comments, of positions, and of the items of bodies. Kinds, languages,
fragments, names, paths and marks are always seen. Two nodes look the same when the view makes them
equal.
-/

namespace StyleSyntax

/-- What is seen of the parts of nodes. -/
structure View where
  text : Text → Text
  position : Position → Position
  items : List Node → List Node

namespace View

/-- Everything is seen as it is. -/
def full : View := ⟨id, id, id⟩

variable (view : View)

/-- What is seen of an excerpt. -/
def excerpt (excerpt : Excerpt) : Excerpt :=
  ⟨view.text excerpt.text, view.position excerpt.position⟩

/-- What is seen of a name: its text is always seen. -/
def name (name : Excerpt) : Excerpt :=
  { name with position := view.position name.position }

/-- What is seen of a selector: its language and its fragments, and its source. -/
def selector (selector : Selector) : Selector :=
  { selector with source := view.excerpt selector.source }

/-- What is seen of a declaration: all but its value and its source are always seen. -/
def declaration (declaration : Declaration) : Declaration :=
  { declaration with
    property := view.name declaration.property
    value := view.excerpt declaration.value
    source := view.text declaration.source }

/-- What is seen of what stands before the braces. -/
def head : Head → Head
  | .rule dialect selectors => .rule dialect (selectors.map view.selector)
  | .media queries => .media (view.excerpt queries)
  | .page pseudo => .page pseudo
  | .variableBlock keyword name exported => .variableBlock keyword name exported

/-- What is seen of a node without a body. -/
def leaf : Leaf → Leaf
  | .ignored source => .ignored (view.excerpt source)
  | .script source => .script (view.excerpt source)
  | .importRule path queries source =>
    .importRule path (queries.map view.text) (view.excerpt source)
  | .charset name source => .charset name (view.excerpt source)
  | .declaration d => .declaration (view.declaration d)
  | .selector s => .selector (view.selector s)
  | .spread expression source => .spread (view.excerpt expression) (view.excerpt source)

/-- What is seen of a node. -/
def node : Node → Node
  | .leaf l => .leaf (view.leaf l)
  | .block head items source => .block (view.head head) (view.items items) (view.excerpt source)

@[simp] theorem full_selector : full.selector = id := rfl

/-- A full view sees a node as it is. -/
@[simp] theorem full_node (node : Node) : full.node node = node := by
  cases node with
  | leaf l =>
    cases l with
    | importRule path queries source => cases queries <;> rfl
    | _ => rfl
  | block head items source =>
    cases head with
    | rule dialect selectors =>
      rw [View.node, View.head, full_selector, List.map_id]
      rfl
    | _ => rfl

/-- A full view sees a list of nodes as it is. -/
@[simp] theorem map_full_node : List.map full.node = id :=
  (congrArg List.map (funext full_node)).trans List.map_id_fun

end View

end StyleSyntax
