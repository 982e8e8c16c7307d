import StyleSyntax.Tree.Node

/-!
# Changing trees

A change of leaves, of heads and of the sources of blocks reaches every depth of a tree and keeps
its shape.
-/

namespace StyleSyntax

/-- What becomes of the parts of a tree. -/
structure TreeChange where
  leaf : Leaf → Leaf
  head : Head → Head
  source : Excerpt → Excerpt

mutual

/-- Changes the parts of a node at every depth. -/
def Node.change (c : TreeChange) : Node → Node
  | leaf l => leaf (c.leaf l)
  | block head items source => block (c.head head) (changeAll c items) (c.source source)

/-- Changes the parts of some nodes at every depth. -/
def Node.changeAll (c : TreeChange) : List Node → List Node
  | [] => []
  | node :: nodes => node.change c :: changeAll c nodes

end

/-- Some nodes are changed one by one. -/
theorem Node.changeAll_eq_map (c : TreeChange) (nodes : List Node) :
    changeAll c nodes = nodes.map (change c) := by
  induction nodes with
  | nil => rfl
  | cons node nodes ih => rw [changeAll, ih, List.map_cons]

mutual

/-- A change that leaves all parts as they are leaves a node as it is. -/
theorem Node.change_eq_self {c : TreeChange} (hleaf : ∀ l, c.leaf l = l)
    (hhead : ∀ head, c.head head = head) (hsource : ∀ source, c.source source = source)
    (node : Node) : node.change c = node := by
  match node with
  | .leaf l => rw [change, hleaf]
  | .block head items source =>
    rw [change, hhead, hsource, changeAll_eq_self hleaf hhead hsource]

/-- A change that leaves all parts as they are leaves nodes as they are. -/
theorem Node.changeAll_eq_self {c : TreeChange} (hleaf : ∀ l, c.leaf l = l)
    (hhead : ∀ head, c.head head = head) (hsource : ∀ source, c.source source = source)
    (nodes : List Node) : changeAll c nodes = nodes := by
  match nodes with
  | [] => rfl
  | node :: nodes =>
    rw [changeAll, change_eq_self hleaf hhead hsource, changeAll_eq_self hleaf hhead hsource]

end

mutual

/-- Two changes of a node are one when they are of each part. -/
theorem Node.change_change {c c' both : TreeChange} (hleaf : ∀ l, c.leaf (c'.leaf l) = both.leaf l)
    (hhead : ∀ head, c.head (c'.head head) = both.head head)
    (hsource : ∀ source, c.source (c'.source source) = both.source source) (node : Node) :
    (node.change c').change c = node.change both := by
  match node with
  | .leaf l => rw [change, change, change, hleaf]
  | .block head items source =>
    rw [change, change, change, hhead, hsource, changeAll_changeAll hleaf hhead hsource]

/-- Two changes of nodes are one when they are of each part. -/
theorem Node.changeAll_changeAll {c c' both : TreeChange}
    (hleaf : ∀ l, c.leaf (c'.leaf l) = both.leaf l)
    (hhead : ∀ head, c.head (c'.head head) = both.head head)
    (hsource : ∀ source, c.source (c'.source source) = both.source source) (nodes : List Node) :
    changeAll c (changeAll c' nodes) = changeAll both nodes := by
  match nodes with
  | [] => rfl
  | node :: nodes =>
    rw [changeAll, changeAll, changeAll, change_change hleaf hhead hsource,
      changeAll_changeAll hleaf hhead hsource]

end

end StyleSyntax
