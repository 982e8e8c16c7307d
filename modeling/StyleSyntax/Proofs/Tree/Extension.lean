import StyleSyntax.Proofs.Grammar.Keywords
import StyleSyntax.Proofs.Tree.Change

/-!
# Trees in the extended language

A tree of the plain language is relabelled when its rules, selectors and declarations are those of
the extended language and all else is as before. The extended language makes a little more of a
plain tree: in the body of a rule it takes a declaration that begins with a keyword for script.
-/

namespace StyleSyntax

/-- The selector as one of the extended language. -/
def Selector.relabelled (selector : Selector) : Selector :=
  { selector with dialect := .jss }

/-- The declaration as one of the extended language. -/
def Declaration.relabelled (declaration : Declaration) : Declaration :=
  { declaration with dialect := .jss }

/-- The leaf as one of the extended language. -/
def Leaf.relabelled : Leaf → Leaf
  | declaration d => declaration d.relabelled
  | selector s => selector s.relabelled
  | leaf => leaf

/-- The head as one of the extended language. -/
def Head.relabelled : Head → Head
  | rule _ selectors => rule .jss (selectors.map Selector.relabelled)
  | head => head

/-- The node with all rules, selectors and declarations as those of the extended language. -/
def Node.relabelled : Node → Node :=
  change ⟨Leaf.relabelled, Head.relabelled, id⟩

/-- What the extended language makes of a leaf in the body of a rule. -/
def Leaf.extendedInRule : Leaf → Leaf
  | declaration d =>
    if startsWithKeyword d.source then script ⟨d.source, d.property.position⟩
    else declaration d.relabelled
  | leaf => leaf.relabelled

/-- What the extended language makes of an item in the body of a rule. Rules of the plain language
are not nested, so all of these items are leaves. -/
def Node.extendedInRule : Node → Node
  | leaf l => leaf l.extendedInRule
  | block head items source => (block head items source).relabelled

mutual

/-- What the extended language makes of a node. -/
def Node.extended : Node → Node
  | leaf l => leaf l.relabelled
  | block (.rule dialect selectors) items source =>
    block (Head.rule dialect selectors).relabelled (items.map extendedInRule) source
  | block head items source => block head.relabelled (extendedAll items) source

/-- What the extended language makes of some nodes. -/
def Node.extendedAll : List Node → List Node
  | [] => []
  | node :: nodes => node.extended :: extendedAll nodes

end

/-- Some nodes are extended one by one. -/
theorem Node.extendedAll_eq_map (nodes : List Node) : extendedAll nodes = nodes.map extended := by
  induction nodes with
  | nil => rfl
  | cons node nodes ih => rw [extendedAll, ih, List.map_cons]

/-- The declarations that stand directly in the body of the node if it is a rule. -/
def Node.ruleDeclarations : Node → List Declaration
  | block (.rule ..) items _ => items.filterMap declaration?
  | _ => []

/-- The node and all nodes of its body have the property. -/
def Node.Everywhere (holds : Node → Prop) (node : Node) : Prop :=
  ∃ depth, ∀ entry ∈ listing depth node, holds entry.2

namespace Node

variable {holds : Node → Prop}

/-- A property of all nodes of a list holds everywhere in each of them. -/
theorem everywhere_of_listingOf {depth : Nat} {nodes : List Node}
    (h : ∀ entry ∈ listingOf depth nodes, holds entry.2) :
    ∀ node ∈ nodes, node.Everywhere holds := by
  induction nodes with
  | nil => simp
  | cons node nodes ih =>
    rw [listingOf, List.forall_mem_append] at h
    exact List.forall_mem_cons.mpr ⟨⟨depth, h.1⟩, ih h.2⟩

/-- A node is the first of its listing. -/
theorem Everywhere.self {node : Node} (h : node.Everywhere holds) : holds node := by
  obtain ⟨depth, h⟩ := h
  cases node with
  | leaf l => exact h (depth, .leaf l) List.mem_cons_self
  | block head items source => exact h (depth, .block head items source) List.mem_cons_self

/-- What holds everywhere in a block holds everywhere in its items. -/
theorem Everywhere.items {head : Head} {items : List Node} {source : Excerpt}
    (h : (block head items source).Everywhere holds) : ∀ item ∈ items, item.Everywhere holds := by
  obtain ⟨depth, h⟩ := h
  exact everywhere_of_listingOf fun entry hentry => h entry (List.mem_cons_of_mem _ hentry)

/-- What holds everywhere may be weakened. -/
theorem Everywhere.mono {weaker : Node → Prop} {node : Node} (h : node.Everywhere holds)
    (hweaker : ∀ node, holds node → weaker node) : node.Everywhere weaker := by
  obtain ⟨depth, h⟩ := h
  exact ⟨depth, fun entry hentry => hweaker _ (h entry hentry)⟩

/-- In a rule an item that is no declaration beginning with a keyword is relabelled. -/
theorem extendedInRule_eq_relabelled {node : Node}
    (h : ∀ d ∈ node.declaration?, startsWithKeyword d.source = false) :
    node.extendedInRule = node.relabelled := by
  rcases node with leaf | ⟨head, items, source⟩
  · cases leaf with
    | declaration d =>
      have hkeyword := h d rfl
      simp [extendedInRule, Leaf.extendedInRule, hkeyword, relabelled, change, Leaf.relabelled]
    | _ => rfl
  · rfl

mutual

/-- A node in which no declaration in a rule begins with a keyword is relabelled. -/
theorem extended_eq_relabelled {node : Node} (h : node.Everywhere fun node =>
    ∀ d ∈ node.ruleDeclarations, startsWithKeyword d.source = false) :
    node.extended = node.relabelled := by
  match node with
  | .leaf l => rfl
  | .block (.rule dialect selectors) items source =>
    have hitems : items.map extendedInRule = items.map relabelled := by
      refine List.map_congr_left fun item hitem => extendedInRule_eq_relabelled fun d hd => ?_
      exact h.self d (List.mem_filterMap.mpr ⟨item, hitem, hd⟩)
    rw [extended, hitems, relabelled, change, changeAll_eq_map]
    rfl
  | .block (.media queries) items source =>
    rw [extended, extendedAll_eq_relabelled h.items, relabelled, change, changeAll_eq_map]
    · rfl
    · simp
  | .block (.page pseudo) items source =>
    rw [extended, extendedAll_eq_relabelled h.items, relabelled, change, changeAll_eq_map]
    · rfl
    · simp
  | .block (.variableBlock keyword name exported) items source =>
    rw [extended, extendedAll_eq_relabelled h.items, relabelled, change, changeAll_eq_map]
    · rfl
    · simp

/-- Nodes in which no declaration in a rule begins with a keyword are relabelled. -/
theorem extendedAll_eq_relabelled {nodes : List Node} (h : ∀ node ∈ nodes, node.Everywhere
    fun node => ∀ d ∈ node.ruleDeclarations, startsWithKeyword d.source = false) :
    extendedAll nodes = nodes.map relabelled := by
  match nodes with
  | [] => rfl
  | node :: nodes =>
    rw [List.forall_mem_cons] at h
    rw [extendedAll, extended_eq_relabelled h.1, extendedAll_eq_relabelled h.2, List.map_cons]

end

end Node

end StyleSyntax
