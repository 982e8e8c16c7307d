import StyleSyntax.Lexer.Tokens
import StyleSyntax.Proofs.Token.Trimmed
import StyleSyntax.Tree.Node

/-!
# Nodes and the tokens they are read from

Items are read from tokens when the tokens divide into one run for each node: a whole run of trivia
for an ignored node, and a list that begins and ends with a significant token for a statement. A
block is a head, a brace token and what may follow it, and its items are in turn read from the split
tokens of the text between the braces. What may be read depends on the language and on the place of
the item list. The relation keeps every excerpt of a node tied to the tokens it was taken from, so
that an invariant of token lists reaches the nodes at every depth.
-/

namespace StyleSyntax

/-- The sorts of item lists. -/
inductive Place where
  /-- The whole sheet. -/
  | sheet
  /-- The body of a rule or of a variable. -/
  | block
  /-- The body of a media rule. -/
  | media
  /-- The body of a page rule. -/
  | page
deriving DecidableEq

/-- Rules and at-rules may stand here. Only the extended language nests them in rules. -/
def Place.HasRules (dialect : Dialect) : Place → Prop
  | sheet | media => True
  | block => dialect = .jss
  | page => False

/-- Script and variables may stand here. -/
def Place.HasScript (dialect : Dialect) (place : Place) : Prop :=
  dialect = .jss ∧ (place = .sheet ∨ place = .block)

/-- Declarations may stand here. -/
def Place.HasDeclarations (place : Place) : Prop :=
  place = .block ∨ place = .page

/-- The excerpts that a leaf records besides its own source. -/
def Leaf.parts : Leaf → List Excerpt
  | declaration d => [d.property, d.value]
  | spread expression _ => [expression]
  | ignored _ | script _ | importRule .. | charset .. | selector _ => []

/-- The excerpts that a head records. -/
def Head.parts : Head → List Excerpt
  | rule _ selectors => selectors.map Selector.source
  | media queries => [queries]
  | page _ | variableBlock .. => []

/-- The excerpts that a node records, its own source first. Those of its items are not among
them. -/
def Node.excerpts : Node → List Excerpt
  | leaf l => l.excerpt :: l.parts
  | block head _ source => source :: head.parts

/-- The leaf is a statement that may stand at the place. An ignored statement is a semicolon. -/
def Leaf.Fits (dialect : Dialect) (place : Place) : Leaf → Prop
  | ignored source => source.text = [';']
  | script _ => place.HasScript dialect
  | importRule .. | charset .. => place.HasRules dialect
  | declaration d => d.dialect = dialect ∧ place.HasDeclarations
  | selector _ => False
  | spread .. => dialect = .jss ∧ place = .block

/-- The head is one of a block that may stand at the place. Rules have selectors, and these have
fragments. -/
def Head.Fits (dialect : Dialect) (place : Place) : Head → Prop
  | rule language selectors => language = dialect ∧ place.HasRules dialect ∧ selectors ≠ [] ∧
      ∀ selector ∈ selectors, selector.dialect = dialect ∧ selector.fragments ≠ []
  | media _ | page _ => place.HasRules dialect
  | variableBlock .. => place.HasScript dialect

/-- The place between the braces behind a head. -/
def Head.place : Head → Place
  | rule .. | variableBlock .. => .block
  | media _ => .media
  | page _ => .page

/-- What may stand behind the braces: nothing, or behind a variable also a gap and a semicolon. -/
def Head.EndsWith (back : List Token) : Head → Prop
  | variableBlock .. => back = [] ∨
      ∃ gap signs, back = gap ++ signs ∧ AllTrivia gap ∧ spelling signs = [';']
  | _ => back = []

/-- A leaf is read from these tokens as a statement. -/
structure LeafOf (dialect : Dialect) (place : Place) (tokens : List Token) (leaf : Leaf) :
    Prop where
  fits : leaf.Fits dialect place
  source : leaf.excerpt.IsOf tokens
  parts : ∀ excerpt ∈ leaf.parts, excerpt.IsWithin tokens

/-- A block with this head is read from the tokens of the head, a brace token and those behind
it. -/
structure HeadOf (dialect : Dialect) (place : Place) (front : List Token) (token : Token)
    (back : List Token) (head : Head) (source : Excerpt) : Prop where
  fits : head.Fits dialect place
  source : source.IsOf (front ++ token :: back)
  parts : ∀ excerpt ∈ head.parts, excerpt.IsWithin front
  braces : token.isBraces
  ends : head.EndsWith back

mutual

/-- Items are read from these tokens, in order and with none left out. A run of trivia is one
item. -/
inductive ItemsOf (config : LexerConfig) (dialect : Dialect) :
    Place → List Token → List Node → Prop
  | nil {place : Place} : ItemsOf config dialect place [] []
  | cons {place : Place} {used rest : List Token} {node : Node} {nodes : List Node} :
      NodeOf config dialect place used node → (AllTrivia used → dropTrivia rest = rest) →
      ItemsOf config dialect place rest nodes →
      ItemsOf config dialect place (used ++ rest) (node :: nodes)

/-- A node is read from these tokens. -/
inductive NodeOf (config : LexerConfig) (dialect : Dialect) :
    Place → List Token → Node → Prop
  | trivia {place : Place} {first : Token} {more : List Token} : AllTrivia (first :: more) →
      NodeOf config dialect place (first :: more)
        (.leaf (.ignored ⟨spelling (first :: more), first.position⟩))
  | leaf {place : Place} {tokens : List Token} {leaf : Leaf} : LeafOf dialect place tokens leaf →
      NodeOf config dialect place tokens (.leaf leaf)
  | block {place : Place} {front back tokens : List Token} {token : Token} {head : Head}
      {items : List Node} {source : Excerpt} {text : Text} {origin : Position} :
      HeadOf dialect place front token back head source → token.interior = some (text, origin) →
      tokensOf config text origin = .ok tokens →
      ItemsOf config dialect head.place (splitSymbolRuns tokens) items →
      NodeOf config dialect place (front ++ token :: back) (.block head items source)

end

variable {config : LexerConfig} {dialect : Dialect}

/-- The source of a node is the text of the tokens it is read from. -/
theorem NodeOf.source_eq {place : Place} {tokens : List Token} {node : Node}
    (h : NodeOf config dialect place tokens node) :
    node.source = spelling tokens := by
  cases h with
  | trivia => rfl
  | leaf hleaf =>
    obtain ⟨first, more, _, _, hsource⟩ := hleaf.source.begins
    rw [Node.source, Node.excerpt, hsource]
  | block hhead =>
    obtain ⟨first, more, _, _, hsource⟩ := hhead.source.begins
    rw [Node.source, Node.excerpt, hsource]

/-- The source of items is the text of the tokens they are read from. -/
theorem ItemsOf.toSource_eq {place : Place} {tokens : List Token} {nodes : List Node}
    (h : ItemsOf config dialect place tokens nodes) :
    toSource nodes = spelling tokens := by
  match h with
  | .nil => rfl
  | .cons hnode _ hrest =>
    rw [toSource, List.flatMap_cons, hnode.source_eq, spelling_append]
    exact congrArg _ hrest.toSource_eq

/-- A property of token lists that neighbours inherit and that holds of the split tokens between
the brackets of a token. -/
structure TokenInvariant (config : LexerConfig) where
  holds : List Token → Prop
  of_isInfix {tokens part : List Token} : holds tokens → part <:+: tokens → holds part
  of_interior {tokens inner : List Token} {token : Token} {text : Text} {origin : Position} :
    holds tokens → token ∈ tokens → token.interior = some (text, origin) →
    tokensOf config text origin = .ok inner → holds (splitSymbolRuns inner)

mutual

/-- Every node at every depth is read from tokens that satisfy the invariant. -/
theorem ItemsOf.exists_of_mem_listing {place : Place} {tokens : List Token}
    {nodes : List Node} {invariant : TokenInvariant config}
    (h : ItemsOf config dialect place tokens nodes) (hholds : invariant.holds tokens)
    {depth : Nat} {entry : Nat × Node} (hentry : entry ∈ Node.listingOf depth nodes) :
    ∃ place part, invariant.holds part ∧ NodeOf config dialect place part entry.2 := by
  match h with
  | .nil => cases hentry
  | .cons hnode _ hrest =>
    rw [Node.listingOf, List.mem_append] at hentry
    rcases hentry with hentry | hentry
    · exact hnode.exists_of_mem_listing
        (invariant.of_isInfix hholds (List.prefix_append _ _).isInfix) hentry
    · exact hrest.exists_of_mem_listing
        (invariant.of_isInfix hholds (List.suffix_append _ _).isInfix) hentry

/-- A node and those of its body are read from tokens that satisfy the invariant. -/
theorem NodeOf.exists_of_mem_listing {place : Place} {tokens : List Token}
    {node : Node} {invariant : TokenInvariant config}
    (h : NodeOf config dialect place tokens node) (hholds : invariant.holds tokens)
    {depth : Nat} {entry : Nat × Node} (hentry : entry ∈ Node.listing depth node) :
    ∃ place part, invariant.holds part ∧ NodeOf config dialect place part entry.2 := by
  match h with
  | .trivia hgap =>
    obtain rfl := List.mem_singleton.mp hentry
    exact ⟨place, _, hholds, .trivia hgap⟩
  | .leaf hleaf =>
    obtain rfl := List.mem_singleton.mp hentry
    exact ⟨place, _, hholds, .leaf hleaf⟩
  | .block hhead hinterior htokens hitems =>
    rw [Node.listing, List.mem_cons] at hentry
    rcases hentry with rfl | hentry
    · exact ⟨place, _, hholds, .block hhead hinterior htokens hitems⟩
    · exact hitems.exists_of_mem_listing
        (invariant.of_interior hholds (by simp) hinterior htokens) hentry

end

end StyleSyntax
