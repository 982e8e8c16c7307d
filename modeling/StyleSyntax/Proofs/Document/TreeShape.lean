import Mathlib.Data.List.Chain
import Mathlib.Data.List.Forall2
import StyleSyntax.Proofs.Grammar.Stylesheet

/-!
# The shape of trees

Which nodes may stand in an item list depends on the language and on what the list is the body of.
The tokens of a list divide into one chunk for each item. A chunk is a run of trivia, which becomes
an ignored node, or begins and ends with a significant token. Trivia is never divided, so two gaps
are never neighbours and each of them reaches as far as it can on both sides. All this is read off
the relation between items and tokens, once for a list and then for the body of every block.
-/

namespace StyleSyntax

/-- The first and the last token are there and significant. -/
def IsBounded (tokens : List Token) : Prop :=
  (∃ first more, tokens = first :: more ∧ first.isSignificant) ∧ EndsSignificant tokens

/-- A run of trivia with no trivia right before or behind it. -/
structure IsWholeGap (front gap back : List Token) : Prop where
  ne_nil : gap ≠ []
  trivia : AllTrivia gap
  before : ∀ token ∈ front.getLast?, token.isSignificant
  behind : ∀ token ∈ back.head?, token.isSignificant

/-- The node is read from the chunk: an ignored node from trivia or from a semicolon, any other node
from tokens between two significant ones. -/
structure Node.Takes (node : Node) (chunk : List Token) : Prop where
  source : node.source = spelling chunk
  chunk : node.isIgnored ∧ chunk ≠ [] ∧ AllTrivia chunk ∨
    IsBounded chunk ∧ (node.isIgnored → node.source = [';'])

/-- Nodes of the type may be items where the list is what `place` says. The body of a rule and of a
variable is a block, and a rule that is read in the extended language is one of that language. -/
abbrev MayStand (dialect : Dialect) (place : Place) (type : Text) : Prop :=
  (dialect = .css → type = "Ignore".toList ∨ "Css".toList <+: type) ∧
  (dialect = .jss → type ∉ ["CssBlock".toList, "CssDeclaration".toList, "CssSelector".toList]) ∧
  (type ∈ ["CssDeclaration".toList, "JssDeclaration".toList] → place = .block ∨ place = .page) ∧
  (type = "JssSpread".toList → dialect = .jss ∧ place = .block) ∧
  (type ∈ ["Raw".toList, "JssVarDeclaration".toList] → place ≠ .media ∧ place ≠ .page) ∧
  type ∉ ["CssSelector".toList, "JssSelector".toList]

/-- The node may be an item of a list at the place. A rule has selectors, and they have
fragments. -/
structure Node.Stands (dialect : Dialect) (place : Place) (node : Node) : Prop where
  type : MayStand dialect place node.typeName
  selectors : ∀ selectors, node.selectors? = some selectors → selectors ≠ [] ∧
    ∀ selector ∈ selectors, selector.dialect = dialect ∧ selector.fragments ≠ []

/-- The chunks are those of the items, in order. Two gaps are never neighbours, and each reaches as
far as it can on both sides. -/
structure IsDivision (chunks : List (List Token)) (nodes : List Node) : Prop where
  takes : List.Forall₂ Node.Takes nodes chunks
  apart : chunks.IsChain fun chunk next => ¬(AllTrivia chunk ∧ AllTrivia next)
  whole : ∀ front gap back, chunks = front ++ gap :: back → AllTrivia gap →
    IsWholeGap front.flatten gap back.flatten

/-- The nodes may be the items of a list at the place with these tokens. -/
structure IsItemList (dialect : Dialect) (place : Place) (tokens : List Token)
    (nodes : List Node) : Prop where
  stands : ∀ node ∈ nodes, node.Stands dialect place
  division : ∃ chunks, tokens = chunks.flatten ∧ IsDivision chunks nodes

/-! ## Nodes -/

/-- What an excerpt is taken from is bounded. -/
theorem Excerpt.IsOf.isBounded {tokens : List Token} {excerpt : Excerpt}
    (h : excerpt.IsOf tokens) : IsBounded tokens := by
  obtain ⟨first, more, htokens, hfirst, -⟩ := h.begins
  exact ⟨⟨first, more, htokens, hfirst⟩, h.ends⟩

/-- A chunk has tokens. -/
theorem Node.Takes.ne_nil {node : Node} {chunk : List Token} (h : node.Takes chunk) :
    chunk ≠ [] := by
  obtain ⟨-, hne, -⟩ | ⟨hbounded, -⟩ := h.chunk
  · exact hne
  · exact hbounded.2.ne_nil

/-- A chunk that is not trivia is bounded. -/
theorem Node.Takes.isBounded {node : Node} {chunk : List Token} (h : node.Takes chunk)
    (hchunk : ¬AllTrivia chunk) : IsBounded chunk := by
  obtain ⟨-, -, htrivia⟩ | ⟨hbounded, -⟩ := h.chunk
  · exact absurd htrivia hchunk
  · exact hbounded

variable {config : LexerConfig} {dialect : Dialect} {place : Place}

/-- A node takes the tokens that it is read from. -/
theorem NodeOf.takes {tokens : List Token} {node : Node}
    (h : NodeOf config dialect place tokens node) : node.Takes tokens := by
  refine ⟨h.source_eq, ?_⟩
  cases h with
  | trivia htrivia => exact .inl ⟨rfl, List.cons_ne_nil _ _, htrivia⟩
  | @leaf _ _ l hleaf =>
    refine .inr ⟨hleaf.source.isBounded, ?_⟩
    intro hignored
    cases l with
    | ignored => exact hleaf.fits
    | _ => cases hignored
  | block hhead => exact .inr ⟨hhead.source.isBounded, by simp [Node.isIgnored]⟩

/-- Nodes of some types may stand at any place, and in any language. -/
theorem mayStand_of_mem {type : Text} (htype : type ∈ ["Ignore".toList, "CssImport".toList,
    "CssCharset".toList, "CssMedia".toList, "CssPage".toList]) : MayStand dialect place type := by
  revert type
  cases dialect <;> cases place <;> decide

/-- A leaf that fits may stand there. -/
theorem Leaf.Fits.stands {leaf : Leaf} (h : leaf.Fits dialect place) :
    (Node.leaf leaf).Stands dialect place := by
  refine ⟨?_, by simp [Node.selectors?]⟩
  cases leaf with
  | ignored => exact mayStand_of_mem (show "Ignore".toList ∈ _ by decide)
  | importRule => exact mayStand_of_mem (show "CssImport".toList ∈ _ by decide)
  | charset => exact mayStand_of_mem (show "CssCharset".toList ∈ _ by decide)
  | script =>
    change MayStand dialect place "Raw".toList
    obtain ⟨rfl, rfl | rfl⟩ := h
    all_goals decide
  | declaration d =>
    obtain ⟨language, _, _, _, _⟩ := d
    obtain ⟨rfl, rfl | rfl⟩ := h
    all_goals
      cases language
      · change MayStand .css _ "CssDeclaration".toList
        decide
      · change MayStand .jss _ "JssDeclaration".toList
        decide
  | selector => cases h
  | spread =>
    change MayStand dialect place "JssSpread".toList
    obtain ⟨rfl, rfl⟩ := h
    decide

/-- A block whose head fits may stand there. -/
theorem Head.Fits.stands {head : Head} (h : head.Fits dialect place) (items : List Node)
    (source : Excerpt) : (Node.block head items source).Stands dialect place := by
  cases head with
  | rule language selectors =>
    obtain ⟨rfl, hplace, hne, hall⟩ := h
    refine ⟨?_, ?_⟩
    · cases language
      · change MayStand .css place "CssBlock".toList
        cases place <;> decide
      · change MayStand .jss place "JssBlock".toList
        cases place <;> decide
    · rintro list ⟨⟩
      exact ⟨hne, hall⟩
  | media =>
    exact ⟨mayStand_of_mem (show "CssMedia".toList ∈ _ by decide), by simp [Node.selectors?]⟩
  | page =>
    exact ⟨mayStand_of_mem (show "CssPage".toList ∈ _ by decide), by simp [Node.selectors?]⟩
  | variableBlock =>
    refine ⟨?_, by simp [Node.selectors?]⟩
    change MayStand dialect place "JssVarDeclaration".toList
    obtain ⟨rfl, rfl | rfl⟩ := h
    all_goals decide

/-- A node may stand at the place where it is read. -/
theorem NodeOf.stands {tokens : List Token} {node : Node}
    (h : NodeOf config dialect place tokens node) : node.Stands dialect place := by
  cases h with
  | trivia =>
    exact ⟨mayStand_of_mem (show "Ignore".toList ∈ _ by decide), by simp [Node.selectors?]⟩
  | leaf hleaf => exact hleaf.fits.stands
  | block hhead => exact hhead.fits.stands _ _

/-! ## Item lists -/

/-- The items of a list may stand at its place. -/
theorem ItemsOf.stands {tokens : List Token} {nodes : List Node}
    (h : ItemsOf config dialect place tokens nodes) :
    ∀ node ∈ nodes, node.Stands dialect place := by
  match h with
  | .nil => simp
  | .cons hnode _ hrest =>
    rw [List.forall_mem_cons]
    exact ⟨hnode.stands, hrest.stands⟩

/-- The tokens of a list divide into chunks, with no two gaps as neighbours. -/
theorem ItemsOf.exists_chunks {tokens : List Token} {nodes : List Node}
    (h : ItemsOf config dialect place tokens nodes) :
    ∃ chunks : List (List Token), tokens = chunks.flatten ∧ List.Forall₂ Node.Takes nodes chunks ∧
      chunks.IsChain fun chunk next => ¬(AllTrivia chunk ∧ AllTrivia next) := by
  match h with
  | .nil => exact ⟨[], rfl, .nil, .nil⟩
  | @ItemsOf.cons _ _ _ used _ _ _ hnode hwhole hrest =>
    obtain ⟨chunks, rfl, htakes, hapart⟩ := hrest.exists_chunks
    refine ⟨used :: chunks, rfl, .cons hnode.takes htakes, List.IsChain.cons hapart ?_⟩
    -- Behind trivia the next chunk begins with the first token that was not dropped.
    rintro next hnext ⟨hused, htrivia⟩
    cases htakes with
    | nil => cases hnext
    | @cons _ first _ more hfirst =>
      obtain rfl : first = next := by simpa using hnext
      obtain ⟨token, others, rfl⟩ := List.exists_cons_of_ne_nil hfirst.ne_nil
      have hsignificant := isSignificant_of_dropTrivia_eq_cons (hwhole hused)
      have hnot := isTrivia_eq_false_of_significant hsignificant
      rw [htrivia token List.mem_cons_self] at hnot
      cases hnot

/-- Chunks of which no two neighbours are gaps leave no trivia beside a gap. -/
theorem isDivision_of_isChain {chunks : List (List Token)} {nodes : List Node}
    (htakes : List.Forall₂ Node.Takes nodes chunks)
    (hapart : chunks.IsChain fun chunk next => ¬(AllTrivia chunk ∧ AllTrivia next)) :
    IsDivision chunks nodes := by
  refine ⟨htakes, hapart, ?_⟩
  rintro front gap back rfl hgap
  have htaken : ∀ chunk ∈ front ++ gap :: back, ∃ node : Node, node.Takes chunk := by
    intro chunk hchunk
    obtain ⟨index, hindex, rfl⟩ := List.mem_iff_getElem.mp hchunk
    have hlength := htakes.length_eq
    exact ⟨nodes[index], htakes.get (hlength ▸ hindex) hindex⟩
  rw [List.isChain_append] at hapart
  obtain ⟨-, hbehind, hbefore⟩ := hapart
  obtain ⟨owner, howner⟩ := htaken gap (by simp)
  refine ⟨howner.ne_nil, hgap, ?_, ?_⟩
  · obtain rfl | ⟨start, last, rfl⟩ := front.eq_nil_or_concat'
    · simp
    · obtain ⟨node, hnode⟩ := htaken last (by simp)
      have hlast : ¬AllTrivia last := fun htrivia =>
        hbefore last (by simp) gap (by simp) ⟨htrivia, hgap⟩
      obtain ⟨-, more, token, rfl, htoken⟩ := hnode.isBounded hlast
      simpa using htoken
  · cases back with
    | nil => simp
    | cons next more =>
      obtain ⟨node, hnode⟩ := htaken next (by simp)
      have hnext : ¬AllTrivia next := fun htrivia =>
        (List.isChain_cons_cons.mp hbehind).1 ⟨hgap, htrivia⟩
      obtain ⟨⟨token, others, rfl, htoken⟩, -⟩ := hnode.isBounded hnext
      simpa using htoken

/-- Items that are read from tokens make up an item list. -/
theorem ItemsOf.isItemList {tokens : List Token} {nodes : List Node}
    (h : ItemsOf config dialect place tokens nodes) : IsItemList dialect place tokens nodes := by
  obtain ⟨chunks, htokens, htakes, hapart⟩ := h.exists_chunks
  exact ⟨h.stands, chunks, htokens, isDivision_of_isChain htakes hapart⟩

/-- Nothing is asked of token lists. -/
def TokenInvariant.any (config : LexerConfig) : TokenInvariant config where
  holds _ := True
  of_isInfix _ _ := trivial
  of_interior _ _ _ _ := trivial

/-- The tree of any tokens is an item list of a sheet, and every block in it at any depth has an
item list of its own kind between its braces. -/
theorem isItemList_of_parseTokens {tokens : List Token} {sheet : Stylesheet}
    (hparse : parseTokens tokens config dialect = .ok sheet) :
    IsItemList dialect .sheet (splitSymbolRuns tokens) sheet ∧
    ∀ depth head items source, (depth, .block head items source) ∈ Node.listingOf 0 sheet →
      ∃ (token : Token) (text : Text) (origin : Position) (inner : List Token),
        token.isBraces ∧ token.value <:+: source.text ∧
        token.interior = some (text, origin) ∧ tokensOf config text origin = .ok inner ∧
        IsItemList dialect head.place (splitSymbolRuns inner) items := by
  have hsheet := itemsOf_of_parseTokens hparse
  refine ⟨hsheet.isItemList, ?_⟩
  intro depth head items source hmem
  have hany : (TokenInvariant.any config).holds (splitSymbolRuns tokens) := trivial
  obtain ⟨_, part, -, hread⟩ := hsheet.exists_of_mem_listing hany hmem
  have hsource := hread.source_eq
  cases hread with
  | @block _ front back inner token _ _ _ text origin hhead hinterior hinner hitems =>
    refine ⟨token, text, origin, inner, hhead.braces, ?_, hinterior, hinner, hitems.isItemList⟩
    refine ⟨spelling front, spelling back, ?_⟩
    calc
      spelling front ++ token.value ++ spelling back = spelling (front ++ token :: back) := by simp
      _ = source.text := hsource.symm

/-- A rule in the extended language whose body has a gap, a declaration, a spread and script. -/
theorem isItemList_of_parseTokens_mixed :
    ∃ head items source,
      parseTokens [⟨.literal, ['a'], .start⟩,
        ⟨.block, "\x7b b:c;...d;if(e);\x7d".toList, ⟨1, 2⟩⟩] {} .jss =
          .ok [.block head items source] ∧
      items.map Node.typeName =
        ["Ignore".toList, "JssDeclaration".toList, "JssSpread".toList, "Raw".toList] ∧
      IsItemList .jss .sheet (splitSymbolRuns [⟨.literal, ['a'], .start⟩,
        ⟨.block, "\x7b b:c;...d;if(e);\x7d".toList, ⟨1, 2⟩⟩]) [.block head items source] ∧
      ∃ inner, IsItemList .jss head.place (splitSymbolRuns inner) items := by
  have hparse : parseTokens [⟨.literal, ['a'], .start⟩,
      ⟨.block, "\x7b b:c;...d;if(e);\x7d".toList, ⟨1, 2⟩⟩] {} .jss =
      .ok [.block (.rule .jss [⟨.jss, [['a']], ['a'], ⟨1, 1⟩⟩])
        [.leaf (.ignored ⟨[' '], ⟨1, 3⟩⟩),
          .leaf (.declaration ⟨.jss, ⟨['b'], ⟨1, 4⟩⟩, ⟨['c'], ⟨1, 6⟩⟩, false, "b:c;".toList⟩),
          .leaf (.spread ⟨['d'], ⟨1, 11⟩⟩ ⟨"...d;".toList, ⟨1, 8⟩⟩),
          .leaf (.script ⟨"if(e);".toList, ⟨1, 13⟩⟩)]
        ⟨"a\x7b b:c;...d;if(e);\x7d".toList, ⟨1, 1⟩⟩] := by
    decide +kernel
  obtain ⟨hsheet, hbodies⟩ := isItemList_of_parseTokens hparse
  obtain ⟨_, _, _, inner, -, -, -, -, hitems⟩ := hbodies 0 _ _ _ List.mem_cons_self
  exact ⟨_, _, _, hparse, by decide, hsheet, inner, hitems⟩

end StyleSyntax
