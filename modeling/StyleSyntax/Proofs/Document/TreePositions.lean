import StyleSyntax.Proofs.Grammar.Stylesheet
import StyleSyntax.Proofs.Lexer.Lossless

/-!
# Positions in trees

Every text that a tree records stands in the document at the position recorded with it. Tokens are
placed when the document is split; the interior of a placed token is placed behind its first
bracket, so the tokens between the brackets are placed as well, and excerpts of placed tokens are
placed.
-/

namespace StyleSyntax

/-- Tokens stay placed in a source when brackets are entered. -/
def TokenInvariant.placed (config : LexerConfig) (source : Text) : TokenInvariant config where
  holds := PlacedIn source
  of_isInfix := PlacedIn.of_isInfix
  of_interior hplaced htoken hinterior hinner :=
    .of_tokensOf (hplaced.interior htoken hinterior) hinner

/-- A node that is read from placed tokens records placed excerpts alone. -/
theorem NodeOf.isPlacedIn {config : LexerConfig} {dialect : Dialect} {place : Place}
    {source : Text} {tokens : List Token} {node : Node}
    (h : NodeOf config dialect place tokens node) (hplaced : PlacedIn source tokens) :
    ∀ excerpt ∈ node.excerpts, excerpt.IsPlacedIn source := by
  cases h with
  | trivia =>
    intro excerpt hexcerpt
    obtain rfl := List.mem_singleton.mp hexcerpt
    exact hplaced.excerpt
  | leaf hleaf =>
    rw [Node.excerpts, List.forall_mem_cons]
    refine ⟨hleaf.source.isWithin.isPlacedIn hplaced, ?_⟩
    intro excerpt hexcerpt
    exact (hleaf.parts excerpt hexcerpt).isPlacedIn hplaced
  | block hhead =>
    rw [Node.excerpts, List.forall_mem_cons]
    refine ⟨hhead.source.isWithin.isPlacedIn hplaced, ?_⟩
    intro excerpt hexcerpt
    exact (hhead.parts excerpt hexcerpt).isPlacedIn
      (hplaced.of_isInfix (List.prefix_append _ _).isInfix)

/-- Every text that is recorded in the tree of a document, at any depth, stands in the document
without its mark at the position recorded with it. -/
theorem isPlacedIn_of_mem_listing {text : Text} {config : LexerConfig} {dialect : Dialect}
    {sheet : Stylesheet} (hparse : parseDocument text config dialect = .ok sheet)
    {entry : Nat × Node} (hentry : entry ∈ Node.listingOf 0 sheet) {excerpt : Excerpt}
    (hexcerpt : excerpt ∈ entry.2.excerpts) : excerpt.IsPlacedIn (withoutMark text) := by
  obtain ⟨tokens, htokens, hsheet⟩ := exists_itemsOf_of_parseDocument hparse
  have hdocument : Excerpt.IsPlacedIn (withoutMark text) ⟨withoutMark text, .start⟩ :=
    ⟨[], [], by simp, rfl⟩
  have hplaced : (TokenInvariant.placed config (withoutMark text)).holds (splitSymbolRuns tokens) :=
    .of_tokensOf hdocument htokens
  obtain ⟨_, _, hpart, hread⟩ := hsheet.exists_of_mem_listing hplaced hentry
  exact hread.isPlacedIn hpart excerpt hexcerpt

/-- The value of a declaration that begins on the second line. -/
theorem isPlacedIn_of_mem_listing_value :
    ∃ sheet, parseDocument "a\x7b\nb: c\x7d".toList {} .css = .ok sheet ∧
      (1, .leaf (.declaration ⟨.css, ⟨['b'], ⟨2, 1⟩⟩, ⟨['c'], ⟨2, 4⟩⟩, false, "b: c".toList⟩)) ∈
        Node.listingOf 0 sheet ∧
      Excerpt.IsPlacedIn "a\x7b\nb: c\x7d".toList ⟨['c'], ⟨2, 4⟩⟩ := by
  have hparse : parseDocument "a\x7b\nb: c\x7d".toList {} .css =
      .ok [.block (.rule .css [⟨.css, [['a']], ['a'], ⟨1, 1⟩⟩])
        [.leaf (.ignored ⟨['\n'], ⟨1, 3⟩⟩),
          .leaf (.declaration ⟨.css, ⟨['b'], ⟨2, 1⟩⟩, ⟨['c'], ⟨2, 4⟩⟩, false, "b: c".toList⟩)]
        ⟨"a\x7b\nb: c\x7d".toList, ⟨1, 1⟩⟩] := by
    decide +kernel
  refine ⟨_, hparse, by decide +kernel, ?_⟩
  exact isPlacedIn_of_mem_listing hparse (show (1, Node.leaf (.declaration ⟨.css, ⟨['b'], ⟨2, 1⟩⟩,
    ⟨['c'], ⟨2, 4⟩⟩, false, "b: c".toList⟩)) ∈ _ by decide +kernel) (by decide)

end StyleSyntax
