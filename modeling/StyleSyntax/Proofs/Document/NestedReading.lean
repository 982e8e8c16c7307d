import StyleSyntax.Proofs.Document.ErrorsInBrackets
import StyleSyntax.Proofs.Grammar.BodyEquations

/-!
# Nested bodies are read in the end

Reading the body between braces means splitting its text and reading the tokens by the same grammar
again. The text lacks the two brackets, and whatever is entered on the way is one of its tokens, so
every level is two characters shorter than the one around it. Therefore reading needs no limit on
the depth of bodies, every list of items ends, and a tree is never nested deeper than half the
number of characters.
-/

namespace StyleSyntax

open StyleSyntax.Parser StyleSyntax.Grammar

mutual

/-- The depth of the item lists in a node. -/
def Node.nesting : Node → Nat
  | .leaf _ => 0
  | .block _ items _ => nestingOf items + 1

/-- The depth of the item lists below a list of nodes. -/
def Node.nestingOf : List Node → Nat
  | [] => 0
  | node :: nodes => max node.nesting (nestingOf nodes)

end

mutual

/-- Each level of item lists takes two characters of the text that the items are read from. -/
theorem ItemsOf.two_mul_nestingOf_le {config : LexerConfig} {dialect : Dialect} {place : Place}
    {tokens : List Token} {nodes : List Node} (h : ItemsOf config dialect place tokens nodes) :
    2 * Node.nestingOf nodes ≤ (spelling tokens).length := by
  match h with
  | .nil => exact Nat.zero_le _
  | .cons hnode _ hnodes =>
    have hfirst := hnode.two_mul_nesting_le
    have hothers := hnodes.two_mul_nestingOf_le
    rw [Node.nestingOf, spelling_append, List.length_append]
    omega

/-- The list in a node takes the two brackets of its token. -/
theorem NodeOf.two_mul_nesting_le {config : LexerConfig} {dialect : Dialect} {place : Place}
    {tokens : List Token} {node : Node} (h : NodeOf config dialect place tokens node) :
    2 * node.nesting ≤ (spelling tokens).length := by
  match h with
  | .trivia _ => exact Nat.zero_le _
  | .leaf _ => exact Nat.zero_le _
  | .block _ hinterior htokens hitems =>
    have hbody := hitems.two_mul_nestingOf_le
    have hbrackets := length_spelling_of_interior hinterior htokens
    rw [Node.nesting, spelling_append, spelling_cons, List.length_append, List.length_append]
    omega

end

/-- The mark before a text is one of its characters. -/
theorem length_withoutMark_le (text : Text) : (withoutMark text).length ≤ text.length := by
  unfold withoutMark
  split
  · exact Nat.le_refl _
  · split_ifs <;> simp

namespace Parser

variable {α : Type}

/-- A block fails where no bracketed token comes next, and otherwise its outcome is that of the
interior of a token that is left. -/
theorem block_run_cases (kinds : List TokenKind) (inner : Parser α) (region : Region)
    (rest : List Token) :
    (∃ error, (bracketed kinds).run region rest = ⟨.failed error, rest⟩ ∧
      (block kinds inner).run region rest = ⟨.failed error, rest⟩) ∨
    ∃ token ∈ rest, ∃ next,
      (block kinds inner).run region rest = ⟨interior inner region.config token, next⟩ := by
  rcases tokenWhere_run_cases (kindLabels kinds) (fun token => kinds.contains token.kind) region
    rest with ⟨token, next, hdropped, hrun⟩ | ⟨error, hrun⟩
  · have hmem : token ∈ rest := (dropTrivia_suffix rest).subset (hdropped ▸ List.mem_cons_self)
    refine .inr ⟨token, hmem, next, ?_⟩
    rw [block, run_bind, bracketed, hrun]
  · refine .inl ⟨error, hrun, ?_⟩
    rw [block, run_bind, bracketed, hrun]

/-- An item list that ends on all tokens, and each of whose items takes at least one token. -/
structure EndsByItems (list : Parser (List Node)) : Prop where
  ends (region : Region) (rest : List Token) : (list.run region rest).outcome ≠ .endless
  takes : ∃ statement, list = items statement ∧
    ∀ {region : Region} {rest next : List Token} {node : Node},
      (item statement).run region rest = ⟨.ok node, next⟩ → next.length < rest.length

end Parser

/-- With bodies that satisfy the equations of the grammar, the items at every place end. -/
theorem Grammar.Bodies.Solves.endsByItems {bodies : Bodies} (h : bodies.Solves)
    (dialect : Dialect) (place : Place) : (itemsAt bodies dialect place).EndsByItems := by
  refine ⟨fun region rest => ?_, _, rfl, fun {region rest next node} hrun => ?_⟩
  · rw [← h.itemsAt_run_eq]
    exact (keeps_itemsAt (within_keep _) dialect place).outcome_ne_endless region rest
  · rw [← h.item_run_eq] at hrun
    exact length_lt_of_item (keeps_statementsAt (within_keep _) dialect place) hrun

/-- Reading nested bodies is well-founded. What is entered while the interior of a token is read is
a token at least two characters shorter; so the interior is read in the same way by bodies that
match inside of such tokens, the equations of the grammar have exactly one solution up to what it
reads, and the sheet is read by it without any limit. With it every item list ends, and the item
lists of a tree are nested at most half as deep as the text has characters. -/
theorem nested_reading_ends :
    (∀ {α : Type} (config : LexerConfig) (outer : Token) (text : Text) (origin : Position)
      (tokens : List Token), outer.interior = some (text, origin) →
      tokensOf config text origin = .ok tokens →
      ∀ (kinds : List TokenKind) (inner : Parser α) (region : Region) (rest : List Token),
        rest <:+ splitSymbolRuns tokens →
        (∃ error, (bracketed kinds).run region rest = ⟨.failed error, rest⟩ ∧
          (block kinds inner).run region rest = ⟨.failed error, rest⟩) ∨
        ∃ token ∈ rest, token.value.length + 2 ≤ outer.value.length ∧ ∃ next,
          (block kinds inner).run region rest = ⟨interior inner region.config token, next⟩) ∧
    (∀ (config : LexerConfig) (outer : Token) (bodies bodies' : Bodies),
      bodies.MatchInside config outer.value.length bodies' → ∀ dialect,
        interior (blockItems bodies dialect) config outer =
            interior (blockItems bodies' dialect) config outer ∧
          interior (mediaItems bodies dialect) config outer =
            interior (mediaItems bodies' dialect) config outer) ∧
    Bodies.unlimited.Solves ∧
    (∀ bodies : Bodies, bodies.Solves →
      (∀ config length, bodies.MatchInside config length .unlimited) ∧
      ∀ dialect,
        (∀ region rest, (stylesheet dialect).run region rest =
          (stylesheetItems bodies dialect).run region rest) ∧
        (stylesheetItems bodies dialect).EndsByItems ∧ (blockItems bodies dialect).EndsByItems ∧
        (mediaItems bodies dialect).EndsByItems ∧ (declarationItems dialect).EndsByItems) ∧
    ∀ (text : Text) (config : LexerConfig) (dialect : Dialect) (sheet : Stylesheet),
      parseDocument text config dialect = .ok sheet →
      2 * Node.nestingOf sheet ≤ text.length := by
  refine ⟨?_, ?_, Bodies.unlimited_solves, fun bodies hsolves => ?_, ?_⟩
  · intro α config outer text origin tokens hinterior htokens kinds inner region rest hrest
    refine (block_run_cases kinds inner region rest).imp_right ?_
    rintro ⟨token, htoken, hrun⟩
    have hlength := length_spelling_of_interior hinterior htokens
    have hle := length_value_le (hrest.subset htoken)
    exact ⟨token, htoken, by omega, hrun⟩
  · exact fun config outer bodies bodies' hmatch dialect =>
      ⟨interior_blockItems_eq hmatch dialect, interior_mediaItems_eq hmatch dialect⟩
  · refine ⟨hsolves.matchInside Bodies.unlimited_solves, fun dialect =>
      ⟨hsolves.stylesheet_run_eq dialect, ?_, ?_, hsolves.endsByItems dialect .media,
        hsolves.endsByItems dialect .page⟩⟩
    · rw [stylesheetItems_eq]
      exact hsolves.endsByItems dialect .sheet
    · rw [blockItems_eq]
      exact hsolves.endsByItems dialect .block
  · intro text config dialect sheet hparse
    obtain ⟨tokens, htokens, hitems⟩ := exists_itemsOf_of_parseDocument hparse
    have hdepth := hitems.two_mul_nestingOf_le
    rw [spelling_splitSymbolRuns, (spelling_and_contiguous_of_tokensOf htokens).1] at hdepth
    exact hdepth.trans (length_withoutMark_le text)

/-- A rule in a rule. Inside the outer braces the inner ones are entered, three levels are no limit
there, and the two levels of the tree fit twice into the six characters. -/
theorem nested_reading_ends_two_levels :
    let text : Text := "a\x7bb\x7b\x7d\x7d".toList
    let outer : Token := ⟨.lazyBlock, "\x7bb\x7b\x7d\x7d".toList, ⟨1, 2⟩⟩
    let inner : Token := ⟨.lazyBlock, "\x7b\x7d".toList, ⟨1, 4⟩⟩
    let tokens : List Token := [⟨.literal, ['b'], ⟨1, 3⟩⟩, inner]
    let rule : Node := .block (.rule .jss [⟨.jss, [['b']], ⟨['b'], ⟨1, 3⟩⟩⟩]) []
      ⟨"b\x7b\x7d".toList, ⟨1, 3⟩⟩
    let sheet : Stylesheet :=
      [.block (.rule .jss [⟨.jss, [['a']], ⟨['a'], ⟨1, 1⟩⟩⟩]) [rule] ⟨text, ⟨1, 1⟩⟩]
    outer.interior = some ("b\x7b\x7d".toList, ⟨1, 3⟩) ∧
      tokensOf {} "b\x7b\x7d".toList ⟨1, 3⟩ = .ok tokens ∧
      (∃ token ∈ [inner], token.value.length + 2 ≤ outer.value.length ∧ ∃ next,
        (block braces (blockItems .unlimited .jss)).run (.ofTokens {} tokens ⟨1, 3⟩) [inner] =
          ⟨interior (blockItems .unlimited .jss) {} token, next⟩) ∧
      interior (blockItems (.within 3) .jss) {} outer =
        interior (blockItems .unlimited .jss) {} outer ∧
      (stylesheetItems .unlimited .jss).EndsByItems ∧
      parseDocument text {} .jss = .ok sheet ∧ Node.nestingOf sheet = 2 ∧
      2 * Node.nestingOf sheet ≤ text.length := by
  intro text outer inner tokens rule sheet
  have hinterior : outer.interior = some ("b\x7b\x7d".toList, ⟨1, 3⟩) := by decide +kernel
  have htokens : tokensOf {} "b\x7b\x7d".toList ⟨1, 3⟩ = .ok tokens := by decide +kernel
  have hparse : parseDocument text {} .jss = .ok sheet := by decide +kernel
  have hmatch : (Bodies.within 3).MatchInside {} outer.value.length .unlimited :=
    Bodies.within_matchInside (by decide)
  obtain ⟨hentered, hmatched, hsolves, hunique, hdepth⟩ := nested_reading_ends
  refine ⟨hinterior, htokens, ?_, (hmatched {} outer _ _ hmatch .jss).1,
    ((hunique _ hsolves).2 .jss).2.1, hparse, rfl, hdepth text {} .jss sheet hparse⟩
  rcases hentered {} outer _ _ tokens hinterior htokens braces (blockItems .unlimited .jss)
    (.ofTokens {} tokens ⟨1, 3⟩) [inner] (List.suffix_cons _ _) with ⟨error, hfailed, -⟩ | hrun
  · have hfound : (bracketed braces).run (.ofTokens {} tokens ⟨1, 3⟩) [inner] =
        ⟨.ok inner, []⟩ := rfl
    rw [hfound] at hfailed
    cases hfailed
  · exact hrun

end StyleSyntax
