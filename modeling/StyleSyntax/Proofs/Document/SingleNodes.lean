import StyleSyntax.Proofs.Document.Extension
import StyleSyntax.Proofs.Document.Origins
import StyleSyntax.Proofs.Grammar.CutStatements
import StyleSyntax.Proofs.Lexer.Lexemes
import StyleSyntax.Proofs.Lexer.Truncation

/-!
# Nodes of a sheet on their own

The source of a node is a document of its own. Its text splits into the tokens that the node was
read from, since these stand at the beginning of a text that splits into them and more. Read where
they stand in the document they give the node again, since a statement is cut at its stop; read at
the start of a document they give the node with its positions counted from its own. Script is left
out: it has no stop, and what it takes depends on the words and line breaks behind it.
-/

namespace StyleSyntax

namespace Parser

variable {α : Type} {p : Parser α} {promise : Promise α} {region : Region}

/-- Each of the matches up to the end is a match behind those before it. -/
theorem exists_run_of_mem_all (h : p.Keeps .any promise) {rest next : List Token} {values : List α}
    (hrun : (all p).run region rest = ⟨.ok values, next⟩) {value : α} (hvalue : value ∈ values) :
    ∃ before token behind after, rest = before ++ token :: behind ∧
      p.run region (token :: behind) = ⟨.ok value, after⟩ := by
  induction values generalizing rest with
  | nil => cases hvalue
  | cons first values ih =>
    cases rest with
    | nil => cases (all_run_nil p region).symm.trans hrun
    | cons token behind =>
      obtain ⟨found, middle, others, hfound, -, hothers, hvalues⟩ := all_run_cons_eq_ok.mp hrun
      obtain ⟨rfl, rfl⟩ := List.cons.inj hvalues
      rcases List.mem_cons.mp hvalue with rfl | hvalue
      · exact ⟨[], token, behind, middle, rfl, hfound⟩
      · obtain ⟨before, token', behind', after, hmiddle, hlater⟩ := ih hothers hvalue
        obtain ⟨used, hused, -⟩ := h.exists_used hfound
        refine ⟨used ++ before, token', behind', after, ?_, hlater⟩
        rw [hused, hmiddle, List.append_assoc]

end Parser

open StyleSyntax.Parser StyleSyntax.Grammar

variable {text : Text} {config : LexerConfig} {dialect : Dialect} {sheet : Stylesheet} {node : Node}

/-- A node stands where the first of its tokens does. -/
theorem NodeOf.position_eq {place : Place} {token : Token} {later : List Token}
    (h : NodeOf config dialect place (token :: later) node) : node.position = token.position := by
  have hbegins {source : Excerpt} (hsource : source.IsOf (token :: later)) :
      source.position = token.position := by
    obtain ⟨first, more, htokens, -, rfl⟩ := hsource.begins
    obtain ⟨rfl, -⟩ := List.cons.inj htokens
    rfl
  generalize htokens : token :: later = tokens at h hbegins
  cases h with
  | trivia =>
    obtain ⟨rfl, -⟩ := List.cons.inj htokens
    rfl
  | leaf hleaf => exact hbegins hleaf.source
  | block hhead => exact hbegins hhead.source

/-- Under the default settings no token begins with a mark. -/
theorem Lexes.withoutMark_eq {tokens : List Token} (h : Lexes text tokens) :
    withoutMark text = text := by
  cases text with
  | nil => rfl
  | cons c rest =>
    obtain ⟨token, -, -, -, hbegins⟩ := h.exists_first
    have hnone (kind : TokenKind) : kind.begins '\uFEFF' = false := by
      cases kind <;> decide +kernel
    have hmark : c ≠ '\uFEFF' := by
      rintro rfl
      rw [hnone] at hbegins
      cases hbegins
    rw [withoutMark, if_neg hmark]

/-- Neighbours among the tokens of a text are the tokens of their own text where it stands. -/
theorem Lexes.tokensOf_spelling {before later next : List Token} {token : Token}
    (h : Lexes text (before ++ (token :: later ++ next))) :
    tokensOf {} (spelling (token :: later)) token.position = .ok (token :: later) := by
  obtain ⟨position, htokens⟩ := h
  have hinfix : token :: later <:+: before ++ (token :: later ++ next) :=
    ⟨before, next, List.append_assoc _ _ _⟩
  obtain ⟨origin, hpart⟩ := exists_tokensOf_of_isInfix htokens hinfix
  obtain ⟨_, _, _, _, horigin, _⟩ := exists_of_tokensOf_eq_cons hpart
  rwa [horigin]

/-- A node of a document that is no script has tokens of its own. They are the tokens of its source
where it stands in the document, and are read there as a sheet of this node alone. -/
theorem exists_tokens_of_mem (h : parseDocument text {} dialect = .ok sheet) (hmem : node ∈ sheet)
    (hnode : ∀ source, node ≠ .leaf (.script source)) :
    ∃ tokens, tokensOf {} node.source node.position = .ok tokens ∧
      (stylesheet dialect).run (.ofTokens {} tokens node.position) tokens = ⟨.ok [node], []⟩ := by
  obtain ⟨all, hall, hparse⟩ := parseDocument_eq_ok.mp h
  have hlexes : Lexes (withoutMark text) all := ⟨_, hall⟩
  have hlexed : IsLexed {} (splitSymbolRuns all) := ⟨_, _, all, hall, List.infix_rfl⟩
  obtain ⟨last, hrun⟩ := parseTokens_eq_ok.mp hparse
  rw [hlexes.splitSymbolRuns_eq] at hlexed hrun
  rw [stylesheetItems_eq] at hrun
  have hbodies : (Bodies.within (spelling all).length).Keep .any := Bodies.within_keep _
  have hkeeps := keeps_item (keeps_sheetStatements hbodies dialect)
  obtain ⟨before, token, behind, next, rfl, hitem⟩ := exists_run_of_mem_all hkeeps hrun hmem
  obtain ⟨used, hused, hread, -⟩ := hkeeps.exists_used hitem
  have hlength : (spelling used).length ≤ (spelling (before ++ token :: behind)).length := by
    rw [hused, spelling_append, spelling_append, List.length_append, List.length_append]
    omega
  -- The second run is on the tokens of the node alone, with bodies of no more levels than it needs.
  obtain ⟨later, hlater, hcut⟩ := exists_cut_of_item
    (k := ⟨.ofTokens {} (before ++ token :: behind) .start, .ofTokens {} used node.position, rfl,
      (spelling used).length⟩)
    (Bodies.within_sameWithin hlength (Nat.le_refl _)) hlexed.of_append hitem hnode
  obtain rfl : used = token :: later := List.append_cancel_right (hused.symm.trans hlater)
  refine ⟨token :: later, ?_, ?_⟩
  · rw [hread.source_eq, hread.position_eq]
    rw [hlater] at hlexes
    exact hlexes.tokensOf_spelling
  · unfold stylesheet withBodies
    dsimp only
    rw [stylesheetItems_eq]
    exact all_run_cons_eq_ok.mpr
      ⟨node, [], [], hcut (Nat.le_refl _), Nat.succ_pos _, all_run_nil _ _, rfl⟩

/-- The source of a node that is no script is read where it stands as this node alone. -/
theorem readAt_source (h : parseDocument text {} dialect = .ok sheet) (hmem : node ∈ sheet)
    (hnode : ∀ source, node ≠ .leaf (.script source)) :
    readAt {} dialect node.source node.position = .ok ⟨.ok [node], []⟩ := by
  obtain ⟨tokens, htokens, hrun⟩ := exists_tokens_of_mem h hmem hnode
  have hlexes : Lexes node.source tokens := ⟨_, htokens⟩
  rw [readAt, htokens]
  dsimp only [Except.map]
  rw [hlexes.splitSymbolRuns_eq, hrun]

/-- A recast node stands at the recast position. -/
theorem Recasting.node_position (r : Recasting) (node : Node) :
    (r.node node).position = r.position node.position := by
  cases node with
  | leaf l => cases l <;> rfl
  | block head items source => rfl

/-- The source of a node of a document, at the top level and no script, is a document of the same
language. It is a stylesheet of exactly this node, with every position in it, at every depth,
counted from the position of the node, so that the node stands at the start. -/
theorem parseDocument_source (h : parseDocument text {} dialect = .ok sheet) (hmem : node ∈ sheet)
    (hnode : ∀ source, node ≠ .leaf (.script source)) :
    ∃ single, parseDocument node.source {} dialect = .ok [single] ∧
      single = (Recasting.moved (.toStart node.position)).node node ∧ single.position = .start := by
  obtain ⟨tokens, htokens, -⟩ := exists_tokens_of_mem h hmem hnode
  have hlexes : Lexes node.source tokens := ⟨_, htokens⟩
  have hcovers : (Movement.toStart node.position).covers node.position :=
    .inr ⟨rfl, Nat.le_refl _⟩
  have hstart : (Movement.toStart node.position).apply node.position = .start := by
    simp [Movement.toStart, Position.rebased, Position.start]
  have hread := readAt_apply hcovers {} dialect node.source
  rw [hstart, readAt_source h hmem hnode] at hread
  refine ⟨_, ?_, rfl, (Recasting.node_position _ node).trans hstart⟩
  rw [parseDocument_eq_readAt, hlexes.withoutMark_eq, hread]
  rfl

/-- A variable between other statements. Its rule is on its first line, where columns are counted
anew, and the declaration is on the second line, where they are kept. -/
theorem parseDocument_source_variable :
    ∃ sheet node,
      parseDocument "; let a=\x7bb\x7b\n c:d\x7d\x7d ; e".toList {} .jss = .ok sheet ∧
      node ∈ sheet ∧ (∀ source, node ≠ .leaf (.script source)) ∧
      ∃ single, parseDocument "let a=\x7bb\x7b\n c:d\x7d\x7d ;".toList {} .jss = .ok [single] ∧
        single = (Recasting.moved (.toStart ⟨1, 3⟩)).node node ∧ single.position = .start := by
  have hparse : parseDocument "; let a=\x7bb\x7b\n c:d\x7d\x7d ; e".toList {} .jss =
      .ok [.leaf (.ignored ⟨[';'], ⟨1, 1⟩⟩), .leaf (.ignored ⟨[' '], ⟨1, 2⟩⟩),
        .block (.variableBlock .letKeyword ['a'] false)
          [.block (.rule .jss [⟨.jss, [['b']], ['b'], ⟨1, 10⟩⟩])
            [.leaf (.ignored ⟨['\n', ' '], ⟨1, 12⟩⟩),
              .leaf (.declaration ⟨.jss, ⟨['c'], ⟨2, 2⟩⟩, ⟨['d'], ⟨2, 4⟩⟩, false, "c:d".toList⟩)]
            ⟨"b\x7b\n c:d\x7d".toList, ⟨1, 10⟩⟩]
          ⟨"let a=\x7bb\x7b\n c:d\x7d\x7d ;".toList, ⟨1, 3⟩⟩,
        .leaf (.ignored ⟨[' '], ⟨2, 9⟩⟩), .leaf (.script ⟨['e'], ⟨2, 10⟩⟩)] := by
    decide +kernel
  have hthird {first second third : Node} {others : List Node} :
      third ∈ first :: second :: third :: others := by simp
  exact ⟨_, _, hparse, hthird, nofun, parseDocument_source hparse hthird nofun⟩

end StyleSyntax
