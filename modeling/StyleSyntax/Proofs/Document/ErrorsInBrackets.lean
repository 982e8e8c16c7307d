import StyleSyntax.Proofs.Grammar.Stylesheet
import StyleSyntax.Proofs.Parser.Refusal

/-!
# Errors of sheets with script

In the extended language whatever else a sheet holds is script, so a sheet goes wrong only inside
brackets. Script is found wherever a significant token is left and takes at least that token, and
trivia is an item of its own. So every item of a sheet consumes something, and the list of items
never stops at one that does not.
-/

namespace StyleSyntax

/-- A node is read from at least one token. -/
theorem NodeOf.ne_nil {config : LexerConfig} {dialect : Dialect} {place : Place}
    {tokens : List Token} {node : Node} (h : NodeOf config dialect place tokens node) :
    tokens ≠ [] := by
  cases h with
  | trivia => exact List.cons_ne_nil _ _
  | leaf hleaf => exact hleaf.source.ends.ne_nil
  | block hhead => exact hhead.source.ends.ne_nil

namespace Grammar

open StyleSyntax.Parser

variable {region : Region} {rest : List Token}

/-- Script is found wherever a significant token is left. -/
theorem exists_run_script (region : Region) {token : Token} {following : List Token}
    (h : dropTrivia rest = token :: following) :
    ∃ source, script.run region rest = ⟨.ok (.leaf (.script source)),
      (token :: following).drop (scriptLength (token :: following))⟩ := by
  unfold script
  simp [h]

/-- Where an item does not begin with trivia it is a statement. -/
theorem item_run_of_significant {statement : Parser Node} {token : Token} {following : List Token}
    (h : token.isSignificant) :
    (item statement).run region (token :: following) =
      statement.run region (token :: following) := by
  unfold item
  simp [isTrivia_eq_false_of_significant h]

/-- Where an item begins with trivia it is the whole run of it. -/
theorem item_run_of_isTrivia {statement : Parser Node} {token : Token} {following : List Token}
    (h : token.isTrivia) :
    (item statement).run region (token :: following) = ignored.run region (token :: following) := by
  unfold item
  simp [h]

/-- An item takes at least one token. -/
theorem length_lt_of_item {dialect : Dialect} {place : Place} {statement : Parser Node}
    {node : Node} {next : List Token}
    (hstatement : statement.Keeps .any (Promise.statement dialect place))
    (h : (item statement).run region rest = ⟨.ok node, next⟩) : next.length < rest.length := by
  obtain ⟨used, rfl, hnode, _⟩ := (keeps_item hstatement).exists_used h
  have hpos := List.length_pos_of_ne_nil hnode.ne_nil
  rw [List.length_append]
  omega

/-- Trivia is an item wherever it stands, with all the trivia behind it. -/
theorem ignored_run_of_isTrivia (region : Region) {token : Token} (following : List Token)
    (h : token.isTrivia) :
    ignored.run region (token :: following) =
      ⟨.ok (.leaf (.ignored ⟨spelling ((token :: following).takeWhile Token.isTrivia),
        token.position⟩)), dropTrivia (token :: following)⟩ := by
  unfold ignored trivia
  simp [h, Reply.map, Outcome.map]

/-- An item of a sheet with script fails with an error from inside brackets alone. -/
theorem isBlock_of_item_failed {bodies : Bodies} {next : List Token} {error : ParseError}
    (hrest : rest ≠ [])
    (h : (item (firstOf (sheetStatements bodies .jss))).run region rest = ⟨.failed error, next⟩) :
    error.isBlock := by
  obtain ⟨token, following, rfl⟩ := List.exists_cons_of_ne_nil hrest
  by_cases htrivia : token.isTrivia
  · rw [item_run_of_isTrivia htrivia, ignored_run_of_isTrivia region following htrivia] at h
    cases h
  · have hsignificant : token.isSignificant := by simpa [Token.isSignificant] using htrivia
    obtain ⟨source, hrun⟩ := exists_run_script region
      (dropTrivia_cons hsignificant following)
    rw [item_run_of_significant hsignificant] at h
    exact isBlock_of_firstOf_failed (p := script) (by simp [sheetStatements]) rfl hrun h

/-- A statement of a sheet that is none of the others is script. -/
theorem exists_run_sheetStatements_script {bodies : Bodies} {token : Token}
    {following : List Token} (htoken : token.isSignificant)
    (h : ∀ p ∈ [probe Token.isSemicolon straySemicolon, probe Token.isAt (atRule bodies .jss),
      probe isVariableStart (variableBlock bodies), ruleBlock bodies .jss],
      p.Declines region (token :: following)) :
    ∃ source, (firstOf (sheetStatements bodies .jss)).run region (token :: following) =
      ⟨.ok (.leaf (.script source)),
        (token :: following).drop (scriptLength (token :: following))⟩ := by
  obtain ⟨source, hrun⟩ := exists_run_script region (dropTrivia_cons htoken following)
  simp only [List.forall_mem_cons] at h
  obtain ⟨hsemicolon, hat, hvariable, hrule, -⟩ := h
  refine ⟨source, ?_⟩
  by_cases hkeyword : (firstSignificant (token :: following)).any isScriptKeyword
  · have hfront : ∀ p ∈ [probe Token.isSemicolon straySemicolon,
        probe Token.isAt (atRule bodies .jss), probe isVariableStart (variableBlock bodies)],
        p.Declines region (token :: following) := by
      simp only [List.forall_mem_cons]
      exact ⟨hsemicolon, hat, hvariable, by simp⟩
    exact run_firstOf_of_declines (p := probe isScriptKeyword script) hfront hkeyword hrun
  · have hscript : (probe isScriptKeyword script).Declines region (token :: following) :=
      fun haccepts => absurd haccepts hkeyword
    have hfront : ∀ p ∈ [probe Token.isSemicolon straySemicolon,
        probe Token.isAt (atRule bodies .jss), probe isVariableStart (variableBlock bodies),
        probe isScriptKeyword script, ruleBlock bodies .jss],
        p.Declines region (token :: following) := by
      simp only [List.forall_mem_cons]
      exact ⟨hsemicolon, hat, hvariable, hscript, hrule, by simp⟩
    exact run_firstOf_of_declines (p := script) hfront rfl hrun

end Grammar

open Grammar StyleSyntax.Parser in
/-- A sheet with script fails with an error from inside brackets alone. Wherever tokens are left an
item that succeeds consumes some of them, and what is no semicolon, at-rule, variable or rule there
is kept as script. -/
theorem isBlock_of_parse_jss_failed :
    (∀ tokens config error, parseTokens tokens config .jss = .failed error → error.isBlock) ∧
    ∀ depth region token following,
      (∀ node next, (item (firstOf (sheetStatements (.within depth) .jss))).run region
        (token :: following) = ⟨.ok node, next⟩ → next.length < (token :: following).length) ∧
      (token.isSignificant →
        (∀ p ∈ [probe Token.isSemicolon straySemicolon,
          probe Token.isAt (atRule (.within depth) .jss),
          probe isVariableStart (variableBlock (.within depth)), ruleBlock (.within depth) .jss],
          p.Declines region (token :: following)) →
        ∃ source next, (item (firstOf (sheetStatements (.within depth) .jss))).run region
          (token :: following) = ⟨.ok (.leaf (.script source)), next⟩) := by
  have hmoves (depth : Nat) (region : Region) (rest : List Token) (node : Node)
      (next : List Token) (h : (item (firstOf (sheetStatements (.within depth) .jss))).run region
        rest = ⟨.ok node, next⟩) : next.length < rest.length :=
    length_lt_of_item (keeps_sheetStatements (Bodies.within_keep depth) .jss) h
  constructor
  · intro tokens config error h
    unfold parseTokens Grammar.stylesheet withBodies at h
    dsimp only at h
    rw [stylesheetItems_eq] at h
    generalize hreply : (items _).run _ _ = reply at h
    obtain ⟨outcome, next⟩ := reply
    obtain rfl : outcome = .failed error := h
    exact isBlock_of_runAll_failed (fun rest node next _ => hmoves _ _ rest node next)
      (fun rest error next hrest => isBlock_of_item_failed hrest) hreply
  · intro depth region token following
    refine ⟨hmoves depth region (token :: following), fun htoken hdeclines => ?_⟩
    rw [item_run_of_significant htoken]
    obtain ⟨source, hrun⟩ := exists_run_sheetStatements_script htoken hdeclines
    exact ⟨source, _, hrun⟩

open Grammar StyleSyntax.Parser in
/-- A body that is no list of items, and a comma, which only script begins with. -/
theorem isBlock_of_parse_jss_failed_comma :
    (∃ error, parseTokens [⟨.literal, ['a'], .start⟩, ⟨.block, "\x7bb\x7d".toList, ⟨1, 2⟩⟩] {}
      .jss = .failed error ∧ error.isBlock) ∧
    ∃ source next, (item (firstOf (sheetStatements (.within 0) .jss))).run ⟨{}, .start⟩
      [⟨.comma, [','], .start⟩] = ⟨.ok (.leaf (.script source)), next⟩ ∧ next.length < 1 := by
  have hfailed : parseTokens [⟨.literal, ['a'], .start⟩, ⟨.block, "\x7bb\x7d".toList, ⟨1, 2⟩⟩] {}
      .jss = .failed ((((ParseError.leaf (.unexpectedEnd "':'".toList) ⟨1, 4⟩).within
        (.step 1)).within .block).within (.step 1)) := by
    decide +kernel
  have hrule : ((ruleBlock (.within 0) .jss).run ⟨{}, .start⟩ [⟨.comma, [','], .start⟩]).outcome =
      .failed (.leaf (.emptyList "list element".toList) .start) := by
    decide +kernel
  have hrefuses : (ruleBlock (.within 0) .jss).Refuses ⟨{}, .start⟩ [⟨.comma, [','], .start⟩] :=
    ⟨_, _, congrArg (Reply.mk · _) hrule, rfl⟩
  obtain ⟨hmoves, hscript⟩ :=
    isBlock_of_parse_jss_failed.2 0 ⟨{}, .start⟩ ⟨.comma, [','], .start⟩ []
  obtain ⟨source, next, hrun⟩ := hscript rfl (by
    simp only [List.forall_mem_cons]
    refine ⟨?_, ?_, ?_, fun _ => hrefuses, by simp⟩
    all_goals exact fun haccepts => absurd haccepts (by decide))
  exact ⟨⟨_, hfailed, isBlock_of_parse_jss_failed.1 _ _ _ hfailed⟩, source, next, hrun,
    hmoves _ next hrun⟩

end StyleSyntax
