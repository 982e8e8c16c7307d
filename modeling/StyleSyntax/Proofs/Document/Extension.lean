import StyleSyntax.Proofs.Grammar.KeywordRules

/-!
# Documents of both languages

The extended language reads a plain document as the same tree, with its rules, selectors and
declarations relabelled, unless a word that begins script stands at the beginning of a top-level
rule or of a declaration in a rule. With such words it may read another tree, and where such a
declaration goes on behind a line feed it may read none.
-/

namespace StyleSyntax

variable {text : Text} {config : LexerConfig} {dialect : Dialect} {sheet : Stylesheet}

/-- A document is a stylesheet when it has tokens and these are one. -/
theorem parseDocument_eq_ok :
    parseDocument text config dialect = .ok sheet ↔
      ∃ tokens, tokensOf config (withoutMark text) .start = .ok tokens ∧
        parseTokens tokens config dialect = .ok sheet := by
  unfold parseDocument documentTokens
  cases htokens : tokensOf config (withoutMark text) .start with
  | error error => simp
  | ok tokens =>
    dsimp only
    cases hparse : parseTokens tokens config dialect <;> simp [Outcome.mapError, hparse]

/-- Tokens are a stylesheet when its items are read from the split tokens. -/
theorem parseTokens_eq_ok {tokens : List Token} :
    parseTokens tokens config dialect = .ok sheet ↔
      ∃ next, (Grammar.stylesheetItems
        (.within (spelling (splitSymbolRuns tokens)).length) dialect).run
          (.ofTokens config (splitSymbolRuns tokens) .start) (splitSymbolRuns tokens) =
        ⟨.ok sheet, next⟩ := by
  unfold parseTokens Grammar.stylesheet Grammar.withBodies
  dsimp only
  generalize (Grammar.stylesheetItems _ dialect).run _ _ = reply
  obtain ⟨outcome, left⟩ := reply
  simp

/-- A plain document without a rule that begins with a keyword is read in the extended language as
the extension of its tree, when the declarations that begin with a keyword are on one line each. -/
theorem parseDocument_jss_eq_extended (h : parseDocument text config .css = .ok sheet)
    (hsheet : ∀ node ∈ sheet,
      node.Everywhere Node.KeywordsOnOneLine ∧ ¬ node.IsKeywordRule) :
    parseDocument text config .jss = .ok (sheet.map Node.extended) := by
  obtain ⟨tokens, htokens, hsheet'⟩ := parseDocument_eq_ok.mp h
  obtain ⟨next, hrun⟩ := parseTokens_eq_ok.mp hsheet'
  have hlexed : IsLexed config (splitSymbolRuns tokens) :=
    ⟨_, _, tokens, htokens, List.infix_rfl⟩
  exact parseDocument_eq_ok.mpr ⟨tokens, htokens, parseTokens_eq_ok.mpr
    ⟨next, (Grammar.carries_stylesheetItems _).run hlexed hrun hsheet⟩⟩

/-- The extended language reads a plain document as the same tree, relabelled, when neither a
top-level rule nor a declaration directly in a rule, at any depth, begins with a keyword. -/
theorem parseDocument_jss_eq_relabelled (h : parseDocument text config .css = .ok sheet)
    (hrules : ∀ node ∈ sheet, ¬ node.IsKeywordRule)
    (hdeclarations : ∀ entry ∈ Node.listingOf 0 sheet, ∀ d ∈ entry.2.ruleDeclarations,
      startsWithKeyword d.source = false) :
    parseDocument text config .jss = .ok (sheet.map Node.relabelled) := by
  have hnone : ∀ node ∈ sheet, node.Everywhere fun node =>
      ∀ d ∈ node.ruleDeclarations, startsWithKeyword d.source = false :=
    Node.everywhere_of_listingOf hdeclarations
  have hsheet : ∀ node ∈ sheet,
      node.Everywhere Node.KeywordsOnOneLine ∧ ¬ node.IsKeywordRule := by
    intro node hnode
    refine ⟨(hnone node hnode).mono fun inner hinner d hd hkeyword => ?_, hrules node hnode⟩
    rw [hinner d hd] at hkeyword
    cases hkeyword
  rw [parseDocument_jss_eq_extended h hsheet, ← Node.extendedAll_eq_map,
    Node.extendedAll_eq_relabelled hnone]

/-- A rule in a media rule, and in a page rule a declaration that begins with a keyword. -/
theorem parseDocument_jss_eq_relabelled_media :
    ∃ sheet, parseDocument "@media a\x7bb>c\x7bd:e\x7d\x7d@page\x7bdo:f\x7d".toList {} .css =
        .ok sheet ∧
      (∀ node ∈ sheet, ¬ node.IsKeywordRule) ∧
      (∀ entry ∈ Node.listingOf 0 sheet, ∀ d ∈ entry.2.ruleDeclarations,
        startsWithKeyword d.source = false) ∧
      parseDocument "@media a\x7bb>c\x7bd:e\x7d\x7d@page\x7bdo:f\x7d".toList {} .jss =
        .ok (sheet.map Node.relabelled) := by
  have hparse : parseDocument "@media a\x7bb>c\x7bd:e\x7d\x7d@page\x7bdo:f\x7d".toList {} .css =
      .ok [.block (.media ⟨['a'], ⟨1, 8⟩⟩)
          [.block (.rule .css [⟨.css, [['b'], ['>'], ['c']], "b>c".toList, ⟨1, 10⟩⟩])
            [.leaf (.declaration ⟨.css, ⟨['d'], ⟨1, 14⟩⟩, ⟨['e'], ⟨1, 16⟩⟩, false, "d:e".toList⟩)]
            ⟨"b>c\x7bd:e\x7d".toList, ⟨1, 10⟩⟩]
          ⟨"@media a\x7bb>c\x7bd:e\x7d\x7d".toList, ⟨1, 1⟩⟩,
        .block (.page none)
          [.leaf (.declaration ⟨.css, ⟨"do".toList, ⟨1, 25⟩⟩, ⟨['f'], ⟨1, 28⟩⟩, false,
            "do:f".toList⟩)]
          ⟨"@page\x7bdo:f\x7d".toList, ⟨1, 19⟩⟩] := by
    decide +kernel
  refine ⟨_, hparse, ?rules, ?declarations,
    parseDocument_jss_eq_relabelled hparse ?rules ?declarations⟩
  case rules => simp [Node.IsKeywordRule]
  case declarations => decide +kernel

/-- A plain document is a stylesheet of the extended language when the declarations directly in
rules that begin with a keyword are on one line each. Top-level rules may begin with keywords. -/
theorem exists_parseDocument_jss (h : parseDocument text config .css = .ok sheet)
    (hlines : ∀ entry ∈ Node.listingOf 0 sheet, entry.2.KeywordsOnOneLine) :
    ∃ sheet', parseDocument text config .jss = .ok sheet' := by
  obtain ⟨tokens, htokens, hsheet⟩ := parseDocument_eq_ok.mp h
  obtain ⟨next, hrun⟩ := parseTokens_eq_ok.mp hsheet
  have hlexed : IsLexed config (splitSymbolRuns tokens) :=
    ⟨_, _, tokens, htokens, List.infix_rfl⟩
  have hplain : Grammar.PlainItems (.within (spelling (splitSymbolRuns tokens)).length)
      (.ofTokens config (splitSymbolRuns tokens) .start) (splitSymbolRuns tokens) :=
    ⟨sheet, next, hrun, Node.everywhere_of_listingOf hlines⟩
  obtain ⟨sheet', left, hrun'⟩ := Grammar.exists_items_of_plainItems _ hlexed (.inl hplain)
  exact ⟨sheet', parseDocument_eq_ok.mpr ⟨tokens, htokens, parseTokens_eq_ok.mpr ⟨left, hrun'⟩⟩⟩

/-- A rule that is script up to the line feed, with a declaration that is script on its line. -/
theorem exists_parseDocument_jss_for :
    ∃ sheet sheet', parseDocument "for\na\x7bdo:b\x7d".toList {} .css = .ok sheet ∧
      (∀ entry ∈ Node.listingOf 0 sheet, entry.2.KeywordsOnOneLine) ∧
      parseDocument "for\na\x7bdo:b\x7d".toList {} .jss = .ok sheet' := by
  have hparse : parseDocument "for\na\x7bdo:b\x7d".toList {} .css =
      .ok [.block (.rule .css [⟨.css, ["for".toList, [' '], ['a']], "for\na".toList, ⟨1, 1⟩⟩])
        [.leaf (.declaration ⟨.css, ⟨"do".toList, ⟨2, 3⟩⟩, ⟨['b'], ⟨2, 6⟩⟩, false, "do:b".toList⟩)]
        ⟨"for\na\x7bdo:b\x7d".toList, ⟨1, 1⟩⟩] := by
    decide +kernel
  obtain ⟨sheet, hparse, hlines⟩ : ∃ sheet,
      parseDocument "for\na\x7bdo:b\x7d".toList {} .css = .ok sheet ∧
        ∀ entry ∈ Node.listingOf 0 sheet, entry.2.KeywordsOnOneLine := by
    refine ⟨_, hparse, ?_⟩
    unfold Node.KeywordsOnOneLine
    decide +kernel
  obtain ⟨sheet', hjss⟩ := exists_parseDocument_jss hparse hlines
  exact ⟨sheet, sheet', hparse, hlines, hjss⟩

/-- Behind a line feed such a declaration is none of the extended language: what stands before it is
script, and no declaration begins behind it. -/
example : parseDocument "a\x7bbreak-after:\npage\x7d".toList {} .jss =
    .failed (.grammatical ((((ParseError.leaf (.unexpectedEnd "':'".toList) ⟨2, 5⟩).within
      (.step 1)).within .block).within (.step 1))) := by
  decide +kernel

end StyleSyntax
