import StyleSyntax.Proofs.Grammar.Variants

/-!
# The grammar without its checks

Semicolons, at-rules, variables and spreads are only tried where the next significant token passes a
check. Each of them refuses a text whose next token would be turned away, and a refusal lets the
search go on as if the alternative had been passed over. So the grammar that tries them everywhere
reads the same sheets. What it reports may differ, but not whether an error arose inside brackets.
-/

namespace StyleSyntax.Grammar.Variant

open StyleSyntax.Parser

/-- The grammar that tries semicolons, at-rules, variables and spreads everywhere. -/
def unchecked : Variant where
  check _ p := p
  bodyRules declaration rule := [declaration, rule]

/-- A check that turns away only what is refused anyway does no good and no harm. -/
theorem unchecked_isHarmless : unchecked.IsHarmless where
  check_keeps h := h
  mem_bodyRules h := by simpa [unchecked] using h
  check {region bound rest rest' test p q alternatives others} hagrees htest hguarded hleaves
      htried := by
    obtain ⟨⟨rfl, -⟩, config, hlexed⟩ := id hleaves
    by_cases hpasses : (firstSignificant rest').any test
    · refine .cons (hagrees.reply hleaves) ?_ htried
      exact (hguarded.accepts _).trans hpasses.symm
    · have hrefuses : q.Refuses region rest' := hguarded.refuses hlexed (by simpa using hpasses)
      have hpassed : (probe test p).Declines region rest' := fun haccepts => absurd haccepts hpasses
      exact .cons_left hpassed (.cons_right (fun _ => hrefuses) htried)
  bodyRules {region bound rest rest' bodies bodies'} hbodies hleaves := by
    have hc := Comparison.lexed_isWhole region bound .jss
    exact .cons ((agrees_declaration hc).reply hleaves) rfl
      (.cons ((agrees_ruleBlock hc hbodies).reply hleaves) rfl triedAlike_nil)

/-- Without its checks the grammar answers alike on the tokens of every text, at the top level and
in the bodies of every depth. -/
theorem unchecked_alike {lexing : LexerConfig} {text : Text} {origin : Position}
    {tokens : List Token} (htokens : tokensOf lexing text origin = .ok tokens) (region : Region)
    (dialect : Dialect) :
    ((Grammar.stylesheet dialect).run region (splitSymbolRuns tokens)).Alike
        ((unchecked.stylesheet dialect).run region (splitSymbolRuns tokens)) ∧
      ∀ depth,
        (((Bodies.within depth).blockItems dialect).run region (splitSymbolRuns tokens)).Alike
          (((unchecked.within depth).blockItems dialect).run region (splitSymbolRuns tokens)) ∧
        (((Bodies.within depth).mediaItems dialect).run region (splitSymbolRuns tokens)).Alike
          (((unchecked.within depth).mediaItems dialect).run region (splitSymbolRuns tokens)) ∧
        (((Bodies.within depth).pageItems dialect).run region (splitSymbolRuns tokens)).Alike
          (((unchecked.within depth).pageItems dialect).run region (splitSymbolRuns tokens)) :=
  unchecked_isHarmless.alike ⟨text, origin, tokens, htokens, List.infix_rfl⟩ region dialect

/-- A variable with a spread and a lone semicolon in its body. -/
theorem unchecked_alike_variable :
    let text := "let a=\x7b...b;;\x7d".toList
    let nodes : List Node := [.block (.variableBlock .letKeyword ['a'] false)
      [.leaf (.spread ⟨['b'], ⟨1, 11⟩⟩ ⟨"...b;".toList, ⟨1, 8⟩⟩),
        .leaf (.ignored ⟨[';'], ⟨1, 13⟩⟩)] ⟨text, ⟨1, 1⟩⟩]
    ∃ tokens, tokensOf {} text .start = .ok tokens ∧
      ((Grammar.stylesheet .jss).run ⟨{}, ⟨1, 14⟩⟩ (splitSymbolRuns tokens)).outcome = .ok nodes ∧
      ((unchecked.stylesheet .jss).run ⟨{}, ⟨1, 14⟩⟩ (splitSymbolRuns tokens)).outcome =
        .ok nodes := by
  intro text nodes
  have htokens : tokensOf {} text .start = .ok [⟨.literal, "let".toList, ⟨1, 1⟩⟩,
      ⟨.space, [' '], ⟨1, 4⟩⟩, ⟨.literal, ['a'], ⟨1, 5⟩⟩, ⟨.symbol, ['='], ⟨1, 6⟩⟩,
      ⟨.lazyBlock, "\x7b...b;;\x7d".toList, ⟨1, 7⟩⟩] := by
    decide +kernel
  have hparse : ((Grammar.stylesheet .jss).run ⟨{}, ⟨1, 14⟩⟩ (splitSymbolRuns
      [⟨.literal, "let".toList, ⟨1, 1⟩⟩, ⟨.space, [' '], ⟨1, 4⟩⟩, ⟨.literal, ['a'], ⟨1, 5⟩⟩,
        ⟨.symbol, ['='], ⟨1, 6⟩⟩, ⟨.lazyBlock, "\x7b...b;;\x7d".toList, ⟨1, 7⟩⟩])).outcome =
      .ok nodes := by
    decide +kernel
  exact ⟨_, htokens, hparse, (unchecked_alike htokens _ _).1.outcome_eq hparse⟩

end StyleSyntax.Grammar.Variant
