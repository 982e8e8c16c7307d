import StyleSyntax.Proofs.Document.ErrorsInBrackets
import StyleSyntax.Proofs.Grammar.DeclarationParts

/-!
# The grammar of declaration bodies

A body of the plain language divides into gaps, lone semicolons and declarations. A division of a
list is a list of parts, of which each may stand before the ones behind it. The body is read exactly
where there is a division, there is at most one, and the nodes are those of its parts.
-/

namespace StyleSyntax.Grammar

open StyleSyntax.Parser

/-- A part of a body. -/
inductive BodyPart where
  | gap (tokens : List Token) (ne_nil : tokens ≠ []) (allTrivia : AllTrivia tokens)
  | semicolon (sign : Token) (isSemicolon : sign.isSemicolon)
  | declaration (d : DeclarationTokens)

namespace BodyPart

/-- The tokens of a part. -/
def tokens : BodyPart → List Token
  | gap tokens .. => tokens
  | semicolon sign _ => [sign]
  | declaration d => d.tokens

/-- What is read from a part. -/
def node : BodyPart → Node
  | gap tokens .. => .leaf (.ignored (written tokens))
  | semicolon sign _ => .leaf (.ignored (written [sign]))
  | declaration d => d.node

/-- Behind a gap stands no further trivia, and behind a declaration without a semicolon nothing
else. -/
def StandsBefore (later : List Token) : BodyPart → Prop
  | gap .. => ∀ token ∈ later.head?, token.isSignificant
  | semicolon .. => True
  | declaration d => d.close.isSome ∨ AllTrivia later

end BodyPart

/-- The parts one after another are the tokens, and each may stand before those behind it. -/
inductive Divides : List BodyPart → List Token → Prop
  | nil : Divides [] []
  | cons {part : BodyPart} {parts : List BodyPart} {later : List Token} :
    part.StandsBefore later → Divides parts later → Divides (part :: parts) (part.tokens ++ later)

variable {config : LexerConfig} {region : Region} {rest next later : List Token} {token : Token}

/-! ## Parts -/

namespace BodyPart

/-- No part is empty. -/
theorem tokens_ne_nil (part : BodyPart) : part.tokens ≠ [] := by
  cases part with
  | gap tokens hne _ => exact hne
  | semicolon sign _ => exact List.cons_ne_nil sign []
  | declaration d =>
    obtain ⟨first, more, htokens, -⟩ := d.exists_cons
    rw [tokens, htokens]
    exact List.cons_ne_nil first more

end BodyPart

/-- A semicolon alone is read where one comes next. -/
theorem straySemicolon_run (hsemicolon : token.isSemicolon) (region : Region)
    (later : List Token) :
    straySemicolon.run region (token :: later) =
      ⟨.ok (.leaf (.ignored (written [token]))), later⟩ := by
  have hsignificant : token.isSignificant := isSignificant_of_isSymbol hsemicolon
  have hsymbol : (symbol [';']).run region (token :: later) = ⟨.ok [';'], later⟩ := by
    refine symbol_run_eq_ok.mpr ⟨rfl, ?_⟩
    rw [dropTrivia_cons hsignificant]
    exact afterSymbols_of_isSymbol hsemicolon later
  have hof := excerptOf_isOf (endsSignificant_concat [] hsignificant)
    (significantPosition (token :: later) region.finish)
  rw [List.nil_append, dropTrivia_cons hsignificant] at hof
  refine map_run_eq_ok.mpr ⟨written [token], map_run_eq_ok.mpr ⟨⟨[';'], written [token]⟩,
    capture_run_eq_ok.mpr ⟨hsymbol, ?_⟩, rfl⟩, rfl⟩
  have hconsumed : consumed (token :: later) later = [token] := consumed_append [token] later
  rw [hconsumed]
  exact hof.eq_written.symm

/-- A part of a body is read as an item where it may stand. -/
theorem item_run_of_part {part : BodyPart} (hlexed : IsLexed config (part.tokens ++ next))
    (h : part.StandsBefore next) (region : Region) :
    (item (firstOf (declarationStatements .css))).run region (part.tokens ++ next) =
      ⟨.ok part.node, next⟩ := by
  cases part with
  | gap tokens hne htrivia =>
    obtain ⟨first, more, rfl⟩ := List.exists_cons_of_ne_nil hne
    have hnext : ∀ token ∈ next.head?, token.isTrivia = false :=
      fun token htoken => isTrivia_eq_false_of_significant (h token htoken)
    obtain ⟨htake, hdrop⟩ := span_append htrivia hnext
    rw [List.cons_append] at htake hdrop
    have hfirst : first.isTrivia := htrivia first List.mem_cons_self
    rw [BodyPart.tokens, List.cons_append, item_run_of_isTrivia hfirst,
      ignored_run_of_isTrivia _ _ hfirst, htake, dropTrivia, hdrop]
    rfl
  | semicolon sign hsemicolon =>
    have hsignificant : sign.isSignificant := isSignificant_of_isSymbol hsemicolon
    rw [BodyPart.tokens, List.singleton_append, item_run_of_significant hsignificant]
    refine firstOf_cons_run_eq_ok.mpr (.inl ⟨?_, straySemicolon_run hsemicolon region next⟩)
    rw [accepts_probe (dropTrivia_cons hsignificant next)]
    exact hsemicolon
  | declaration d =>
    obtain ⟨first, more, htokens, hunit⟩ := d.exists_cons
    have hsignificant := isSignificant_of_unit hunit
    have hrun : (declaration .css).run region (d.tokens ++ next) = ⟨.ok d.node, next⟩ :=
      (declaration_css_run_eq_ok hlexed).mpr ⟨[], d, rfl, by simp [AllTrivia], h, rfl⟩
    rw [htokens, List.cons_append] at hrun
    rw [BodyPart.tokens, htokens, List.cons_append, item_run_of_significant hsignificant]
    refine firstOf_cons_run_eq_ok.mpr (.inr ⟨?_, ?_⟩)
    · exact declines_probe (dropTrivia_cons hsignificant _) (isSemicolon_of_isUnit hunit) _
    · exact firstOf_cons_run_eq_ok.mpr (.inl ⟨rfl, hrun⟩)

/-- Where trivia stands a gap may, up to the next significant token. -/
theorem exists_gapPart (htrivia : token.isTrivia) : ∃ part : BodyPart,
    token :: later = part.tokens ++ dropTrivia (token :: later) ∧
      part.StandsBefore (dropTrivia (token :: later)) := by
  obtain ⟨gap, back, hsplit, hgap, hback⟩ := exists_span Token.isTrivia (token :: later)
  have hdrop : dropTrivia (token :: later) = back := by
    rw [hsplit]
    exact (span_append hgap hback).2
  have hne : gap ≠ [] := by
    rintro rfl
    have hfirst := hback token (by rw [← List.nil_append back, ← hsplit]; rfl)
    rw [htrivia] at hfirst
    cases hfirst
  rw [hdrop]
  exact ⟨.gap gap hne hgap, hsplit, fun token htoken => by
    simp [Token.isSignificant, hback token htoken]⟩

/-- An item of a body is read from a part that may stand where it is. -/
theorem exists_part_of_item_run (hlexed : IsLexed config (token :: later)) {node : Node}
    (h : (item (firstOf (declarationStatements .css))).run region (token :: later) =
      ⟨.ok node, next⟩) :
    ∃ part : BodyPart, token :: later = part.tokens ++ next ∧ part.StandsBefore next := by
  by_cases htrivia : token.isTrivia
  · rw [item_run_of_isTrivia htrivia, ignored_run_of_isTrivia _ _ htrivia] at h
    cases h
    exact exists_gapPart htrivia
  · have hsignificant : token.isSignificant := by simpa [Token.isSignificant] using htrivia
    rw [item_run_of_significant hsignificant] at h
    obtain ⟨p, hp, hrun⟩ := exists_mem_of_firstOf_run h
    simp only [declarationStatements, List.mem_cons, List.not_mem_nil, or_false] at hp
    rcases hp with rfl | rfl
    · obtain ⟨_, hexcerpt, -⟩ := map_run_eq_ok.mp hrun
      obtain ⟨_, hcaptured, -⟩ := map_run_eq_ok.mp hexcerpt
      obtain ⟨-, sign, hrest, hsemicolon⟩ :=
        (symbol_run_eq_ok_of_isLexed hlexed).mp (capture_run_eq_ok.mp hcaptured).1
      rw [dropTrivia_cons hsignificant] at hrest
      obtain ⟨rfl, rfl⟩ := List.cons.inj hrest
      exact ⟨.semicolon token hsemicolon, rfl, trivial⟩
    · obtain ⟨gap, d, hrest, hgap, hclose, -⟩ := (declaration_css_run_eq_ok hlexed).mp hrun
      have hnone : gap = [] := by
        cases gap with
        | nil => rfl
        | cons first gap =>
          obtain ⟨rfl, -⟩ := List.cons.inj hrest
          exact absurd (hgap token List.mem_cons_self) htrivia
      rw [hnone] at hrest
      exact ⟨.declaration d, hrest, hclose⟩

/-! ## Divisions -/

/-- A body is read from its parts. -/
theorem Divides.items_run {parts : List BodyPart} {tokens : List Token} (h : Divides parts tokens)
    (hlexed : IsLexed config tokens) (region : Region) :
    (declarationItems .css).run region tokens = ⟨.ok (parts.map BodyPart.node), []⟩ := by
  induction h with
  | nil => exact all_run_nil _ region
  | @cons part parts later hstands _ ih =>
    have hitem := item_run_of_part hlexed hstands region
    obtain ⟨first, more, htokens⟩ := List.exists_cons_of_ne_nil part.tokens_ne_nil
    rw [htokens, List.cons_append] at hitem ⊢
    refine all_run_cons_eq_ok.mpr ⟨part.node, later, parts.map BodyPart.node, hitem, ?_, ?_, rfl⟩
    · simp only [List.length_cons, List.length_append]
      omega
    · exact ih hlexed.of_append

/-- Where a body is read there is a division. -/
theorem exists_divides_of_items_run {tokens : List Token} (hlexed : IsLexed config tokens)
    {nodes : List Node} (h : (declarationItems .css).run region tokens = ⟨.ok nodes, next⟩) :
    ∃ parts, Divides parts tokens := by
  -- Each part takes some tokens, so the induction is on the number of tokens left.
  generalize hlength : tokens.length = length
  induction length using Nat.strong_induction_on generalizing tokens nodes with
  | _ length ih =>
    cases tokens with
    | nil => exact ⟨[], .nil⟩
    | cons token later =>
      obtain ⟨node, middle, others, hitem, hlt, hothers, -⟩ := all_run_cons_eq_ok.mp h
      obtain ⟨part, htokens, hstands⟩ := exists_part_of_item_run hlexed hitem
      rw [htokens] at hlexed
      obtain ⟨parts, hparts⟩ := ih middle.length (hlength ▸ hlt) hlexed.of_append hothers rfl
      exact ⟨part :: parts, htokens ▸ .cons hstands hparts⟩

/-- The first token tells a gap from a semicolon and both from a declaration. -/
theorem BodyPart.any_head? (part : BodyPart) :
    (part.tokens.head?.any Token.isTrivia, part.tokens.head?.any Token.isSemicolon) =
      match part with
      | gap .. => (true, false)
      | semicolon .. => (false, true)
      | declaration _ => (false, false) := by
  cases part with
  | gap tokens hne htrivia =>
    obtain ⟨first, more, rfl⟩ := List.exists_cons_of_ne_nil hne
    have hfirst : first.isTrivia := htrivia first List.mem_cons_self
    have hsemicolon : first.isSemicolon = false := by
      rw [← Bool.not_eq_true]
      intro hsemicolon
      rw [isTrivia_eq_false_of_significant (isSignificant_of_isSymbol hsemicolon)] at hfirst
      cases hfirst
    simp [tokens, hfirst, hsemicolon]
  | semicolon sign hsemicolon =>
    have hsignificant : sign.isSignificant := isSignificant_of_isSymbol hsemicolon
    simp [tokens, hsemicolon, isTrivia_eq_false_of_significant hsignificant]
  | declaration d =>
    obtain ⟨first, more, htokens, hunit⟩ := d.exists_cons
    have hsignificant := isTrivia_eq_false_of_significant (isSignificant_of_unit hunit)
    simp [tokens, htokens, hsignificant, isSemicolon_of_isUnit hunit]

/-- Parts are determined by their tokens. -/
theorem BodyPart.eq_of_tokens_eq {part part' : BodyPart} (h : part.tokens = part'.tokens) :
    part = part' := by
  have hhead := part.any_head?
  rw [h, part'.any_head?] at hhead
  cases part with
  | gap =>
    cases part' with
    | gap =>
      obtain rfl := h
      rfl
    | semicolon | declaration => cases hhead
  | semicolon =>
    cases part' with
    | semicolon =>
      obtain ⟨rfl, -⟩ := List.cons.inj h
      rfl
    | gap | declaration => cases hhead
  | declaration d =>
    cases part' with
    | declaration d' => exact congrArg declaration (DeclarationTokens.eq_of_tokens_eq h)
    | gap | semicolon => cases hhead

/-- There is at most one division. -/
theorem Divides.eq {parts others : List BodyPart} {tokens : List Token} (h : Divides parts tokens)
    (h' : Divides others tokens) (hlexed : IsLexed config tokens) : others = parts := by
  induction h generalizing others with
  | nil =>
    generalize htokens : ([] : List Token) = tokens at h'
    cases h' with
    | nil => rfl
    | @cons part => exact absurd (List.append_eq_nil_iff.mp htokens.symm).1 part.tokens_ne_nil
  | @cons part parts later hstands hparts ih =>
    generalize htokens : part.tokens ++ later = tokens at h'
    cases h' with
    | nil => exact absurd (List.append_eq_nil_iff.mp htokens).1 part.tokens_ne_nil
    | @cons part' parts' later' hstands' hparts' =>
      have hrun := item_run_of_part hlexed hstands ⟨{}, .start⟩
      rw [htokens] at hlexed hrun
      rw [item_run_of_part hlexed hstands'] at hrun
      obtain rfl : later' = later := congrArg Reply.rest hrun
      obtain rfl := BodyPart.eq_of_tokens_eq (List.append_cancel_right htokens)
      rw [ih hparts' hlexed.of_append]

/-- A body of the plain language is read exactly where it divides into gaps, semicolons and
declarations. There is then one division alone, nothing is left, and the nodes are those of its
parts in order. -/
theorem declarationItems_css_run_iff {tokens : List Token} (hlexed : IsLexed config tokens)
    (region : Region) :
    ((∃ nodes next, (declarationItems .css).run region tokens = ⟨.ok nodes, next⟩) ↔
        ∃ parts, Divides parts tokens) ∧
      ∀ parts, Divides parts tokens →
        (declarationItems .css).run region tokens = ⟨.ok (parts.map BodyPart.node), []⟩ ∧
        ∀ others, Divides others tokens → others = parts := by
  refine ⟨⟨?_, ?_⟩, fun parts hparts => ⟨hparts.items_run hlexed region, ?_⟩⟩
  · rintro ⟨nodes, next, hrun⟩
    exact exists_divides_of_items_run hlexed hrun
  · rintro ⟨parts, hparts⟩
    exact ⟨_, _, hparts.items_run hlexed region⟩
  · exact fun others hothers => hparts.eq hothers hlexed

/-- A declaration with dashes, a comment, a mark and a gap before its semicolon, then a semicolon
alone, and then a declaration without a semicolon before a gap. -/
theorem declarationItems_css_run_iff_marked :
    let text := "a-b/**/:c ! important\n;;d:e ".toList
    let nodes : List Node :=
      [.leaf (.declaration ⟨.css, ⟨"a-b".toList, ⟨1, 1⟩⟩, ⟨['c'], ⟨1, 9⟩⟩, true,
        "a-b/**/:c ! important\n;".toList⟩),
      .leaf (.ignored ⟨[';'], ⟨2, 2⟩⟩),
      .leaf (.declaration ⟨.css, ⟨['d'], ⟨2, 3⟩⟩, ⟨['e'], ⟨2, 5⟩⟩, false, "d:e".toList⟩),
      .leaf (.ignored ⟨[' '], ⟨2, 6⟩⟩)]
    ∃ tokens, tokensOf {} text .start = .ok tokens ∧
      ∃ parts, Divides parts (splitSymbolRuns tokens) ∧ parts.map BodyPart.node = nodes := by
  intro text nodes
  have hread : (tokensOf {} text .start).map (fun tokens => ((declarationItems .css).run
      ⟨{}, ⟨2, 7⟩⟩ (splitSymbolRuns tokens)).outcome) = .ok (.ok nodes) := by
    decide +kernel
  obtain ⟨tokens, next, htokens, hlexed, hrun⟩ := IsLexed.exists_run_of_map hread
  obtain ⟨hiff, hparts⟩ := declarationItems_css_run_iff hlexed ⟨{}, ⟨2, 7⟩⟩
  obtain ⟨parts, hdivides⟩ := hiff.mp ⟨nodes, next, hrun⟩
  have hnodes := hrun.symm.trans (hparts parts hdivides).1
  exact ⟨tokens, htokens, parts, hdivides,
    (Outcome.ok.inj (congrArg Reply.outcome hnodes)).symm⟩

end StyleSyntax.Grammar
