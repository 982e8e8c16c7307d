import StyleSyntax.Proofs.Document.ErrorsInBrackets
import StyleSyntax.Proofs.Grammar.Extension

/-!
# Rules behind script

A top-level rule that begins with a keyword is script at first in the extended language. Script ends
at the braces of the rule or at a line feed before them, so that what is left is either the text
behind the rule or an end of the rule, which is again made of selector tokens and braces. Such an
end is read as script or as a rule, with the body of the rule that it is the end of. Either way the
items behind the rule are reached.
-/

namespace StyleSyntax.Grammar

open StyleSyntax.Parser

variable {bodies : Bodies} {region : Region} {rest next back : List Token} {stop : Token}

/-- An identifier fails outside brackets. -/
theorem failsOutside_identifier (dialect : Dialect) : (identifier dialect).FailsOutside := by
  constructor
  intro region rest next error h
  rcases identifier_run_cases dialect region rest with ⟨name, left, hrun⟩ | hrun
  · rw [hrun] at h
    cases h
  · rw [hrun] at h
    cases h
    exact isBlock_expected region _ rest

/-- An element name fails outside brackets. -/
theorem failsOutside_elementName (dialect : Dialect) : (elementName dialect).FailsOutside := by
  have hname := (failsOutside_identifier dialect).map Excerpt.text
  cases dialect with
  | css =>
    refine failsOutside_firstOf ?_
    simp only [List.forall_mem_cons]
    exact ⟨hname, failsOutside_symbol _, by simp⟩
  | jss =>
    refine failsOutside_firstOf ?_
    simp only [List.forall_mem_cons]
    exact ⟨hname, failsOutside_symbol _, failsOutside_symbol _, by simp⟩

/-- A sign with a name fails outside brackets. -/
theorem failsOutside_signedName {sign : Parser Text} (h : sign.FailsOutside) (dialect : Dialect) :
    (signedName sign dialect).FailsOutside :=
  FailsOutside.rawValue <| FailsOutside.attempt <| h.bind fun _ =>
    (failsOutside_noSpacesHere.step 1).bind fun _ =>
      ((failsOutside_identifier dialect).step 2).bind fun _ => failsOutside_pure _

/-- A pseudo selector fails outside brackets, since its arguments are not read. -/
theorem failsOutside_pseudoSelector (dialect : Dialect) :
    (pseudoSelector dialect).FailsOutside := by
  have harguments : pseudoArguments.FailsOutside :=
    FailsOutside.attempt <| failsOutside_noSpacesHere.bind fun _ =>
      (failsOutside_tokenWhere _ _).step 1
  exact FailsOutside.rawValue <| FailsOutside.attempt <| (failsOutside_oneOfSymbols _).bind fun _ =>
    (failsOutside_noSpacesHere.step 1).bind fun _ =>
      ((failsOutside_identifier dialect).step 2).bind fun _ =>
        (harguments.optional.step 3).bind fun _ => failsOutside_pure _

/-- A compound selector fails outside brackets. -/
theorem failsOutside_compoundSelector (dialect : Dialect) :
    (compoundSelector dialect).FailsOutside := by
  have hsubclass : (subclassSelector dialect).FailsOutside := by
    refine failsOutside_firstOf ?_
    simp only [List.forall_mem_cons]
    exact ⟨failsOutside_signedName (failsOutside_symbol _) dialect,
      failsOutside_signedName (failsOutside_symbol _) dialect,
      (failsOutside_tokenWhere _ _).rawValue, failsOutside_pseudoSelector dialect, by simp⟩
  refine FailsOutside.attempt <| failsOutside_skipTrivia.bind fun _ =>
    (failsOutside_elementName dialect).optional.bind fun element =>
      (failsOutside_noSpacesHere.bind fun _ => hsubclass).many.bind fun others => ?_
  dsimp only
  split_ifs
  · exact failsOutside_expected _
  · exact failsOutside_pure _

/-- A list of selectors fails outside brackets. -/
theorem failsOutside_selectorList (dialect : Dialect) : (selectorList dialect).FailsOutside := by
  have hcombinator : combinator.FailsOutside := failsOutside_oneOfSymbols _
  have hjoint : joint.FailsOutside := by
    refine failsOutside_firstOf ?_
    simp only [List.forall_mem_cons]
    exact ⟨hcombinator, failsOutside_trivia.map _, by simp⟩
  have hleading : (leadingCombinator dialect).FailsOutside := by
    cases dialect with
    | css => exact failsOutside_pure _
    | jss => exact hcombinator.optional.bind fun _ => failsOutside_pure _
  have hcompound := failsOutside_compoundSelector dialect
  have hselector : (selector dialect).FailsOutside :=
    (FailsOutside.capture <| hleading.bind fun _ => hcompound.bind fun _ =>
      (hjoint.separated hcompound).bind fun _ => failsOutside_pure _).bind
        fun _ => failsOutside_pure _
  exact hselector.list (failsOutside_tokenWhere _ _) false

/-- Up to braces, selectors of the extended language are read without passing them, or refused. -/
theorem selectorList_run_cases (hstop : stop.isBraces) (hrest : LeadsTo (stop :: back) rest)
    (region : Region) :
    (∃ selectors middle, (selectorList .jss).run region rest = ⟨.ok selectors, middle⟩ ∧
      LeadsTo (stop :: back) middle) ∨ (selectorList .jss).Refuses region rest := by
  have hrecasts : (selectorList .jss).Recasts (.upTo stop back hstop)
      (List.map (Recasting.upTo stop back hstop).selector) (selectorList .jss) :=
    recasts_selectorList (recasts_compoundSelector_upTo .jss)
  have hends := (keeps_selectorList .jss).outcome_ne_endless region rest
  refine ((failsOutside_selectorList .jss).run_cases hends).imp_left ?_
  rintro ⟨selectors, middle, hrun⟩
  have hmiddle := (run_eq_of_recasts hrecasts List.map_id_fun hrest region).2
  rw [hrun] at hmiddle
  exact ⟨selectors, middle, hrun, hmiddle⟩

/-- What leads up to braces is a rule with the body between them, or is refused as a rule. -/
theorem ruleBlock_run_cases {items : List Node} (hstop : stop.isBraces)
    (hrest : LeadsTo (stop :: back) rest)
    (hbody : interior (bodies.blockItems .jss) region.config stop = .ok items) :
    (∃ node, (ruleBlock bodies .jss).run region rest = ⟨.ok node, back⟩) ∨
      (ruleBlock bodies .jss).Refuses region rest := by
  rcases selectorList_run_cases hstop hrest region with
    ⟨selectors, middle, hrun, hmiddle⟩ | hrefuses
  · obtain ⟨front, hdropped, hfront⟩ := leadsTo_dropTrivia hmiddle (isSignificant_of_isBraces hstop)
    cases front with
    | nil =>
      have hkind : braces.contains stop.kind := (braces_contains stop.kind).trans hstop
      exact .inl ⟨_, ruleBlock_run_eq_ok.mpr ⟨selectors, items, middle, hrun,
        block_run_eq_ok.mpr ⟨stop, hdropped, hkind, hbody⟩, rfl⟩⟩
    | cons token front =>
      have hkind : braces.contains token.kind = false :=
        (braces_contains token.kind).trans
          (isBraces_of_isSelectorToken (hfront token List.mem_cons_self))
      have hblock : (block braces (bodies.blockItems .jss)).Refuses region middle :=
        (tokenWhere_refuses hdropped hkind _ region).bind _
      exact .inr (Refuses.bind (Refuses.capture <| Refuses.attempt <|
        Refuses.bind_of_run hrun ((hblock.step 1).bind _)) _)
  · exact .inr (Refuses.bind (Refuses.capture <| Refuses.attempt <| hrefuses.bind _) _)

/-- Script that begins before braces ends before them or with them, and then perhaps with a
semicolon. -/
theorem drop_scriptLength_cases (hstop : stop.isBraces) (hrest : LeadsTo (stop :: back) rest) :
    LeadsTo (stop :: back) (rest.drop (scriptLength rest)) ∨
      rest.drop (scriptLength rest) = back ∨
      ∃ semicolon, semicolon.isSemicolon ∧ back = semicolon :: rest.drop (scriptLength rest) := by
  obtain ⟨front, rfl, hfront⟩ := hrest
  induction front with
  | nil =>
    have htrivia := isTrivia_eq_false_of_significant (isSignificant_of_isBraces hstop)
    have hsemicolon := (isSemicolon_and_isAt_of_isSelectorToken (.inr hstop)).1
    rw [List.nil_append, scriptLength, htrivia, hsemicolon, hstop]
    simp only [Bool.false_eq_true, if_false, if_true]
    split_ifs with hback
    · obtain ⟨semicolon, hfirst, hkind⟩ := (Option.any_eq_true _ _).mp hback
      obtain ⟨later, rfl⟩ := List.head?_eq_some_iff.mp hfirst
      exact .inr (.inr ⟨semicolon, hkind, rfl⟩)
    · exact .inr (.inl rfl)
  | cons token front ih =>
    obtain ⟨htoken, hlater⟩ := List.forall_mem_cons.mp hfront
    have hsemicolon := (isSemicolon_and_isAt_of_isSelectorToken (.inl htoken)).1
    rw [List.cons_append, scriptLength, hsemicolon, isBraces_of_isSelectorToken htoken]
    simp only [Bool.false_eq_true, if_false]
    split_ifs
    · exact .inl ⟨token :: front, rfl, hfront⟩
    · split
      · exact .inl ⟨token :: front, rfl, hfront⟩
      · next length hlength =>
        rw [hlength] at ih
        exact ih hlater
    · exact ih hlater

/-- Plain items are left, and their declarations that begin with a keyword are on one line each. -/
def PlainItems (bodies : Bodies) (region : Region) (rest : List Token) : Prop :=
  ∃ nodes next, (stylesheetItems bodies .css).run region rest = ⟨.ok nodes, next⟩ ∧
    ∀ node ∈ nodes, node.Everywhere Node.KeywordsOnOneLine

/-- The end of a rule is left: selector tokens, a body of the extended language, and then plain
items. -/
def RuleEnd (bodies : Bodies) (region : Region) (rest : List Token) : Prop :=
  ∃ stop back items, stop.isBraces ∧ LeadsTo (stop :: back) rest ∧
    interior (bodies.blockItems .jss) region.config stop = .ok items ∧
    PlainItems bodies region back

/-- A semicolon alone is read as such. -/
theorem exists_run_straySemicolon {semicolon : Token} (h : semicolon.isSemicolon)
    (region : Region) (rest : List Token) :
    ∃ node, straySemicolon.run region (semicolon :: rest) = ⟨.ok node, rest⟩ := by
  have hsignificant : semicolon.isSignificant := isSignificant_of_isSymbol h
  rw [Token.isSemicolon, Token.isSymbol, Bool.and_eq_true, beq_iff_eq, beq_iff_eq] at h
  have hafter : afterSymbols [';'] (dropTrivia (semicolon :: rest)) = some rest := by
    rw [dropTrivia_cons hsignificant, afterSymbols_cons (List.cons_ne_nil _ _), h.1, h.2]
    simp [Text.startsWith, afterSymbols]
  have hsymbol : (symbol [';']).run region (semicolon :: rest) = ⟨.ok [';'], rest⟩ :=
    symbol_run_eq_ok.mpr ⟨rfl, hafter⟩
  exact ⟨_, map_run_eq_ok.mpr ⟨_, map_run_eq_ok.mpr
    ⟨⟨_, _⟩, capture_run_eq_ok.mpr ⟨hsymbol, rfl⟩, rfl⟩, rfl⟩⟩

/-- A semicolon before plain items may be left out. -/
theorem PlainItems.of_semicolon {semicolon : Token} (hsemicolon : semicolon.isSemicolon)
    (h : PlainItems bodies region (semicolon :: rest)) : PlainItems bodies region rest := by
  obtain ⟨nodes, next, hrun, hnodes⟩ := h
  rw [stylesheetItems_eq] at hrun
  obtain ⟨node, middle, others, hitem, -, hothers, rfl⟩ := all_run_cons_eq_ok.mp hrun
  have hsignificant : semicolon.isSignificant := isSignificant_of_isSymbol hsemicolon
  obtain ⟨found, hfound⟩ := exists_run_straySemicolon hsemicolon region rest
  have hfirst : (firstOf (sheetStatements bodies .css)).run region (semicolon :: rest) =
      ⟨.ok found, rest⟩ := by
    refine firstOf_cons_run_eq_ok.mpr (.inl ⟨?_, hfound⟩)
    rw [firstSignificant_eq_head?, dropTrivia_cons hsignificant]
    exact hsemicolon
  rw [item_run_of_significant hsignificant, hfirst] at hitem
  cases hitem
  rw [List.forall_mem_cons] at hnodes
  exact ⟨others, next, by rw [stylesheetItems_eq]; exact hothers, hnodes.2⟩

/-- Behind script at the end of a rule there is again the end of a rule, or plain items. -/
theorem RuleEnd.drop_scriptLength (h : RuleEnd bodies region rest) :
    PlainItems bodies region (rest.drop (scriptLength rest)) ∨
      RuleEnd bodies region (rest.drop (scriptLength rest)) := by
  obtain ⟨stop, back, items, hstop, hrest, hbody, hback⟩ := h
  have hcases := drop_scriptLength_cases hstop hrest
  generalize rest.drop (scriptLength rest) = left at hcases ⊢
  rcases hcases with hleads | rfl | ⟨semicolon, hsemicolon, rfl⟩
  · exact .inr ⟨stop, back, items, hstop, hleads, hbody, hback⟩
  · exact .inl hback
  · exact .inl (hback.of_semicolon hsemicolon)

/-- The end of a rule begins with an item of the extended language, behind which again the end of a
rule or plain items are left. -/
theorem exists_item_of_ruleEnd {token : Token} {following : List Token}
    (h : RuleEnd bodies region (token :: following)) :
    ∃ node next, (item (firstOf (sheetStatements bodies .jss))).run region (token :: following) =
      ⟨.ok node, next⟩ ∧ (PlainItems bodies region next ∨ RuleEnd bodies region next) := by
  have hnext := h.drop_scriptLength
  obtain ⟨stop, back, items, hstop, hrest, hbody, hback⟩ := h
  by_cases htrivia : token.isTrivia
  · have hrun := ignored_run_of_isTrivia region following htrivia
    have hleads := leadsTo_dropTrivia hrest (isSignificant_of_isBraces hstop)
    exact ⟨_, _, (item_run_of_isTrivia htrivia).trans hrun,
      .inr ⟨stop, back, items, hstop, hleads, hbody, hback⟩⟩
  · have hsignificant : token.isSignificant := by simpa [Token.isSignificant] using htrivia
    have hfront : ∀ p ∈ earlyStatements bodies, p.Declines region (token :: following) :=
      earlyStatements_decline hstop hrest
    rw [item_run_of_significant hsignificant]
    rcases ruleBlock_run_cases hstop hrest hbody with ⟨node, hrule⟩ | hrefuses
    -- Script that begins with a keyword is tried before the rule, other script behind it.
    · by_cases hkeyword : (firstSignificant (token :: following)).any isScriptKeyword
      · obtain ⟨source, hscript⟩ :=
          exists_run_script region (dropTrivia_cons hsignificant following)
        exact ⟨_, _, run_firstOf_of_declines (p := probe isScriptKeyword script) hfront hkeyword
          hscript, hnext⟩
      · have hscript : ∀ p ∈ [probe isScriptKeyword script],
            p.Declines region (token :: following) :=
          List.forall_mem_singleton.mpr fun haccepts => absurd haccepts hkeyword
        exact ⟨node, back, run_firstOf_of_declines (p := ruleBlock bodies .jss)
          (List.forall_mem_append.mpr ⟨hfront, hscript⟩) rfl hrule, .inl hback⟩
    · have hrules : ∀ p ∈ [ruleBlock bodies .jss], p.Declines region (token :: following) :=
        List.forall_mem_singleton.mpr fun _ => hrefuses
      obtain ⟨source, hscript⟩ := exists_run_sheetStatements_script hsignificant
        (List.forall_mem_append.mpr ⟨hfront, hrules⟩)
      exact ⟨_, _, hscript, hnext⟩

/-- A plain rule is the end of a rule, with plain items behind it. -/
theorem ruleEnd_of_ruleBlock {node : Node} (hbodies : bodies.Extend)
    (hlexed : IsLexed region.config rest)
    (h : (ruleBlock bodies .css).run region rest = ⟨.ok node, next⟩)
    (hnode : node.Everywhere Node.KeywordsOnOneLine) (hnext : PlainItems bodies region next) :
    RuleEnd bodies region rest := by
  obtain ⟨selectors, items, middle, hselectors, hitems, rfl⟩ := ruleBlock_run_eq_ok.mp h
  obtain ⟨stop, hmiddle, hkind, -⟩ := block_run_eq_ok.mp hitems
  have hstop : stop.isBraces := (braces_contains stop.kind).symm.trans hkind
  have hleads := (selectorList_run_jss hlexed hselectors hmiddle hstop).1
  obtain ⟨used, rfl, -⟩ := (keeps_selectorList .css).exists_used hselectors
  have hitems' := (hbodies.block.block braces).run hlexed.of_append hitems hnode.self
  obtain ⟨token, hfirst, -, hbody⟩ := block_run_eq_ok.mp hitems'
  rw [hmiddle] at hfirst
  obtain ⟨rfl, -⟩ := List.cons.inj hfirst
  exact ⟨stop, next, _, hstop, hleads, hbody, hnext⟩

/-- Plain items begin with an item of the extended language, behind which plain items or the end of
a rule are left. -/
theorem exists_item_of_plainItems {token : Token} {following : List Token} (hbodies : bodies.Extend)
    (hlexed : IsLexed region.config (token :: following))
    (h : PlainItems bodies region (token :: following)) :
    ∃ node next, (item (firstOf (sheetStatements bodies .jss))).run region (token :: following) =
      ⟨.ok node, next⟩ ∧ (PlainItems bodies region next ∨ RuleEnd bodies region next) := by
  obtain ⟨nodes, next, hrun, hnodes⟩ := h
  rw [stylesheetItems_eq] at hrun
  obtain ⟨node, middle, others, hitem, -, hothers, rfl⟩ := all_run_cons_eq_ok.mp hrun
  rw [List.forall_mem_cons] at hnodes
  have hmiddle : PlainItems bodies region middle :=
    ⟨others, next, by rw [stylesheetItems_eq]; exact hothers, hnodes.2⟩
  by_cases htrivia : token.isTrivia
  · rw [item_run_of_isTrivia htrivia] at hitem ⊢
    exact ⟨node, middle, hitem, .inl hmiddle⟩
  · have hsignificant : token.isSignificant := by simpa [Token.isSignificant] using htrivia
    rw [item_run_of_significant hsignificant] at hitem
    rcases plainStatement_cases hbodies hlexed hitem hnodes.1 with hrule | hothers
    · exact exists_item_of_ruleEnd (ruleEnd_of_ruleBlock hbodies hlexed hrule hnodes.1 hmiddle)
    · refine ⟨node.extended, middle, ?_, .inl hmiddle⟩
      rw [item_run_of_significant hsignificant]
      exact hothers _

/-- What plain items are left in is read as items of the extended language. -/
theorem exists_items_of_plainItems (depth : Nat) (hlexed : IsLexed region.config rest)
    (h : PlainItems (.within depth) region rest ∨ RuleEnd (.within depth) region rest) :
    ∃ nodes next, (stylesheetItems (.within depth) .jss).run region rest = ⟨.ok nodes, next⟩ := by
  have hkeeps : (firstOf (sheetStatements (.within depth) .jss)).Keeps .any
      (Promise.statement .jss .sheet) := keeps_sheetStatements (Bodies.within_keep depth) .jss
  rw [stylesheetItems_eq]
  -- The induction is on the number of tokens left; each item keeps one of the two cases of `h`.
  generalize hlength : rest.length = length
  induction length using Nat.strong_induction_on generalizing rest with
  | _ length ih =>
    cases rest with
    | nil => exact ⟨[], [], all_run_nil _ _⟩
    | cons token following =>
      obtain ⟨node, middle, hitem, hmiddle⟩ : ∃ node next,
          (item (firstOf (sheetStatements (.within depth) .jss))).run region (token :: following) =
            ⟨.ok node, next⟩ ∧
          (PlainItems (.within depth) region next ∨ RuleEnd (.within depth) region next) := by
        rcases h with hplain | hend
        · exact exists_item_of_plainItems (Bodies.within_extend depth) hlexed hplain
        · exact exists_item_of_ruleEnd hend
      have hlt := length_lt_of_item hkeeps hitem
      obtain ⟨used, hused, -⟩ := (keeps_item hkeeps).exists_used hitem
      have hlater : IsLexed region.config middle := by
        rw [hused] at hlexed
        exact hlexed.of_append
      obtain ⟨nodes, next, hrun⟩ := ih middle.length (hlength ▸ hlt) hlater hmiddle rfl
      exact ⟨node :: nodes, next,
        all_run_cons_eq_ok.mpr ⟨node, middle, nodes, hitem, hlt, hrun, rfl⟩⟩

end StyleSyntax.Grammar
