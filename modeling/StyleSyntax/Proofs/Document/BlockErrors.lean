import StyleSyntax.Proofs.Document.Extension
import StyleSyntax.Proofs.Parser.Consults
import StyleSyntax.Proofs.Parser.Footing

/-!
# Errors from inside brackets are never given up

Whatever is tried on the way to a stylesheet, an error from inside brackets ends the whole attempt.
So in a document that is read every bracketed region that was entered was read to its end, also in
alternatives that were given up again.
-/

namespace StyleSyntax

open StyleSyntax.Parser StyleSyntax.Grammar

variable {α β : Type} {q q' : Parser β}

/-- The statement of an item is run where no trivia begins. -/
theorem replaces_item {statement statement' : Parser Node}
    (h : Replaces q q' statement statement') :
    Replaces q q' (item statement) (item statement') := by
  have hitem (statement : Parser Node) (region : Region) (rest : List Token) :
      (item statement).run region rest =
        (if rest.head?.any Token.isTrivia then ignored else statement).run region rest := by
    unfold item
    dsimp only
    split_ifs <;> rfl
  apply Replaces.chosen _ _ (hitem statement) (hitem statement') rfl
  intro region rest
  split_ifs
  · exact .same _
  · exact h

/-- A parser with bodies is run with bodies of some depth. -/
theorem replaces_withBodies {p p' : Bodies → Parser α}
    (h : ∀ bodies, Replaces q q' (p bodies) (p' bodies)) :
    Replaces q q' (withBodies p) (withBodies p') :=
  .chosen (fun _ rest => p (.within (spelling rest).length))
    (fun _ rest => p' (.within (spelling rest).length)) (fun _ _ => rfl) (fun _ _ => rfl) rfl
    fun _ _ => h _

/-- At-rules with another parser for media rules. -/
def atRuleWith (rule : Parser Node) (bodies : Bodies) (dialect : Dialect) : Parser Node :=
  { run := fun region rest =>
      match dropTrivia rest with
      | sign :: name :: _ =>
        if sign.isAt && name.isLiteral "media".toList then rule.run region rest
        else (atRule bodies dialect).run region rest
      | _ => (atRule bodies dialect).run region rest }

/-- The name of a media rule is that of no other rule. -/
theorem namedRule_media {name : Token} (h : name.isLiteral "media".toList) (bodies : Bodies)
    (dialect : Dialect) : namedRule bodies dialect name = mediaRule bodies dialect := by
  have hvalue : name.value = "media".toList := by
    rw [Token.isLiteral, Bool.and_eq_true, beq_iff_eq, beq_iff_eq] at h
    exact h.2
  have hcharset : name.isLiteral "charset".toList = false := by
    rw [Token.isLiteral, hvalue]
    exact Bool.and_false _
  have himport : name.isLiteral "import".toList = false := by
    rw [Token.isLiteral, hvalue]
    exact Bool.and_false _
  rw [namedRule, hcharset, himport, h]
  rfl

/-- At-rules are the same with the parser of media rules. -/
theorem atRule_run_eq (bodies : Bodies) (dialect : Dialect) (region : Region) (rest : List Token) :
    (atRule bodies dialect).run region rest =
      (atRuleWith (mediaRule bodies dialect) bodies dialect).run region rest := by
  unfold atRuleWith
  dsimp only
  split
  · next sign name following hdrop =>
    split_ifs with hmedia
    · rw [Bool.and_eq_true] at hmedia
      rw [← namedRule_media hmedia.2, atRule]
      simp only [hdrop, hmedia.1, ↓reduceIte]
    · rfl
  · rfl

/-- A media rule is run where its name stands right after the sign. -/
theorem replaces_atRule {bodies : Bodies} {dialect : Dialect} {rule : Parser Node}
    (h : Replaces q q' (mediaRule bodies dialect) rule) :
    Replaces q q' (atRule bodies dialect) (atRuleWith rule bodies dialect) := by
  let part (rule : Parser Node) (rest : List Token) : Parser Node :=
    match dropTrivia rest with
    | sign :: name :: _ =>
      if sign.isAt && name.isLiteral "media".toList then rule else atRule bodies dialect
    | _ => atRule bodies dialect
  have hpart (rule : Parser Node) (region : Region) (rest : List Token) :
      (atRuleWith rule bodies dialect).run region rest = (part rule rest).run region rest := by
    unfold atRuleWith
    dsimp only [part]
    split
    · split_ifs <;> rfl
    · rfl
  refine .chosen (fun _ => part (mediaRule bodies dialect)) (fun _ => part rule)
    (fun region rest => ?_) (hpart rule) rfl fun _ rest => ?_
  · rw [atRule_run_eq]
    exact hpart _ region rest
  · dsimp only [part]
    split
    · split_ifs
      · exact h
      · exact .same _
    · exact .same _

/-- A part of a parser that is run on the way and fails inside brackets makes the whole fail inside
brackets with the same root cause; so in a document that is read, every bracketed region that is
entered on the way is read to its end. -/
theorem isBlock_of_consults :
    (∀ {α β : Type} (p : Parser α) (q : Parser β) (region region' : Region)
      (rest rest' : List Token) (error : ParseError),
      Consults p q region rest region' rest' → (q.run region' rest').outcome = .failed error →
      error.isBlock → ∃ error', (p.run region rest).outcome = .failed error' ∧ error'.isBlock ∧
        error'.rootCause = error.rootCause) ∧
    ∀ (text : Text) (config : LexerConfig) (dialect : Dialect) (sheet : Stylesheet)
      (tokens : List Token), documentTokens config text = .ok tokens →
      parseDocument text config dialect = .ok sheet →
      ∀ {β : Type} (kinds : List TokenKind) (inner : Parser β) (region : Region)
        (rest next : List Token) (token : Token),
        Consults (stylesheet dialect) (block kinds inner)
          (.ofTokens config (splitSymbolRuns tokens) .start) (splitSymbolRuns tokens) region rest →
        (bracketed kinds).run region rest = ⟨.ok token, next⟩ →
        ∃ value, interior inner region.config token = .ok value := by
  refine ⟨fun _ _ _ _ _ _ _ hconsults => hconsults.exists_failed, ?_⟩
  intro text config dialect sheet tokens htokens hparse β kinds inner region rest next token
    hconsults htoken
  have hrun : (block kinds inner).run region rest = ⟨interior inner region.config token, next⟩ := by
    unfold block
    rw [run_bind, htoken]
  have houtcome : ((stylesheet dialect).run (.ofTokens config (splitSymbolRuns tokens) .start)
      (splitSymbolRuns tokens)).outcome = .ok sheet := by
    obtain ⟨found, hfound, hsheet⟩ := parseDocument_eq_ok.mp hparse
    cases hfound.symm.trans htokens
    exact hsheet
  cases hinterior : interior inner region.config token with
  | ok value => exact ⟨value, rfl⟩
  | failed error =>
    have hfailed : ((block kinds inner).run region rest).outcome = .failed error := by
      rw [hrun, hinterior]
    obtain ⟨error', herror, _⟩ :=
      hconsults.exists_failed hfailed (isBlock_of_interior_failed hinterior)
    rw [houtcome] at herror
    cases herror
  | endless =>
    have hends := hconsults.ends
    rw [hrun] at hends
    exact absurd hinterior hends

/-- An optional region in brackets that cannot be read, and a media expression that is read on the
way in vain, since the document turns out to be script. -/
theorem isBlock_of_consults_speculative :
    (∃ error, ((block [.roundBrackets] mediaFeature).optional.run ⟨{}, ⟨1, 4⟩⟩
        [⟨.roundBrackets, "(:)".toList, .start⟩]).outcome = .failed error ∧ error.isBlock ∧
        error.rootCause = .leaf (.expected "identifier".toList [':']) ⟨1, 2⟩) ∧
      parseDocument "@media (a:b) c;".toList {} .jss =
        .ok [.leaf (.script ⟨"@media (a:b) c;".toList, .start⟩)] ∧
      ∃ value, interior mediaFeature {} ⟨.roundBrackets, "(a:b)".toList, ⟨1, 8⟩⟩ = .ok value := by
  constructor
  · let region : Region := ⟨{}, ⟨1, 4⟩⟩
    let rest : List Token := [⟨.roundBrackets, "(:)".toList, .start⟩]
    have hconsults : Consults (block [.roundBrackets] mediaFeature).optional
        (block [.roundBrackets] mediaFeature) region rest region rest :=
      ⟨by decide +kernel, _, .optional .here, by decide +kernel⟩
    exact isBlock_of_consults.1 _ _ region region rest rest
      (.within .block (.leaf (.expected "identifier".toList [':']) ⟨1, 2⟩)) hconsults
      (by decide +kernel) rfl
  · let text : Text := "@media (a:b) c;".toList
    let expression : Token := ⟨.roundBrackets, "(a:b)".toList, ⟨1, 8⟩⟩
    let following : List Token :=
      [⟨.space, [' '], ⟨1, 13⟩⟩, ⟨.literal, ['c'], ⟨1, 14⟩⟩, ⟨.symbol, [';'], ⟨1, 15⟩⟩]
    let rest : List Token := ⟨.space, [' '], ⟨1, 7⟩⟩ :: expression :: following
    let tokens : List Token :=
      ⟨.symbol, ['@'], ⟨1, 1⟩⟩ :: ⟨.literal, "media".toList, ⟨1, 2⟩⟩ :: rest
    have htokens : documentTokens {} text = .ok tokens := by decide +kernel
    have hparse : parseDocument text {} .jss = .ok [.leaf (.script ⟨text, .start⟩)] := by
      decide +kernel
    have hconsults : Consults (stylesheet .jss) (block [.roundBrackets] mediaFeature)
        (.ofTokens {} (splitSymbolRuns tokens) .start) (splitSymbolRuns tokens)
        ⟨{}, ⟨1, 16⟩⟩ rest := by
      let q := block [.roundBrackets] mediaFeature
      let q' := q.endlessAt ⟨{}, ⟨1, 16⟩⟩ rest
      have hquery : Replaces q q' mediaQuery _ :=
        .firstOf (.leftRecursive (.rawValue .here) (.same andExpression))
          [leftRecursive medium andExpression] []
      have hqueries : Replaces q q' mediaQueryList _ := .map (.capture (.commaList hquery)) _
      have hrule (bodies : Bodies) : Replaces q q' (mediaRule bodies .jss) _ :=
        .bind (.capture (.attempt (.bind (.same _) fun _ => .bind (.same _) fun _ =>
          .bind (.step hqueries 2) fun _ => .same _))) fun _ => .same _
      have hsheet : Replaces q q' (stylesheet .jss) _ :=
        replaces_withBodies fun bodies => .all (replaces_item (.firstOf
          (.probe (replaces_atRule (hrule bodies)) Token.isAt)
          [probe Token.isSemicolon straySemicolon]
          [probe isVariableStart (variableBlock bodies), probe isScriptKeyword script,
            ruleBlock bodies .jss, script]))
      exact ⟨by decide +kernel, _, hsheet, by decide +kernel⟩
    exact ⟨hparse, isBlock_of_consults.2 text {} .jss _ tokens htokens hparse [.roundBrackets]
      mediaFeature ⟨{}, ⟨1, 16⟩⟩ rest following expression hconsults rfl⟩

end StyleSyntax
