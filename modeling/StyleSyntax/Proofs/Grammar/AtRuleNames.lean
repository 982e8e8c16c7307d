import StyleSyntax.Proofs.Grammar.CutStatements

/-!
# Names of at-rules

The name of an at-rule is the run of literals and dashes right behind the sign, as everywhere in the
grammar. Four names are known, and any other one should be refused where it begins. The rule is
chosen by the first token of the name alone, so a name that only begins with a known one is not
refused there: it is read as a known rule, and from then on every failure is one of a rule that had
begun.
-/

namespace StyleSyntax.Grammar

open StyleSyntax.Parser

/-- The names of the rules that there are. -/
def atRuleNames : List Text :=
  ["charset".toList, "import".toList, "media".toList, "page".toList]

/-- A literal or a run of dashes, of which names are made. -/
def isNamePart (token : Token) : Bool :=
  token.kind == .literal || isDashes token

/-- The parts of the name that the tokens begin with. -/
def nameParts (tokens : List Token) : List Token :=
  tokens.takeWhile isNamePart

/-- An at-rule at these tokens is accepted under a known name alone, and under any other name it is
refused where the name begins. -/
structure TakesWholeNames (bodies : Bodies) (dialect : Dialect) (region : Region)
    (rest : List Token) : Prop where
  known {node : Node} {next : List Token} :
    (atRule bodies dialect).run region rest = ⟨.ok node, next⟩ →
      ∃ sign following, dropTrivia rest = sign :: following ∧ sign.isAt ∧
        spelling (nameParts following) ∈ atRuleNames
  unknown {sign first : Token} {later : List Token} :
    dropTrivia rest = sign :: first :: later → sign.isAt →
      spelling (nameParts (first :: later)) ∉ atRuleNames →
        ∃ wanted, (atRule bodies dialect).run region rest =
          ⟨.failed (.expectedAt wanted first), rest⟩

/-- Behind the sign stands a known name, and the name goes on behind it. -/
def ContinuesKnownName (rest : List Token) : Prop :=
  ∃ sign first later, dropTrivia rest = sign :: first :: later ∧ sign.isAt ∧
    first.kind = .literal ∧ first.value ∈ atRuleNames ∧ spelling (nameParts later) ≠ []

variable {bodies : Bodies} {dialect : Dialect} {region : Region} {rest next later : List Token}
  {sign name : Token} {node : Node} {error : ParseError}

/-! ## Known and unknown names -/

/-- A known name is chosen by its token. -/
theorem mem_atRuleNames_iff (hkind : name.kind = .literal) :
    name.value ∈ atRuleNames ↔ ∃ text ∈ atRuleNames, name.isLiteral text := by
  simp [Token.isLiteral, hkind]

/-- No known name is the beginning of another one. -/
theorem eq_nil_of_append_mem {text more : Text} (htext : text ∈ atRuleNames)
    (h : text ++ more ∈ atRuleNames) : more = [] := by
  have hprefixes : ∀ a ∈ atRuleNames, ∀ b ∈ atRuleNames, a <+: b → a = b := by decide
  have heq := hprefixes _ htext _ h (List.prefix_append text more)
  simpa using heq

/-- Where no known literal stands behind the sign, the rule is refused at the token that does. -/
theorem namedRule_of_unknown (h : name.kind = .literal → name.value ∉ atRuleNames) :
    namedRule bodies dialect name =
      fail fun _ _ => .expectedAt "'charset', 'import', 'media' or 'page'".toList name := by
  have hnot {text : Text} (htext : text ∈ atRuleNames) : name.isLiteral text = false := by
    rw [← Bool.not_eq_true, Token.isLiteral, Bool.and_eq_true, beq_iff_eq, beq_iff_eq]
    rintro ⟨hkind, rfl⟩
    exact h hkind htext
  rw [namedRule, hnot (by decide), hnot (by decide), hnot (by decide), hnot (by decide)]
  rfl

/-- With a sign and a token behind it, the rule is the one for that token. -/
theorem atRule_run_of_sign (hrest : dropTrivia rest = sign :: name :: later) (hat : sign.isAt) :
    (atRule bodies dialect).run region rest = (namedRule bodies dialect name).run region rest := by
  unfold atRule
  dsimp only
  rw [hrest]
  dsimp only
  rw [if_pos hat]

/-! ## Rules that have begun -/

/-- Every failure of the parser is one of a sequence that had begun. -/
def FailsBegun {α : Type} (p : Parser α) : Prop :=
  ∀ region rest error next, p.run region rest = ⟨.failed error, next⟩ → error.isPartial

section Begun

variable {α β : Type} {p : Parser α}

/-- A value does not fail. -/
theorem failsBegun_pure (a : α) : FailsBegun (pure a : Parser α) := by
  intro region rest error next h
  cases h

/-- A later step fails in a sequence that had begun. -/
theorem failsBegun_step (index : Nat) (p : Parser α) : FailsBegun (step (index + 1) p) := by
  intro region rest error next h
  unfold step at h
  dsimp only at h
  generalize p.run region rest = reply at h
  rcases reply with ⟨value | cause | _, middle⟩ <;> cases h
  rfl

/-- A sequence of parsers that fail so fails so. -/
theorem FailsBegun.bind (hp : FailsBegun p) {following : α → Parser β}
    (h : ∀ a, FailsBegun (following a)) : FailsBegun (p >>= following) := by
  intro region rest error next hrun
  rw [run_bind] at hrun
  rcases hfirst : p.run region rest with ⟨value | cause | _, middle⟩
  · rw [hfirst] at hrun
    exact h value _ _ _ _ hrun
  · rw [hfirst] at hrun
    cases hrun
    exact hp _ _ _ _ hfirst
  · rw [hfirst] at hrun
    cases hrun

/-- Behind its sign and its name a rule fails as one that had begun. -/
theorem isPartial_of_signed {text : Text} {following : Token → Parser α}
    {build : α × Excerpt → Node} (hrest : dropTrivia rest = sign :: name :: later) (hat : sign.isAt)
    (hname : name.isLiteral text) (hfollowing : ∀ word, FailsBegun (following word))
    (h : (Parser.capture (Parser.attempt
      (symbol ['@'] >>= fun _ => step 1 (keyword text) >>= following)) >>= fun captured =>
        pure (build captured)).run region rest = ⟨.failed error, next⟩) : error.isPartial := by
  have hsign : (symbol ['@']).run region rest = ⟨.ok ['@'], name :: later⟩ := by
    refine symbol_run_eq_ok.mpr ⟨rfl, ?_⟩
    rw [hrest]
    exact afterSymbols_of_isSymbol hat _
  have hsignificant : name.isSignificant := by
    rw [Token.isLiteral, Bool.and_eq_true, beq_iff_eq] at hname
    exact isSignificant_of_kind (by rw [hname.1]; rfl)
  have hword : (step 1 (keyword text)).run region (name :: later) = ⟨.ok name, later⟩ :=
    step_run_eq_ok.mpr (tokenWhere_run_eq_ok.mpr ⟨dropTrivia_cons hsignificant later, hname⟩)
  have hparts : (symbol ['@'] >>= fun _ => step 1 (keyword text) >>= following).run region rest =
      (following name).run region later := by
    rw [run_bind, hsign]
    dsimp only
    rw [run_bind, hword]
  rw [run_bind, Parser.capture, Parser.attempt] at h
  dsimp only at h
  rw [hparts] at h
  rcases hlast : (following name).run region later with ⟨value | cause | _, middle⟩
  · rw [hlast] at h
    cases h
  · rw [hlast] at h
    cases h
    exact hfollowing name _ _ _ _ hlast
  · rw [hlast] at h
    cases h

end Begun

/-- The rule for a known name fails as one that had begun. -/
theorem isPartial_of_namedRule (hrest : dropTrivia rest = sign :: name :: later)
    (hat : sign.isAt) (hkind : name.kind = .literal) (hname : name.value ∈ atRuleNames)
    (h : (namedRule bodies dialect name).run region rest = ⟨.failed error, next⟩) :
    error.isPartial := by
  unfold namedRule at h
  split_ifs at h with hcharset himport hmedia hpage
  · exact isPartial_of_signed hrest hat hcharset
      (fun _ => (failsBegun_step 1 _).bind fun _ => (failsBegun_step 2 _).bind fun _ =>
        failsBegun_pure _) h
  · exact isPartial_of_signed hrest hat himport
      (fun _ => (failsBegun_step 1 _).bind fun _ => (failsBegun_step 2 _).bind fun _ =>
        (failsBegun_step 3 _).bind fun _ => failsBegun_pure _) h
  · exact isPartial_of_signed hrest hat hmedia
      (fun _ => (failsBegun_step 1 _).bind fun _ => (failsBegun_step 2 _).bind fun _ =>
        failsBegun_pure _) h
  · exact isPartial_of_signed hrest hat hpage
      (fun _ => (failsBegun_step 1 _).bind fun _ => (failsBegun_step 2 _).bind fun _ =>
        failsBegun_pure _) h
  · obtain ⟨text, htext, hliteral⟩ := (mem_atRuleNames_iff hkind).mp hname
    simp only [atRuleNames, List.mem_cons, List.not_mem_nil, or_false] at htext
    rcases htext with rfl | rfl | rfl | rfl
    · exact absurd hliteral hcharset
    · exact absurd hliteral himport
    · exact absurd hliteral hmedia
    · exact absurd hliteral hpage

/-! ## Names as a whole -/

/-- A literal behind the sign is the first part of the name. -/
theorem nameParts_of_literal (hkind : name.kind = .literal) (later : List Token) :
    nameParts (name :: later) = name :: nameParts later := by
  rw [nameParts, List.takeWhile_cons_of_pos (by simp [isNamePart, hkind])]
  rfl

/-- A rule is read under a known name alone. -/
theorem exists_known_of_atRule (h : (atRule bodies dialect).run region rest = ⟨.ok node, next⟩) :
    ∃ sign name later, dropTrivia rest = sign :: name :: later ∧ sign.isAt ∧
      name.kind = .literal ∧ name.value ∈ atRuleNames := by
  obtain ⟨sign, name, later, hrest, hat, hrun⟩ := atRule_run_eq_ok.mp h
  by_contra hnone
  have hunknown : name.kind = .literal → name.value ∉ atRuleNames := fun hkind hname =>
    hnone ⟨sign, name, later, hrest, hat, hkind, hname⟩
  rw [namedRule_of_unknown hunknown] at hrun
  cases hrun

/-- At-rules take names as a whole but for those that go on behind a known one. -/
theorem takesWholeNames_iff (bodies : Bodies) (dialect : Dialect) (region : Region)
    (rest : List Token) :
    TakesWholeNames bodies dialect region rest ↔ ¬ ContinuesKnownName rest := by
  constructor
  · rintro hwhole ⟨sign, first, later, hrest, hat, hkind, hname, hmore⟩
    have hunknown : spelling (nameParts (first :: later)) ∉ atRuleNames := by
      rw [nameParts_of_literal hkind, spelling_cons]
      exact fun hmem => hmore (eq_nil_of_append_mem hname hmem)
    rcases hrun : (atRule bodies dialect).run region rest with ⟨node | error | _, next⟩
    · obtain ⟨sign', following, hrest', -, hmem⟩ := hwhole.known hrun
      obtain ⟨-, rfl⟩ := List.cons.inj (hrest.symm.trans hrest')
      exact hunknown hmem
    · obtain ⟨wanted, hrefused⟩ := hwhole.unknown hrest hat hunknown
      cases hrun.symm.trans hrefused
      rw [atRule_run_of_sign hrest hat] at hrun
      cases isPartial_of_namedRule hrest hat hkind hname hrun
    · obtain ⟨wanted, hrefused⟩ := hwhole.unknown hrest hat hunknown
      cases hrun.symm.trans hrefused
  · intro hends
    have hnothing {sign first : Token} {later : List Token}
        (hrest : dropTrivia rest = sign :: first :: later) (hat : sign.isAt)
        (hkind : first.kind = .literal) (hname : first.value ∈ atRuleNames) :
        spelling (nameParts (first :: later)) = first.value := by
      have hlater : spelling (nameParts later) = [] := by
        by_contra hmore
        exact hends ⟨sign, first, later, hrest, hat, hkind, hname, hmore⟩
      rw [nameParts_of_literal hkind, spelling_cons, hlater, List.append_nil]
    constructor
    · intro node next hrun
      obtain ⟨sign, name, later, hrest, hat, hkind, hname⟩ := exists_known_of_atRule hrun
      exact ⟨sign, name :: later, hrest, hat, (hnothing hrest hat hkind hname).symm ▸ hname⟩
    · intro sign first later hrest hat hunknown
      have hrefused : namedRule bodies dialect first = _ := namedRule_of_unknown
        fun hkind hname => hunknown ((hnothing hrest hat hkind hname).symm ▸ hname)
      exact ⟨_, by rw [atRule_run_of_sign hrest hat, hrefused]; rfl⟩

/-- A rule is read under a longer name than that of media rules, and one under a longer name than
that of character sets fails behind its sign and its first part. -/
theorem not_takesWholeNames_dashes :
    let media : List Token := [⟨.symbol, ['@'], ⟨1, 1⟩⟩, ⟨.literal, "media".toList, ⟨1, 2⟩⟩,
      ⟨.symbol, ['-'], ⟨1, 7⟩⟩, ⟨.literal, ['x'], ⟨1, 8⟩⟩, ⟨.lazyBlock, "\x7b\x7d".toList, ⟨1, 9⟩⟩]
    let charset : List Token := [⟨.symbol, ['@'], ⟨1, 1⟩⟩, ⟨.literal, "charset".toList, ⟨1, 2⟩⟩,
      ⟨.symbol, ['-'], ⟨1, 9⟩⟩, ⟨.literal, ['x'], ⟨1, 10⟩⟩]
    tokensOf {} "@media-x\x7b\x7d".toList .start = .ok media ∧
      ((atRule (.within 10) .css).run ⟨{}, ⟨1, 11⟩⟩ media).outcome =
        .ok (.block (.media ⟨"-x".toList, ⟨1, 7⟩⟩) [] ⟨"@media-x\x7b\x7d".toList, ⟨1, 1⟩⟩) ∧
      ¬ TakesWholeNames (.within 10) .css ⟨{}, ⟨1, 11⟩⟩ media ∧
      tokensOf {} "@charset-x".toList .start = .ok charset ∧
      ((atRule (.within 10) .css).run ⟨{}, ⟨1, 11⟩⟩ charset).outcome =
        .failed ((ParseError.leaf (.expected "string".toList ['-']) ⟨1, 9⟩).within (.step 2)) ∧
      ¬ TakesWholeNames (.within 10) .css ⟨{}, ⟨1, 11⟩⟩ charset := by
  intro media charset
  have hmedia : ((atRule (.within 10) .css).run ⟨{}, ⟨1, 11⟩⟩ media).outcome =
      .ok (.block (.media ⟨"-x".toList, ⟨1, 7⟩⟩) [] ⟨"@media-x\x7b\x7d".toList, ⟨1, 1⟩⟩) := by
    decide +kernel
  have hcharset : ((atRule (.within 10) .css).run ⟨{}, ⟨1, 11⟩⟩ charset).outcome =
      .failed ((ParseError.leaf (.expected "string".toList ['-']) ⟨1, 9⟩).within (.step 2)) := by
    decide +kernel
  refine ⟨by decide +kernel, hmedia, fun h => ?_, by decide +kernel, hcharset, fun h => ?_⟩
  · obtain ⟨wanted, hrefused⟩ := h.unknown rfl rfl (by decide)
    cases (congrArg Reply.outcome hrefused).symm.trans hmedia
  · obtain ⟨wanted, hrefused⟩ := h.unknown rfl rfl (by decide)
    cases (congrArg Reply.outcome hrefused).symm.trans hcharset

end StyleSyntax.Grammar
