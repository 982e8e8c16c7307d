import StyleSyntax.Proofs.Lexer.Lexemes
import StyleSyntax.Proofs.RuleSet.Model

/-!
# The tokens of rule sets

The text of a rule set is made of lexemes, unless the body of a comment begins with a slash. Gaps
become trivia, and names and words become literals and single signs.
-/

namespace StyleSyntax.RuleSet

variable {text next : Text} {tokens : List Token}

/-- No comment of the gap has a body that begins with a slash. -/
def Gap.IsClear (gap : Gap) : Prop :=
  ∀ part ∈ gap, part.endsEarly = false

/-- A token of a word: a literal, or a sign that is no literal character. -/
def isWordToken (token : Token) : Prop :=
  token.kind = .literal ∨
    token.kind = .symbol ∧ ∃ c, token.value = [c] ∧ Reader.isLiteralChar c = false

/-- A character of a word is a literal character or one of a few signs. -/
theorem isLiteralChar_or_mem {c : Char} (h : isWordChar c) :
    Reader.isLiteralChar c ∨ c ∈ ['-', '.', '+', '%', '#'] := by
  simp only [isWordChar, isNameChar, List.contains_eq_mem, Bool.or_eq_true, Bool.and_eq_true,
    beq_iff_eq, decide_eq_true_eq] at h
  rcases h with (rfl | hliteral) | hsign
  · exact .inr List.mem_cons_self
  · exact .inl hliteral.1
  · exact .inr (List.mem_cons_of_mem _ hsign)

/-- A word is split into literals and single signs. -/
theorem exists_units (h : Lexes (text ++ next) tokens) (htext : ∀ c ∈ text, isWordChar c)
    (hnext : ∀ c ∈ next.head?, Reader.isLiteralChar c = false) :
    ∃ units later, tokens = units ++ later ∧ Lexes next later ∧ spelling units = text ∧
      ∀ unit ∈ units, isWordToken unit := by
  induction hlength : text.length using Nat.strong_induction_on generalizing text tokens with
  | _ n ih =>
    obtain ⟨run, rest, rfl, hrun, hhead⟩ := exists_run Reader.isLiteralChar text
    rw [List.forall_mem_append] at htext
    have hlater {unit : Token} {more : Text} {following : List Token} (hunit : isWordToken unit)
        (hmore : ∀ c ∈ more, isWordChar c) (hlt : more.length < n)
        (hfollowing : Lexes (more ++ next) following) :
        ∃ units later, unit :: following = units ++ later ∧ Lexes next later ∧
          spelling units = unit.value ++ more ∧ ∀ unit ∈ units, isWordToken unit := by
      obtain ⟨units, later, rfl, hlexes, hspelling, hunits⟩ := ih _ hlt hfollowing hmore rfl
      exact ⟨unit :: units, later, rfl, hlexes, by rw [spelling_cons, hspelling],
        List.forall_mem_cons.mpr ⟨hunit, hunits⟩⟩
    cases run with
    | cons c run =>
      have hword : IsLexeme .literal (c :: run) (rest ++ next) := by
        refine .word (List.cons_ne_nil _ _) hrun ?_
        cases rest with
        | nil => exact hnext
        | cons d rest => exact hhead
      rw [List.append_assoc] at h
      obtain ⟨position, following, rfl, hfollowing⟩ := hword.exists_of_lexes h
      refine hlater (.inl rfl) htext.2 ?_ hfollowing
      simp only [← hlength, List.length_append, List.length_cons]
      omega
    | nil =>
      cases rest with
      | nil => exact ⟨[], tokens, rfl, h, rfl, by simp⟩
      | cons c rest =>
        rw [List.forall_mem_cons] at htext
        have hc : Reader.isLiteralChar c = false := hhead c rfl
        have hsign : IsLexeme .symbol [c] (rest ++ next) := by
          have hmem := (isLiteralChar_or_mem htext.2.1).resolve_left (by simp [hc])
          have hsymbols : ∀ d ∈ ['-', '.', '+', '%', '#'],
              ({} : LexerConfig).isSymbol d ∧ isSolid d := List.all_iff_forall_prop.mp (by decide)
          exact .sign (hsymbols c hmem).1 (hsymbols c hmem).2 _
        obtain ⟨position, following, rfl, hfollowing⟩ := hsign.exists_of_lexes h
        refine hlater (.inr ⟨rfl, c, rfl, hc⟩) htext.2.2 ?_ hfollowing
        simp only [← hlength, List.nil_append, List.length_cons]
        omega

/-- A gap in front of a text changes its leading trivia alone. -/
theorem exists_of_gap {gap : Gap} (hgap : gap.IsClear) (h : Lexes (gap.text ++ next) tokens) :
    ∃ later, Lexes next later ∧ dropTrivia tokens = dropTrivia later := by
  induction gap generalizing tokens with
  | nil => exact ⟨tokens, h, rfl⟩
  | cons part gap ih =>
    rw [Gap.IsClear, List.forall_mem_cons] at hgap
    rw [Gap.text, List.flatMap_cons, List.append_assoc, ← Gap.text] at h
    have hpart : ∃ following, Lexes (Gap.text gap ++ next) following ∧
        dropTrivia tokens = dropTrivia following := by
      cases part with
      | space c hspace => exact h.exists_of_space hspace
      | comment body hend =>
        have hslash : body.head? ≠ some '/' := by simpa [GapPart.endsEarly] using hgap.1
        obtain ⟨position, following, rfl, hfollowing⟩ :=
          (IsLexeme.blockComment hend hslash _).exists_of_lexes h
        exact ⟨following, hfollowing, rfl⟩
    obtain ⟨following, hfollowing, hdrop⟩ := hpart
    obtain ⟨later, hlater, hdrop'⟩ := ih hgap.2 hfollowing
    exact ⟨later, hlater, hdrop.trans hdrop'⟩

/-- Characters of words are regular. -/
theorem isRegularChar_of_isWordChar {c : Char} (h : isWordChar c) : isRegularChar c := by
  rcases isLiteralChar_or_mem h with hliteral | hsign
  · simp [isRegularChar, hliteral]
  · have hsigns : ∀ d ∈ ['-', '.', '+', '%', '#'], isRegularChar d :=
      List.all_iff_forall_prop.mp (by decide)
    exact hsigns c hsign

/-- Characters of names are characters of words. -/
theorem isWordChar_of_isNameChar {c : Char} (h : isNameChar c) : isWordChar c := by
  simp [isWordChar, h]

/-- Names are regular. -/
theorem Name.isRegular (name : Name) : IsRegular name.text :=
  .of_forall fun _ hc =>
    isRegularChar_of_isWordChar (isWordChar_of_isNameChar (name.isNameChar_of_mem hc))

/-- Gaps are regular when no comment in them ends early. -/
theorem Gap.isRegular {gap : Gap} (h : gap.IsClear) : IsRegular gap.text := by
  refine .flatMap fun part hpart => ?_
  cases part with
  | space c hspace => exact .char (by simp [isRegularChar, hspace])
  | comment body hend => exact .blockComment hend (by simpa [GapPart.endsEarly] using h _ hpart)

/-- Compounds are regular. -/
theorem Compound.isRegular (compound : Compound) : IsRegular compound.text := by
  refine .append ?_ (.flatMap fun piece _ => ?_)
  · cases compound.element with
    | none => exact .nil
    | some element => exact element.isRegular
  · have hsign : isRegularChar piece.sign.char := by cases piece.sign <;> decide
    exact (IsRegular.char hsign).append piece.name.isRegular

/-- Joints are regular. -/
theorem Joint.isRegular (joint : Joint) : IsRegular joint.text := by
  have hspace : IsRegular [' '] := .char (by decide)
  cases joint with
  | space => exact hspace
  | tight => exact .char (by decide)
  | spaced sign hsign =>
    have hsigns : ∀ d ∈ ['>', '+', '~'], isRegularChar d := List.all_iff_forall_prop.mp (by decide)
    exact hspace.append ((IsRegular.char (hsigns sign hsign)).append hspace)

/-- Chains of compounds are regular. -/
theorem Complex.isRegular (complex : Complex) : IsRegular complex.text :=
  complex.first.isRegular.append <| .flatMap fun (joint, compound) _ =>
    joint.isRegular.append compound.isRegular

/-- Words are regular. -/
theorem Word.isRegular (word : Word) : IsRegular word.text := by
  cases word with
  | plain text _ hword =>
    exact .of_forall fun c hc => isRegularChar_of_isWordChar (List.all_eq_true.mp hword c hc)
  | interpolation name => exact (IsRegular.char (c := '$') (by decide)).append name.isRegular.braces

/-- No comment between the parts of the declaration ends early. -/
structure Declaration.IsClear (declaration : Declaration) : Prop where
  beforeColon : declaration.beforeColon.IsClear
  afterColon : declaration.afterColon.IsClear
  after : declaration.after.IsClear

/-- Values are regular. -/
theorem Declaration.isRegular_value (declaration : Declaration) : IsRegular declaration.value :=
  declaration.first.isRegular.append <| .flatMap fun word _ =>
    (IsRegular.char (c := ' ') (by decide)).append word.isRegular

/-- Declarations are regular. -/
theorem Declaration.isRegular {declaration : Declaration} (h : declaration.IsClear) :
    IsRegular declaration.text := by
  have hcolon : IsRegular [':'] := .char (by decide)
  exact ((declaration.property.isRegular.append (Gap.isRegular h.beforeColon)).append
    (hcolon.append (Gap.isRegular h.afterColon))).append declaration.isRegular_value

/-- Declarations one after another are regular. -/
theorem isRegular_declarationsText {declarations : List Declaration}
    (h : ∀ declaration ∈ declarations, declaration.IsClear) (lastSemicolon : Bool) :
    IsRegular (declarationsText lastSemicolon declarations) := by
  have hsemicolon : IsRegular [';'] := .char (by decide)
  fun_induction declarationsText lastSemicolon declarations with
  | case1 => exact .nil
  | case2 declaration =>
    have hdeclaration := h _ List.mem_cons_self
    refine ((Declaration.isRegular hdeclaration).append ?_).append
      (Gap.isRegular hdeclaration.after)
    split_ifs
    · exact hsemicolon
    · exact .nil
  | case3 declaration next rest ih =>
    rw [List.forall_mem_cons] at h
    exact ((Declaration.isRegular h.1).append
      (hsemicolon.append (Gap.isRegular h.1.after))).append (ih h.2)

/-- Selectors with commas between them are regular. -/
theorem RuleParts.isRegular_selectorsText (parts : RuleParts) : IsRegular parts.selectorsText :=
  have hcomma : IsRegular [',', ' '] := .of_forall (List.all_iff_forall_prop.mp (by decide))
  parts.first.isRegular.append <| .flatMap fun complex _ => hcomma.append complex.isRegular

/-- No comment of the rule ends early. -/
structure RuleParts.IsClear (parts : RuleParts) : Prop where
  openGap : parts.openGap.IsClear
  closeGap : parts.closeGap.IsClear
  declarations : ∀ declaration ∈ parts.declarations, declaration.IsClear

/-- No comment of a rule ends early when none in its gaps does. -/
theorem RuleParts.isClear_of_gaps {parts : RuleParts}
    (h : ∀ gap ∈ parts.gaps, ∀ part ∈ gap, part.endsEarly = false) : parts.IsClear := by
  rw [gaps, List.forall_mem_cons, List.forall_mem_cons] at h
  obtain ⟨hopen, hclose, hgaps⟩ := h
  refine ⟨hopen, hclose, fun declaration hdeclaration => ?_⟩
  have hmem {gap : Gap}
      (hgap : gap ∈ [declaration.beforeColon, declaration.afterColon, declaration.after]) :
      gap.IsClear :=
    hgaps gap (List.mem_flatMap.mpr ⟨declaration, hdeclaration, hgap⟩)
  exact ⟨hmem (by simp), hmem (by simp), hmem (by simp)⟩

/-- The text of rules is regular when the text of each is. -/
theorem isRegular_rulesText {rules : List Rule} (h : ∀ rule ∈ rules, IsRegular rule.text) :
    IsRegular (rulesText rules) := by
  rw [rulesText_eq_flatMap]
  exact .flatMap fun rule hrule => (h rule hrule).append (.char (by decide))

/-- What stands between the braces of a rule is regular when no comment directly in the rule ends
early and the nested rules are regular. -/
theorem RuleParts.isRegular_body {parts : RuleParts} {nested : List Rule} (hparts : parts.IsClear)
    (hnested : ∀ rule ∈ nested, IsRegular rule.text) (lastSemicolon : Bool) :
    IsRegular (declarationsText lastSemicolon parts.declarations ++ rulesText nested ++
      parts.closeGap.text) :=
  ((isRegular_declarationsText hparts.declarations lastSemicolon).append
    (isRegular_rulesText hnested)).append (Gap.isRegular hparts.closeGap)

/-- A rule is regular when no comment in it ends early. -/
theorem Rule.isRegular (rule : Rule) (h : ∀ parts ∈ rule.allParts, parts.IsClear) :
    IsRegular rule.text := by
  induction rule using Rule.induction with
  | mk parts nested ih =>
    rw [Rule.allParts, List.forall_mem_cons] at h
    have hbody := RuleParts.isRegular_body h.1
      (fun rule hrule => ih rule hrule fun parts hmem => h.2 parts (mem_allPartsOf hrule hmem))
      (!nested.isEmpty || parts.lastSemicolon)
    rw [Rule.text, List.append_assoc]
    exact (parts.isRegular_selectorsText.append (Gap.isRegular h.1.openGap)).append hbody.braces

end StyleSyntax.RuleSet
