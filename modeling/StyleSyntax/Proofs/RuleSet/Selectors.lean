import StyleSyntax.Proofs.RuleSet.Compounds

/-!
# Selectors are read as they are written

Behind a compound stands a joint with another one, or a gap with a comma or with the braces of the
rule. So chains of compounds and lists of chains are read from the end: each element in front of
what is read behind it.
-/

namespace StyleSyntax.RuleSet

open StyleSyntax.Parser StyleSyntax.Grammar

variable {next gap : Text} {dialect : Dialect}

/-- What may stand behind a selector: a gap, and then a comma or the braces of the rule. -/
def EndsSelector (next : Text) : Prop :=
  ∃ (gap : Gap) (c : Char) (rest : Text), gap.IsClear ∧ c ∈ [',', '\x7b'] ∧
    next = gap.text ++ c :: rest

/-- What stands behind a selector ends its last compound. -/
theorem EndsSelector.endsCompound (h : EndsSelector next) (dialect : Dialect) :
    EndsCompound dialect next := by
  obtain ⟨gap, c, rest, hgap, hc, rfl⟩ := h
  constructor
  · have hends : ∀ d ∈ [',', '\x7b'], Reader.isLiteralChar d = false ∧ d ≠ '-' ∧ d ≠ '(' :=
      List.all_iff_forall_prop.mp (by decide)
    refine gap.endsName ?_
    rintro d ⟨rfl⟩
    exact hends c hc
  · have hends : ∀ d ∈ [',', '\x7b'], isSolid d ∧ d ∉ ['#', '.', '[', ':'] :=
      List.all_iff_forall_prop.mp (by decide)
    refine refusesText_after_noSpacesHere fun region tokens hregion htokens _ => ?_
    exact subclassSelector_refuses (Gap.isGapText hgap) (.cons (hends c hc) rest) dialect hregion
      htokens

/-- A joint with a compound behind it ends the compound before it. -/
theorem Joint.endsCompound (joint : Joint) (dialect : Dialect) (next : Text) :
    EndsCompound dialect (joint.text ++ next) := by
  have hspace (rest : Text) : EndsCompound dialect (' ' :: rest) := by
    refine ⟨?_, (RefusesText.bind noSpacesHere_refuses _)⟩
    rintro d ⟨rfl⟩
    decide
  cases joint with
  | space => exact hspace _
  | spaced sign hsign => exact hspace _
  | tight =>
    constructor
    · rintro d ⟨rfl⟩
      decide
    · refine refusesText_after_noSpacesHere fun region tokens hregion htokens _ => ?_
      exact subclassSelector_refuses .nil (.cons (by decide) next) dialect hregion htokens

/-- The sign of a joint with the whitespace before it. -/
def Joint.opening : Joint → Text
  | space => [' ']
  | spaced sign _ => [' ', sign]
  | tight => ['>']

/-- The whitespace behind the sign of a joint. -/
def Joint.closing : Joint → Text
  | space | tight => []
  | spaced .. => [' ']

/-- A joint is its sign and the whitespace around it. -/
theorem Joint.text_eq (joint : Joint) : joint.text = joint.opening ++ joint.closing := by
  cases joint <;> rfl

/-- The whitespace behind a sign is a gap. -/
theorem Joint.isGapText_closing (joint : Joint) : IsGapText joint.closing := by
  cases joint with
  | space => exact .nil
  | tight => exact .nil
  | spaced => exact .space

/-- A combinator is refused where a compound begins behind the gap. -/
theorem combinator_refuses_compound (hgap : IsGapText gap)
    (htext : BeginsWith (isCompoundStart ·) text) : combinator.RefusesText (gap ++ text) := by
  refine oneOfSymbols_refuses hgap (htext.mono fun c hc => ?_)
  obtain ⟨hsolid, hne⟩ := isSolid_of_isCompoundStart hc
  refine ⟨hsolid, fun candidate hcandidate => ?_⟩
  simp only [List.mem_cons, List.not_mem_nil, or_false, not_or] at hcandidate hne
  rcases hcandidate with rfl | rfl | rfl
  · exact ⟨'>', [], rfl, Ne.symm hne.1⟩
  · exact ⟨'+', [], rfl, Ne.symm hne.2.1⟩
  · exact ⟨'~', [], rfl, Ne.symm hne.2.2.1⟩

/-- The sign of a joint is read in front of a compound. -/
theorem reads_joint (joint : Joint) (hnext : BeginsWith (isCompoundStart ·) next) :
    Grammar.joint.Reads joint.opening (joint.closing ++ next) fun _ => True := by
  have hsign {gap : Text} {c : Char} (hc : c ∈ ['>', '+', '~']) (hgap : IsGapText gap)
      (next : Text) : Grammar.joint.Reads (gap ++ [c]) next fun _ => True := by
    have hsymbol : ∀ d ∈ ['>', '+', '~'], ({} : LexerConfig).isSymbol d ∧ isSolid d ∧
        [d] ∈ [['>'], ['+'], ['~']] := List.all_iff_forall_prop.mp (by decide)
    obtain ⟨hsymbol, hsolid, hmem⟩ := hsymbol c hc
    exact (reads_oneOfSymbols hgap hsymbol hsolid hmem (by simp) (by simp)).firstOf (fun _ => rfl) _
  cases joint with
  | space =>
    refine Reads.firstOf_of_declines (combinator_refuses_compound .space hnext).declines ?_
    have hsolid : BeginsWith (isSolid ·) next :=
      hnext.mono fun c hc => (isSolid_of_isCompoundStart hc).1
    exact ((reads_trivia hsolid).mono fun _ _ => trivial).map.firstOf (fun _ => rfl) []
  | spaced sign hmem => exact hsign hmem .space _
  | tight => exact hsign (by simp) .nil _

/-- No further compound is found in front of what ends a selector. -/
theorem reads_separated_nil (hnext : EndsSelector next) (dialect : Dialect) :
    (separated Grammar.joint (compoundSelector dialect)).Reads [] next (· = []) := by
  obtain ⟨gap, c, rest, hgap, hc, rfl⟩ := hnext
  have hends : ∀ d ∈ [',', '\x7b'], isSolid d ∧ Reader.isLiteralChar d = false ∧
      d ∉ ['-', '*', '&', '#', '.', '[', ':'] ∧ d ∉ ['>', '+', '~'] :=
    List.all_iff_forall_prop.mp (by decide)
  obtain ⟨hsolid, hliteral, hcompound, hsign⟩ := hends c hc
  refine Reads.separated_nil (fun _ => rfl) fun region tokens hregion htokens => ?_
  obtain ⟨_, token, later, _, _, hdrop, hlater, _⟩ :=
    (Gap.isGapText hgap).exists_significant (.cons hsolid rest) htokens
  have hcombinator : combinator.Declines region tokens := by
    refine (oneOfSymbols_refuses (Gap.isGapText hgap) (.cons ⟨hsolid, ?_⟩ rest)).declines hregion
      htokens
    simp only [List.mem_cons, List.not_mem_nil, or_false, not_or] at hsign
    simp [Ne.symm hsign.1, Ne.symm hsign.2.1, Ne.symm hsign.2.2]
  rcases trivia_run_cases region tokens with ⟨found, hrun⟩ | hrefuses
  · refine .inr ⟨[' '], dropTrivia tokens, ?_, ?_⟩
    · refine firstOf_cons_run_eq_ok.mpr (.inr ⟨hcombinator, ?_⟩)
      exact firstOf_cons_run_eq_ok.mpr (.inl ⟨rfl, map_run_eq_ok.mpr ⟨found, hrun, rfl⟩⟩)
    · rw [hdrop]
      exact compoundSelector_refuses .nil (.cons ⟨hsolid, hliteral, hcompound⟩ rest) dialect hregion
        hlater
  · refine .inl (refuses_firstOf ?_)
    simp only [List.forall_mem_cons, List.not_mem_nil, false_implies, implies_true, and_true]
    exact ⟨hcombinator, fun _ => hrefuses.map _⟩

/-- The compounds of a chain behind its first one, as written. -/
def joinedText (others : List (Joint × Compound)) : Text :=
  others.flatMap fun (joint, compound) => joint.text ++ compound.text

/-- A further compound, or what ends the selector, ends the compound before it. -/
theorem endsCompound_joinedText (others : List (Joint × Compound)) (hnext : EndsSelector next)
    (dialect : Dialect) : EndsCompound dialect (joinedText others ++ next) := by
  cases others with
  | nil => exact hnext.endsCompound dialect
  | cons first others =>
    obtain ⟨joint, compound⟩ := first
    rw [joinedText, List.flatMap_cons, List.append_assoc, List.append_assoc]
    exact joint.endsCompound dialect _

/-- The compounds behind the first one of a chain are read. -/
theorem reads_separated (others : List (Joint × Compound)) (hnext : EndsSelector next)
    (dialect : Dialect) :
    (separated Grammar.joint (compoundSelector dialect)).Reads (joinedText others) next
      fun _ => True := by
  induction others with
  | nil => exact (reads_separated_nil hnext dialect).mono fun _ _ => trivial
  | cons first others ih =>
    obtain ⟨joint, compound⟩ := first
    have htext : joinedText ((joint, compound) :: others) =
        joint.opening ++ ((joint.closing ++ compound.text) ++ joinedText others) := by
      simp only [joinedText, List.flatMap_cons, joint.text_eq, List.append_assoc]
    have hjoint : Grammar.joint.Reads joint.opening
        (joint.closing ++ compound.text ++ (joinedText others ++ next)) fun _ => True := by
      rw [List.append_assoc]
      exact reads_joint joint (compound.beginsWith.append _)
    have hne : joint.closing ++ compound.text ≠ [] := by
      obtain ⟨c, rest, hcompound, _⟩ := compound.beginsWith.exists_cons
      simp [hcompound]
    rw [htext]
    exact (Reads.separated_cons (fun _ => rfl) (fun _ => rfl) hne hjoint
      (reads_compoundSelector compound joint.isGapText_closing
        (endsCompound_joinedText others hnext dialect)) ih).mono fun _ _ => trivial

/-- A chain of compounds is read. -/
theorem reads_selectorFragments (complex : Complex) (hgap : IsGapText gap)
    (hnext : EndsSelector next) (dialect : Dialect) :
    (selectorFragments dialect).Reads (gap ++ complex.text) next fun _ => True := by
  have hfirst := reads_compoundSelector complex.first hgap
    (endsCompound_joinedText complex.others hnext dialect)
  have hleading : (leadingCombinator dialect).Reads [] (gap ++ complex.text ++ next)
      fun _ => True := by
    cases dialect with
    | css => exact Reads.pure trivial
    | jss =>
      have hrefuses : combinator.RefusesText (gap ++ complex.text ++ next) := by
        rw [List.append_assoc]
        exact combinator_refuses_compound hgap
          (((complex.first.beginsWith).append _).append next)
      exact (Reads.optional_of_refuses hrefuses).bind_pure fun _ _ => trivial
  refine hleading.bind_nothing fun _ _ => ?_
  rw [Complex.text, ← List.append_assoc]
  exact hfirst.bind fun _ _ =>
    (reads_separated complex.others hnext dialect).bind_pure fun _ _ => trivial

/-- A selector is read with its text as its source. -/
theorem reads_selector (complex : Complex) (hgap : IsGapText gap) (hnext : EndsSelector next)
    (dialect : Dialect) :
    (selector dialect).Reads (gap ++ complex.text) next
      fun found => found.source.text = complex.text := by
  have hsolid : BeginsWith (isSolid ·) complex.text :=
    (complex.first.beginsWith.mono fun c hc => (isSolid_of_isCompoundStart hc).1).append _
  exact ((reads_selectorFragments complex hgap hnext dialect).capture hgap hsolid).bind_pure
    fun _ hcaptured => hcaptured.2

/-- What stands in front of the body of a rule: a gap and the braces. -/
def OpensBody (next : Text) : Prop :=
  ∃ (gap : Gap) (rest : Text), gap.IsClear ∧ next = gap.text ++ '\x7b' :: rest

/-- What opens a body ends a selector. -/
theorem OpensBody.endsSelector (h : OpensBody next) : EndsSelector next := by
  obtain ⟨gap, rest, hgap, rfl⟩ := h
  exact ⟨gap, '\x7b', rest, hgap, by simp, rfl⟩

/-- The selectors of a rule behind its first one, as written. -/
def furtherText (others : List Complex) : Text :=
  others.flatMap fun complex => ',' :: ' ' :: complex.text

/-- A further selector, or what opens the body, ends the selector before it. -/
theorem endsSelector_furtherText (others : List Complex) (hnext : OpensBody next) :
    EndsSelector (furtherText others ++ next) := by
  cases others with
  | nil => exact hnext.endsSelector
  | cons complex others => exact ⟨[], ',', _, by simp [Gap.IsClear], by simp, rfl⟩

/-- The selectors behind the first one are read. -/
theorem reads_further (others : List Complex) (hnext : OpensBody next) (dialect : Dialect) :
    (separated comma (selector dialect)).Reads (furtherText others) next fun found =>
      (found.map fun entry => entry.2.source.text) = others.map Complex.text := by
  induction others with
  | nil =>
    obtain ⟨gap, rest, hgap, rfl⟩ := hnext
    have hcomma : comma.RefusesText (gap.text ++ '\x7b' :: rest) := by
      refine tokenWhere_refusesText (Gap.isGapText hgap) (.cons ⟨by decide, ?_⟩ rest) _
      intro token hbegins
      rw [beq_eq_false_iff_ne]
      intro hkind
      rw [hkind] at hbegins
      cases hbegins
    refine (Reads.separated_nil (fun _ => rfl) fun region tokens hregion htokens =>
      .inl (hcomma hregion htokens)).mono ?_
    rintro found rfl
    rfl
  | cons complex others ih =>
    have htext : furtherText (complex :: others) =
        [','] ++ (([' '] ++ complex.text) ++ furtherText others) := by
      simp [furtherText]
    rw [htext]
    refine (Reads.separated_cons (fun _ => rfl) (fun _ => rfl) (by simp) (reads_comma .nil _)
      (reads_selector complex .space (endsSelector_furtherText others hnext) dialect) ih).mono ?_
    rintro found ⟨sign, first, more, rfl, hfirst, hmore⟩
    rw [List.map_cons, List.map_cons, hfirst, hmore]

/-- The selectors of a rule are read in front of its body, each with its text as its source. -/
theorem reads_selectorList (parts : RuleParts) (hnext : OpensBody next) (dialect : Dialect) :
    (selectorList dialect).Reads parts.selectorsText next fun found =>
      (found.map fun selector => selector.source.text) = parts.selectors := by
  have hfirst := reads_selector parts.first .nil (endsSelector_furtherText parts.others hnext)
    dialect
  refine (Reads.list (fun _ => rfl) hfirst (reads_further parts.others hnext dialect) false).mono ?_
  rintro found ⟨first, more, rfl, hsource, hmore⟩
  rw [List.map_cons, hsource, List.map_map]
  exact congrArg _ hmore

end StyleSyntax.RuleSet
