import StyleSyntax.Proofs.Grammar.IdentifierExtent
import StyleSyntax.Proofs.Parser.ReadsTokens
import StyleSyntax.Proofs.RuleSet.Tokens

/-!
# Names are read as identifiers

The parser of identifiers reads a name in front of a character that does not continue it, and
refuses to begin at any other character. Gaps end names.
-/

namespace StyleSyntax.RuleSet

open StyleSyntax.Parser StyleSyntax.Grammar

variable {text next gap : Text} {tokens : List Token}

/-- What follows neither continues a name nor opens the arguments of a pseudo class. -/
def EndsName (next : Text) : Prop :=
  ∀ c ∈ next.head?, Reader.isLiteralChar c = false ∧ c ≠ '-' ∧ c ≠ '('

/-- A character that a compound may begin with. -/
def isCompoundStart (c : Char) : Bool :=
  isNameChar c || ['.', '#', ':'].contains c

/-- A compound begins with no whitespace, no comment and none of the signs that stand between
compounds, selectors and statements. -/
theorem isSolid_of_isCompoundStart {c : Char} (h : isCompoundStart c) :
    isSolid c ∧ c ∉ ['>', '+', '~', ',', ';', '@', '\x7b'] := by
  have hnone : ∀ d ∈ ['/', '<', '>', '+', '~', ',', ';', '@', '\x7b'],
      isCompoundStart d = false := List.all_iff_forall_prop.mp (by decide)
  have hne : ∀ d ∈ ['/', '<', '>', '+', '~', ',', ';', '@', '\x7b'], c ≠ d := by
    rintro d hd rfl
    rw [hnone c hd] at h
    cases h
  have hspace : Reader.isSpace c = false := by
    simp only [isCompoundStart, isNameChar, Bool.or_eq_true, Bool.and_eq_true, beq_iff_eq,
      List.contains_eq_mem, decide_eq_true_eq] at h
    rcases h with (rfl | hliteral) | hsign
    · decide
    · exact Reader.isSpace_of_isLiteralChar hliteral.1
    · have hsigns : ∀ d ∈ ['.', '#', ':'], Reader.isSpace d = false :=
        List.all_iff_forall_prop.mp (by decide)
      exact hsigns c hsign
  simp only [List.mem_cons, List.not_mem_nil, or_false, forall_eq_or_imp, forall_eq] at hne
  simp [isSolid, hspace, hne]

/-- A name begins with a character of names. -/
theorem Name.beginsWith (name : Name) : BeginsWith (isNameChar ·) name.text := by
  obtain ⟨c, hc, _⟩ := List.any_eq_true.mp name.hasPart
  cases htext : name.text with
  | nil => simp [htext] at hc
  | cons d rest => exact .cons (name.isNameChar_of_mem (by simp [htext])) rest

/-- No character of a name is whitespace or begins a comment. -/
theorem isSolid_of_isNameChar {c : Char} (h : isNameChar c) : isSolid c :=
  (isSolid_of_isCompoundStart (by simp [isCompoundStart, h])).1

/-- A name is split into units of identifiers, one of them a literal. -/
theorem Name.exists_units (name : Name) (hnext : EndsName next)
    (h : Lexes (name.text ++ next) tokens) :
    ∃ units later, tokens = units ++ later ∧ Lexes next later ∧ spelling units = name.text ∧
      (∀ unit ∈ units, isUnit unit) ∧ ∃ unit ∈ units, unit.kind = .literal := by
  obtain ⟨units, later, rfl, hlater, hspelling, hunits⟩ :=
    RuleSet.exists_units h (fun c hc => isWordChar_of_isNameChar (name.isNameChar_of_mem hc))
      fun c hc => (hnext c hc).1
  have hchars : ∀ unit ∈ units, ∀ c ∈ unit.value, isNameChar c := by
    intro unit hunit c hc
    apply name.isNameChar_of_mem
    rw [← hspelling]
    exact List.mem_flatMap.mpr ⟨unit, hunit, hc⟩
  refine ⟨units, later, rfl, hlater, hspelling, fun unit hunit => ?_, ?_⟩
  · rcases hunits unit hunit with hliteral | ⟨hsymbol, c, hvalue, hc⟩
    · have hdollar : '$' ∉ unit.value := fun hmem => by cases hchars unit hunit '$' hmem
      simp [isUnit, Grammar.isName, hliteral, hdollar]
    · have hdash := hchars unit hunit c (by simp [hvalue])
      obtain rfl : c = '-' := by simpa [isNameChar, hc] using hdash
      simp [isUnit, isDashes, hsymbol, hvalue]
  · obtain ⟨c, hc, hne⟩ := List.any_eq_true.mp name.hasPart
    have hname := name.isNameChar_of_mem hc
    rw [← hspelling] at hc
    obtain ⟨unit, hunit, hmem⟩ := List.mem_flatMap.mp hc
    refine ⟨unit, hunit, (hunits unit hunit).resolve_right ?_⟩
    rintro ⟨_, d, hvalue, hd⟩
    obtain rfl : c = d := by simpa [hvalue] using hmem
    exact bne_iff_ne.mp hne (by simpa [isNameChar, hd] using hname)

/-- No identifier begins with a token that begins with another character. -/
theorem identifierLength_cons_of_begins (dialect : Dialect) {token : Token} {c : Char}
    (hvalue : token.value.head? = some c) (hbegins : token.kind.begins c)
    (hliteral : Reader.isLiteralChar c = false) (hdash : c ≠ '-') (later : List Token) :
    identifierLength dialect (token :: later) = 0 := by
  have hkind : token.kind ≠ .literal := by
    intro hkind
    rw [hkind, TokenKind.begins, hliteral] at hbegins
    cases hbegins
  refine identifierLength_cons_eq_zero dialect ?_ hkind later
  obtain ⟨rest, hrest⟩ := List.head?_eq_some_iff.mp hvalue
  simp [isUnit, isName, isDashes, hkind, hrest, hdash]

/-- No identifier begins in front of what ends a name. -/
theorem identifierLength_of_endsName (dialect : Dialect) (hnext : EndsName next)
    (h : Lexes next tokens) : identifierLength dialect tokens = 0 := by
  cases next with
  | nil =>
    rw [Lexes.nil_iff.mp h]
    rfl
  | cons c rest =>
    obtain ⟨token, later, rfl, hvalue, hbegins⟩ := h.exists_first
    obtain ⟨hliteral, hdash, _⟩ := hnext c rfl
    exact identifierLength_cons_of_begins dialect hvalue hbegins hliteral hdash later

/-- The parser of identifiers reads a name. -/
theorem reads_identifier (dialect : Dialect) (name : Name) (hnext : EndsName next) :
    (identifier dialect).Reads name.text next fun found => found.text = name.text := by
  intro region tokens _ htokens
  obtain ⟨units, later, rfl, hlater, hspelling, hunits, hliteral⟩ := name.exists_units hnext htokens
  have hlength : identifierLength dialect (units ++ later) = units.length := by
    rw [(isUnitRun_of_forall_isUnit hunits).identifierLength_append,
      identifierLength_of_endsName dialect hnext hlater, Nat.add_zero]
  have hdrop : dropTrivia (units ++ later) = units ++ later := by
    obtain ⟨c, rest, hname, hc⟩ := name.beginsWith.exists_cons
    rw [hname] at htokens
    obtain ⟨first, more, hfirst, hsignificant, _⟩ :=
      Lexes.exists_significant htokens (isSolid_of_isNameChar hc)
    rw [hfirst, dropTrivia_cons hsignificant]
  have hany : units.any fun token => token.kind == .literal :=
    List.any_eq_true.mpr (by simpa using hliteral)
  refine ⟨⟨spelling units, nextPosition (units ++ later) region.finish⟩, units, later, rfl, hlater,
    ?_, hspelling⟩
  unfold identifier
  dsimp only
  rw [hdrop, hlength, List.take_left, List.drop_left, if_pos hany]

/-- The parser of identifiers refuses what begins with another character behind the gap. -/
theorem identifier_refuses (dialect : Dialect) (hgap : IsGapText gap)
    (htext : BeginsWith (fun c => isSolid c ∧ Reader.isLiteralChar c = false ∧ c ≠ '-') text) :
    (identifier dialect).RefusesText (gap ++ text) := by
  intro region tokens _ htokens
  obtain ⟨c, hc, hsolid, hliteral, hdash⟩ := htext
  obtain ⟨_, token, later, _, _, hdrop, _, hfirst⟩ :=
    hgap.exists_significant ⟨c, hc, hsolid⟩ htokens
  obtain ⟨hvalue, hbegins⟩ := hfirst c hc
  refine ⟨region.expected "identifier".toList tokens, tokens, ?_, isBlock_expected region _ _⟩
  unfold identifier
  dsimp only
  rw [hdrop, identifierLength_cons_of_begins dialect hvalue hbegins hliteral hdash]
  rfl

/-- A name with something behind it begins with no whitespace and no comment. -/
theorem Name.beginsSolid (name : Name) (next : Text) :
    BeginsWith (isSolid ·) (name.text ++ next) :=
  (name.beginsWith.mono fun _ => isSolid_of_isNameChar).append next

/-- A gap is a gap in front of every text. -/
theorem Gap.isGapText {gap : Gap} (h : gap.IsClear) : IsGapText gap.text :=
  fun _ _ htokens => exists_of_gap h htokens

/-- A gap ends a name in front of what ends it. -/
theorem Gap.endsName (gap : Gap) (hnext : EndsName next) : EndsName (gap.text ++ next) := by
  cases gap with
  | nil => exact hnext
  | cons part gap =>
    cases part with
    | space c hspace =>
      rintro d ⟨rfl⟩
      refine ⟨?_, ?_, ?_⟩
      · by_contra hliteral
        rw [Bool.not_eq_false] at hliteral
        rw [Reader.isSpace_of_isLiteralChar hliteral] at hspace
        cases hspace
      · rintro rfl
        cases hspace
      · rintro rfl
        cases hspace
    | comment body _ =>
      rintro d ⟨rfl⟩
      decide

/-- A gap with a colon behind it ends the name of a property. -/
theorem Gap.endsName_colon (gap : Gap) (next : Text) : EndsName (gap.text ++ ':' :: next) := by
  refine gap.endsName ?_
  rintro c ⟨rfl⟩
  decide

end StyleSyntax.RuleSet
