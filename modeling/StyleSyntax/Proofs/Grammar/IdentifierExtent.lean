import StyleSyntax.Proofs.Grammar.DeclarationParts

/-!
# How far an identifier reaches

An identifier is made up of units: literals without a dollar sign, symbols of dashes, and in the
extended language interpolations, which are two tokens. It is the longest run of units behind the
gap, and it is accepted if a literal is among them. The parser counts tokens from the left and never
goes back, so the count has to agree with every other division of the tokens into units. A run of
the plain language is one of the extended language, where it may go on.
-/

namespace StyleSyntax.Grammar

open StyleSyntax.Parser

/-- A unit of an identifier. -/
inductive IsIdentifierUnit (dialect : Dialect) : List Token → Prop where
  | name {token : Token} : token.kind = .literal → '$' ∉ token.value →
      IsIdentifierUnit dialect [token]
  | dashes {token : Token} : token.kind = .symbol → (∀ c ∈ token.value, c = '-') →
      IsIdentifierUnit dialect [token]
  | interpolation {literal region : Token} {front : Text} : dialect = .jss →
      literal.kind = .literal → literal.value = front ++ ['$'] → '$' ∉ front →
      region.kind ∈ braces → IsIdentifierUnit dialect [literal, region]

/-- Units one right behind another. -/
inductive IsUnitRun (dialect : Dialect) : List Token → Prop where
  | nil : IsUnitRun dialect []
  | append {unit rest : List Token} : IsIdentifierUnit dialect unit → IsUnitRun dialect rest →
      IsUnitRun dialect (unit ++ rest)

/-- The longest run of units that the tokens begin with. -/
structure IsLongestRun (dialect : Dialect) (tokens run : List Token) : Prop where
  isUnitRun : IsUnitRun dialect run
  isPrefix : run <+: tokens
  longest : ∀ other, IsUnitRun dialect other → other <+: tokens → other.length ≤ run.length

variable {dialect : Dialect} {token next : Token} {unit run tokens rest : List Token}
  {region : Region}

/-! ## Units -/

/-- A unit of one token, in both languages. -/
theorem isIdentifierUnit_of_isUnit (h : isUnit token) : IsIdentifierUnit dialect [token] := by
  rcases unit_cases h with ⟨hkind, hdollar⟩ | ⟨hkind, hdashes⟩
  · exact .name hkind hdollar
  · exact .dashes hkind fun c hc => List.mem_singleton.mp (hdashes hc)

/-- A unit of two tokens. -/
theorem isIdentifierUnit_of_opensInterpolation (h : token.opensInterpolation next) :
    IsIdentifierUnit .jss [token, next] := by
  simp only [Token.opensInterpolation, Bool.and_eq_true, beq_iff_eq] at h
  obtain ⟨⟨⟨hkind, hlast⟩, hfront⟩, hbraces⟩ := h
  have hvalue : token.value = token.value.dropLast ++ ['$'] :=
    (List.dropLast_append_getLast? '$' hlast).symm
  refine .interpolation rfl hkind hvalue (by simpa using hfront) ?_
  rw [← List.contains_iff_mem, braces_contains]
  exact hbraces

/-- A unit adds its tokens to an identifier. -/
theorem identifierLength_unit_append (h : IsIdentifierUnit dialect unit) (tokens : List Token) :
    identifierLength dialect (unit ++ tokens) = unit.length + identifierLength dialect tokens := by
  cases h with
  | @name token hkind hdollar =>
    have hunit : isUnit token := by simp [isUnit, isName, hkind, hdollar]
    rw [List.singleton_append, identifierLength_cons_of_isUnit dialect hunit,
      List.length_singleton, Nat.add_comm]
  | @dashes token hkind hdashes =>
    have hunit : isUnit token := by simpa [isUnit, isDashes, hkind] using .inr hdashes
    rw [List.singleton_append, identifierLength_cons_of_isUnit dialect hunit,
      List.length_singleton, Nat.add_comm]
  | @interpolation literal region front hdialect hkind hvalue hfront hbraces =>
    subst hdialect
    have hunit : (isName literal || isDashes literal) = false := by
      simp [isName, isDashes, hkind, hvalue]
    have hopens : literal.opensInterpolation region := by
      rw [← List.contains_iff_mem, braces_contains] at hbraces
      simp [Token.opensInterpolation, Token.isBraces, hkind, hvalue, hfront, hbraces]
    simp [identifierLength, hunit, hopens, Nat.add_comm]

/-- The units of the plain language are units of both. -/
theorem IsIdentifierUnit.of_css (h : IsIdentifierUnit .css unit) :
    IsIdentifierUnit dialect unit := by
  cases h with
  | name hkind hdollar => exact .name hkind hdollar
  | dashes hkind hdashes => exact .dashes hkind hdashes
  | interpolation hdialect => cases hdialect

/-- No unit of the plain language holds a dollar sign. -/
theorem IsIdentifierUnit.notMem_spelling (h : IsIdentifierUnit .css unit) :
    '$' ∉ spelling unit := by
  cases h with
  | name hkind hdollar => simpa [spelling] using hdollar
  | dashes hkind hdashes =>
    intro hdollar
    rw [spelling, List.flatMap_singleton] at hdollar
    exact absurd (hdashes '$' hdollar) (by decide)
  | interpolation hdialect => cases hdialect

/-! ## Runs of units -/

/-- Units of one token each are a run. -/
theorem isUnitRun_of_forall_isUnit (h : ∀ token ∈ run, isUnit token) : IsUnitRun dialect run := by
  induction run with
  | nil => exact .nil
  | cons token rest ih =>
    rw [List.forall_mem_cons] at h
    exact .append (isIdentifierUnit_of_isUnit h.1) (ih h.2)

/-- A run in front of other tokens adds its tokens to an identifier. -/
theorem IsUnitRun.identifierLength_append (h : IsUnitRun dialect run) (tokens : List Token) :
    identifierLength dialect (run ++ tokens) = run.length + identifierLength dialect tokens := by
  induction h with
  | nil => exact (Nat.zero_add _).symm
  | @append unit rest hunit _ ih =>
    rw [List.append_assoc, identifierLength_unit_append hunit, ih, List.length_append,
      Nat.add_assoc]

/-- A run of the plain language is one of both. -/
theorem IsUnitRun.of_css (h : IsUnitRun .css run) : IsUnitRun dialect run := by
  induction h with
  | nil => exact .nil
  | append hunit _ ih => exact .append hunit.of_css ih

/-- No run of the plain language holds a dollar sign. -/
theorem IsUnitRun.notMem_spelling (h : IsUnitRun .css run) : '$' ∉ spelling run := by
  induction h with
  | nil => exact List.not_mem_nil
  | append hunit _ ih =>
    rw [spelling_append, List.mem_append, not_or]
    exact ⟨hunit.notMem_spelling, ih⟩

/-- What is counted is a run of units. -/
theorem isUnitRun_take (dialect : Dialect) (tokens : List Token) :
    IsUnitRun dialect (tokens.take (identifierLength dialect tokens)) := by
  fun_induction identifierLength dialect tokens with
  | case1 => exact .nil
  | case2 token hunit => exact .append (isIdentifierUnit_of_isUnit hunit) .nil
  | case3 => exact .nil
  | case4 token next rest hunit ih => exact .append (isIdentifierUnit_of_isUnit hunit) ih
  | case5 token next rest _ hopens ih =>
    rw [Bool.and_eq_true, beq_iff_eq] at hopens
    obtain ⟨rfl, hopens⟩ := hopens
    exact .append (isIdentifierUnit_of_opensInterpolation hopens) ih
  | case6 => exact .nil

/-- What is counted is the longest run of units. -/
theorem isLongestRun_take (dialect : Dialect) (tokens : List Token) :
    IsLongestRun dialect tokens (tokens.take (identifierLength dialect tokens)) where
  isUnitRun := isUnitRun_take dialect tokens
  isPrefix := List.take_prefix _ _
  longest := by
    rintro other hother ⟨back, rfl⟩
    rw [hother.identifierLength_append, List.length_take, List.length_append]
    omega

/-- The longest run of the plain language begins that of the other. -/
theorem IsLongestRun.prefix_of_css {longer : List Token} (h : IsLongestRun .css tokens run)
    (hlonger : IsLongestRun dialect tokens longer) : run <+: longer :=
  List.prefix_of_prefix_length_le h.isPrefix hlonger.isPrefix
    (hlonger.longest run h.isUnitRun.of_css h.isPrefix)

/-! ## Identifiers -/

/-- An identifier is the longest run of units behind the gap, if a literal is among them. -/
theorem exists_isLongestRun (dialect : Dialect) (region : Region) (rest : List Token) :
    ∃ run back, dropTrivia rest = run ++ back ∧ IsLongestRun dialect (run ++ back) run ∧
      (identifier dialect).run region rest =
        if ∃ token ∈ run, token.kind = .literal then ⟨.ok (written run), back⟩
        else ⟨.failed (region.expected "identifier".toList rest), rest⟩ := by
  have hsplit :=
    List.take_append_drop (identifierLength dialect (dropTrivia rest)) (dropTrivia rest)
  have hlongest := isLongestRun_take dialect (dropTrivia rest)
  unfold identifier
  dsimp only
  generalize (dropTrivia rest).take _ = run at hsplit hlongest ⊢
  generalize (dropTrivia rest).drop _ = back at hsplit ⊢
  rw [← hsplit] at hlongest ⊢
  refine ⟨run, back, rfl, hlongest, ?_⟩
  simp only [List.any_eq_true, beq_iff_eq]
  split_ifs with hliteral
  · obtain ⟨token, htoken, -⟩ := hliteral
    obtain ⟨first, more, rfl⟩ := List.exists_cons_of_ne_nil (List.ne_nil_of_mem htoken)
    rfl
  · rfl

/-- An identifier takes the gap and the longest run of units behind it, if a literal is among them.
Its text and position are those of the run. Otherwise nothing is consumed. So no identifier of the
plain language holds a dollar sign, and where one is read the extended language reads one that goes
on from it. -/
theorem identifier_run_extent (dialect : Dialect) (region : Region) (rest : List Token) :
    (∃ gap run back, rest = gap ++ (run ++ back) ∧ AllTrivia gap ∧
        (∀ token ∈ (run ++ back).head?, token.isSignificant) ∧
        IsLongestRun dialect (run ++ back) run ∧
        (identifier dialect).run region rest =
          if ∃ token ∈ run, token.kind = .literal then ⟨.ok (written run), back⟩
          else ⟨.failed (region.expected "identifier".toList rest), rest⟩) ∧
      ∀ name next, (identifier .css).run region rest = ⟨.ok name, next⟩ →
        '$' ∉ name.text ∧ ∃ longer left, (identifier .jss).run region rest = ⟨.ok longer, left⟩ ∧
          longer.position = name.position ∧ name.text <+: longer.text := by
  constructor
  · obtain ⟨gap, hrest, hgap⟩ := exists_gap rest
    obtain ⟨run, back, hbehind, hlongest, hrun⟩ := exists_isLongestRun dialect region rest
    refine ⟨gap, run, back, by rw [← hbehind]; exact hrest, hgap, ?_, hlongest, hrun⟩
    intro token htoken
    obtain ⟨more, hmore⟩ := List.head?_eq_some_iff.mp htoken
    exact isSignificant_of_dropTrivia_eq_cons (hbehind.trans hmore)
  · intro name next h
    obtain ⟨run, back, hplain, hlongest, hrun⟩ := exists_isLongestRun .css region rest
    obtain ⟨longer, left, hextended, hlonger, hrunLonger⟩ := exists_isLongestRun .jss region rest
    rw [hrun] at h
    split_ifs at h with hliteral
    · cases h
      obtain ⟨token, htoken, hkind⟩ := hliteral
      rw [hplain] at hextended
      rw [hextended] at hlongest
      obtain ⟨more, rfl⟩ := hlongest.prefix_of_css hlonger
      refine ⟨hlongest.isUnitRun.notMem_spelling, written (run ++ more), left, ?_, ?_, ?_⟩
      · rw [hrunLonger, if_pos ⟨token, List.mem_append_left more htoken, hkind⟩]
      · obtain ⟨first, others, rfl⟩ := List.exists_cons_of_ne_nil (List.ne_nil_of_mem htoken)
        rfl
      · rw [written, written, spelling_append]
        exact List.prefix_append _ _
    · cases h

/-- An interpolation ends the identifier of the plain language, and the other one goes on behind
it. -/
theorem identifier_run_extent_interpolation :
    let region : Region := ⟨{}, ⟨1, 11⟩⟩
    let rest : List Token := [⟨.space, [' '], ⟨1, 1⟩⟩, ⟨.literal, ['a'], ⟨1, 2⟩⟩,
      ⟨.symbol, ['-'], ⟨1, 3⟩⟩, ⟨.literal, ['$'], ⟨1, 4⟩⟩,
      ⟨.lazyBlock, "\x7bx\x7d".toList, ⟨1, 5⟩⟩, ⟨.symbol, ['-'], ⟨1, 8⟩⟩,
      ⟨.literal, ['b'], ⟨1, 9⟩⟩, ⟨.symbol, [';'], ⟨1, 10⟩⟩]
    (identifier .css).run region rest = ⟨.ok ⟨"a-".toList, ⟨1, 2⟩⟩, rest.drop 3⟩ ∧
      '$' ∉ "a-".toList ∧
      (identifier .jss).run region rest =
        ⟨.ok ⟨"a-$\x7bx\x7d-b".toList, ⟨1, 2⟩⟩, rest.drop 7⟩ ∧
      "a-".toList <+: "a-$\x7bx\x7d-b".toList := by
  intro region rest
  have hplain : (identifier .css).run region rest =
      ⟨.ok ⟨"a-".toList, ⟨1, 2⟩⟩, rest.drop 3⟩ := rfl
  have hextended : (identifier .jss).run region rest =
      ⟨.ok ⟨"a-$\x7bx\x7d-b".toList, ⟨1, 2⟩⟩, rest.drop 7⟩ := rfl
  obtain ⟨hdollar, longer, left, hrun, -, hprefix⟩ :=
    (identifier_run_extent .jss region rest).2 _ _ hplain
  cases hrun.symm.trans hextended
  exact ⟨hplain, hdollar, hextended, hprefix⟩

end StyleSyntax.Grammar
