import StyleSyntax.Proofs.RuleSet.Names

/-!
# Compounds are read as they are written

A piece is a sign with a name right behind it, and the parsers of the other sorts of pieces refuse
it by its sign. A compound is read as its element and its pieces, and nothing is read as a compound
in front of another character.
-/

namespace StyleSyntax.RuleSet

open StyleSyntax.Parser StyleSyntax.Grammar

variable {text next gap : Text} {dialect : Dialect}

/-- No arguments are found where no round bracket opens. -/
theorem pseudoArguments_refuses (hnext : ∀ c ∈ next.head?, c ≠ '(') :
    pseudoArguments.RefusesText next := by
  refine RefusesText.attempt (refusesText_after_noSpacesHere ?_)
  intro region tokens _ htokens hdrop
  apply Refuses.step
  cases tokens with
  | nil => exact ⟨_, [], rfl, rfl⟩
  | cons token later =>
    refine tokenWhere_refuses hdrop ?_ _ region
    cases next with
    | nil => cases Lexes.nil_iff.mp htokens
    | cons c rest =>
      obtain ⟨_, _, hcons, _, hbegins⟩ := htokens.exists_first
      obtain ⟨rfl, -⟩ := List.cons.inj hcons
      rw [beq_eq_false_iff_ne]
      intro hkind
      rw [hkind, TokenKind.begins, beq_iff_eq] at hbegins
      exact hnext c rfl hbegins

/-- A sign and a name right behind it are read together. -/
theorem reads_signedName {c : Char} (hc : ({} : LexerConfig).isSymbol c) (hsolid : isSolid c)
    (dialect : Dialect) (name : Name) (hnext : EndsName next) :
    (signedName (symbol [c]) dialect).Reads (c :: name.text) next fun _ => True := by
  refine Reads.mono (Reads.rawValue (Reads.attempt (?_ : Reads _ _ _ fun _ => True)))
    fun _ _ => trivial
  refine Reads.bind (a := [c]) (reads_symbol .nil hc hsolid _) fun _ _ => ?_
  refine Reads.bind_nothing ((reads_noSpacesHere (name.beginsSolid next)).step 1) fun _ _ => ?_
  exact ((reads_identifier dialect name hnext).step 2).bind_pure fun _ _ => trivial

/-- A colon and a name right behind it are read as a pseudo class. -/
theorem reads_pseudoSelector (dialect : Dialect) (name : Name) (hnext : EndsName next) :
    (pseudoSelector dialect).Reads (':' :: name.text) next fun _ => True := by
  have hname (d : Char) (more : Text) (hmem : ':' :: d :: more ∈ [[':'], [':', ':']]) :
      BeginsWith (fun e => isSolid e ∧ d ≠ e) (name.text ++ next) := by
    obtain rfl : d = ':' := by
      simp only [List.mem_cons, List.cons.injEq, reduceCtorEq, and_false, true_and,
        List.not_mem_nil, or_false, false_or] at hmem
      exact hmem.1
    refine (name.beginsWith.mono fun e he => ⟨isSolid_of_isNameChar he, ?_⟩).append next
    rintro rfl
    cases he
  refine Reads.mono (Reads.rawValue (Reads.attempt (?_ : Reads _ _ _ fun _ => True)))
    fun _ _ => trivial
  refine Reads.bind (a := [':'])
    (reads_oneOfSymbols .nil (by decide) (by decide) (by simp) (by simp) hname) fun _ _ => ?_
  refine Reads.bind_nothing ((reads_noSpacesHere (name.beginsSolid next)).step 1) fun _ _ => ?_
  refine Reads.bind_last ((reads_identifier dialect name hnext).step 2) fun _ _ => ?_
  have harguments := pseudoArguments_refuses fun c hc => (hnext c hc).2.2
  exact ((Reads.optional_of_refuses harguments).step 3).bind_pure fun _ _ => trivial

/-- A sign before a name is refused where another character stands behind the gap. -/
theorem signedName_refuses {c : Char} (hgap : IsGapText gap)
    (htext : BeginsWith (fun d => isSolid d ∧ c ≠ d) text) (dialect : Dialect) :
    (signedName (symbol [c]) dialect).RefusesText (gap ++ text) :=
  ((symbol_refuses hgap htext []).bind _).attempt.rawValue

/-- Square brackets are refused where another character stands behind the gap. -/
theorem squareBrackets_refuses (hgap : IsGapText gap)
    (htext : BeginsWith (fun d => isSolid d ∧ d ≠ '[') text) :
    squareBrackets.RefusesText (gap ++ text) := by
  refine tokenWhere_refusesText hgap (htext.mono fun d hd => ⟨hd.1, fun token hbegins => ?_⟩) _
  rw [beq_eq_false_iff_ne]
  intro hkind
  rw [hkind, TokenKind.begins, beq_iff_eq] at hbegins
  exact hd.2 hbegins

/-- A piece is refused where another character stands behind the gap. -/
theorem subclassSelector_refuses (hgap : IsGapText gap)
    (htext : BeginsWith (fun d => isSolid d ∧ d ∉ ['#', '.', '[', ':']) text)
    (dialect : Dialect) : (subclassSelector dialect).RefusesText (gap ++ text) := by
  have hother (c : Char) (hc : c ∈ ['#', '.', '[', ':']) :
      BeginsWith (fun d => isSolid d ∧ c ≠ d) text :=
    htext.mono fun d hd => ⟨hd.1, fun h => hd.2 (h ▸ hc)⟩
  refine RefusesText.firstOf ?_
  simp only [List.forall_mem_cons, List.not_mem_nil, false_implies, implies_true, and_true]
  refine ⟨?hash, ?dot, ?square, ?colon⟩
  case hash => exact (signedName_refuses hgap (hother '#' (by simp)) dialect).declines
  case dot => exact (signedName_refuses hgap (hother '.' (by simp)) dialect).declines
  case square =>
    have hsquare : BeginsWith (fun d => isSolid d ∧ d ≠ '[') text :=
      (hother '[' (by simp)).mono fun d hd => ⟨hd.1, Ne.symm hd.2⟩
    exact (squareBrackets_refuses hgap hsquare).rawValue.declines
  case colon =>
    have hcolon : (oneOfSymbols [[':'], [':', ':']]).RefusesText (gap ++ text) :=
      oneOfSymbols_refuses hgap ((hother ':' (by simp)).mono fun d hd => ⟨hd.1, by simp [hd.2]⟩)
    exact (hcolon.bind _).attempt.rawValue.declines

/-- A piece is read in front of what ends its name. -/
theorem reads_subclassSelector (dialect : Dialect) (piece : Piece) (hnext : EndsName next) :
    (subclassSelector dialect).Reads piece.text next fun _ => True := by
  obtain ⟨sign, name⟩ := piece
  have hother {c d : Char} (hd : isSolid d ∧ c ≠ d) :
      (signedName (symbol [c]) dialect).DeclinesText (d :: name.text ++ next) :=
    (signedName_refuses .nil (.cons hd _) dialect).declines
  cases sign with
  | hash =>
    exact (reads_signedName (by decide) (by decide) dialect name hnext).firstOf (fun _ => rfl) _
  | dot =>
    change Reads _ ('.' :: name.text) next _
    refine Reads.firstOf_of_declines (hother (by decide)) ?_
    exact (reads_signedName (by decide) (by decide) dialect name hnext).firstOf (fun _ => rfl) _
  | colon =>
    change Reads _ (':' :: name.text) next _
    refine Reads.firstOf_of_declines (hother (by decide))
      (Reads.firstOf_of_declines (hother (by decide)) (Reads.firstOf_of_declines ?_ ?_))
    · exact (squareBrackets_refuses .nil (.cons (by decide) _)).rawValue.declines
    · exact (reads_pseudoSelector dialect name hnext).firstOf (fun _ => rfl) []

/-- What follows a compound neither continues its last name nor begins a piece. -/
structure EndsCompound (dialect : Dialect) (next : Text) : Prop where
  endsName : EndsName next
  refuses : (do noSpacesHere; subclassSelector dialect : Parser Text).RefusesText next

/-- A piece begins with its sign, which ends a name. -/
theorem Piece.endsName (piece : Piece) (next : Text) : EndsName (piece.text ++ next) := by
  rintro c ⟨rfl⟩
  cases piece.sign <;> decide

/-- A piece begins with its sign. -/
theorem Piece.beginsWith (piece : Piece) :
    BeginsWith (fun c => isCompoundStart c ∧ isNameChar c = false) piece.text := by
  refine .cons ?_ _
  cases piece.sign <;> decide

/-- Pieces end a name in front of what ends it. -/
theorem endsName_pieces (pieces : List Piece) (hnext : EndsName next) :
    EndsName (pieces.flatMap Piece.text ++ next) := by
  cases pieces with
  | nil => exact hnext
  | cons piece pieces =>
    rw [List.flatMap_cons, List.append_assoc]
    exact piece.endsName _

/-- Pieces one after another are read. -/
theorem reads_pieces (pieces : List Piece) (hnext : EndsCompound dialect next) :
    (many do noSpacesHere; subclassSelector dialect : Parser (List Text)).Reads
      (pieces.flatMap Piece.text) next fun found => found.length = pieces.length := by
  induction pieces with
  | nil => exact (Reads.many_nil hnext.refuses).mono fun found hfound => by rw [hfound]; rfl
  | cons piece pieces ih =>
    have hends := endsName_pieces pieces hnext.endsName
    have hsolid : BeginsWith (isSolid ·) (piece.text ++ (pieces.flatMap Piece.text ++ next)) :=
      (piece.beginsWith.mono fun c hc => (isSolid_of_isCompoundStart hc.1).1).append _
    have hpiece : (do noSpacesHere; subclassSelector dialect : Parser Text).Reads piece.text
        (pieces.flatMap Piece.text ++ next) fun _ => True :=
      (reads_noSpacesHere hsolid).bind_nothing fun _ _ =>
        reads_subclassSelector dialect piece hends
    rw [List.flatMap_cons]
    refine (Reads.many_cons (fun _ => rfl) (List.cons_ne_nil _ _) hpiece ih).mono ?_
    rintro found ⟨value, others, rfl, _, hothers⟩
    rw [List.length_cons, hothers, List.length_cons]

/-- No element is found where neither a name nor one of its signs stands behind the gap. -/
theorem elementName_refuses (hgap : IsGapText gap)
    (htext : BeginsWith (fun c => isSolid c ∧ Reader.isLiteralChar c = false ∧
      c ∉ ['-', '*', '&']) text) (dialect : Dialect) :
    (elementName dialect).RefusesText (gap ++ text) := by
  have hname : ((identifier dialect).map Excerpt.text).RefusesText (gap ++ text) :=
    (identifier_refuses dialect hgap
      (htext.mono fun c hc => ⟨hc.1, hc.2.1, by rintro rfl; simp at hc⟩)).map _
  have hsign (d : Char) (hd : d ∈ ['-', '*', '&']) : (symbol [d]).RefusesText (gap ++ text) :=
    symbol_refuses hgap (htext.mono fun c hc => ⟨hc.1, by rintro rfl; exact hc.2.2 hd⟩) []
  cases dialect with
  | css =>
    refine RefusesText.firstOf ?_
    simp only [List.forall_mem_cons, List.not_mem_nil, false_implies, implies_true, and_true]
    exact ⟨hname.declines, (hsign '*' (by simp)).declines⟩
  | jss =>
    refine RefusesText.firstOf ?_
    simp only [List.forall_mem_cons, List.not_mem_nil, false_implies, implies_true, and_true]
    exact ⟨hname.declines, (hsign '*' (by simp)).declines, (hsign '&' (by simp)).declines⟩

/-- The name of an element is read. -/
theorem reads_elementName (dialect : Dialect) (name : Name) (hnext : EndsName next) :
    (elementName dialect).Reads name.text next fun _ => True := by
  have hname : ((identifier dialect).map Excerpt.text).Reads name.text next fun _ => True :=
    ((reads_identifier dialect name hnext).mono fun _ _ => trivial).map
  cases dialect with
  | css => exact hname.firstOf (fun _ => rfl) _
  | jss => exact hname.firstOf (fun _ => rfl) _

/-- A compound is its element with the pieces behind it, or it begins with the sign and the name of
a piece. -/
theorem Compound.text_cases (compound : Compound) (next : Text) :
    (∃ element, compound.element = some element ∧
      compound.text ++ next = element.text ++ (compound.pieces.flatMap Piece.text ++ next)) ∨
    ∃ (piece : Piece) (rest : Text), compound.element = none ∧
      compound.text ++ next = piece.sign.char :: (piece.name.text ++ rest) := by
  obtain ⟨element, pieces, hnonempty⟩ := compound
  cases element with
  | some element => exact .inl ⟨element, rfl, by simp [Compound.text]⟩
  | none =>
    cases pieces with
    | nil => simp at hnonempty
    | cons piece pieces =>
      exact .inr
        ⟨piece, pieces.flatMap Piece.text ++ next, rfl, by simp [Compound.text, Piece.text]⟩

/-- A compound begins with a name or with the sign of a piece. -/
theorem Compound.beginsWith (compound : Compound) :
    BeginsWith (isCompoundStart ·) compound.text := by
  obtain ⟨element, pieces, hnonempty⟩ := compound
  cases element with
  | some element =>
    exact (element.beginsWith.mono fun c hc => by simp [isCompoundStart, hc]).append _
  | none =>
    cases pieces with
    | nil => simp at hnonempty
    | cons piece pieces => exact (piece.beginsWith.mono fun c hc => hc.1).append _

/-- The element of a compound is read, or none is found. -/
theorem reads_element (compound : Compound) (hnext : EndsName next) (dialect : Dialect) :
    (elementName dialect).optional.Reads
      ((compound.element.map fun element => element.text).getD [])
      (compound.pieces.flatMap Piece.text ++ next)
      fun found => found.isSome = compound.element.isSome := by
  obtain ⟨element, pieces, hnonempty⟩ := compound
  cases element with
  | some element =>
    refine ((reads_elementName dialect element.toName (endsName_pieces pieces hnext)).optional
      fun _ => ?_).mono ?_
    · cases dialect <;> rfl
    · rintro found ⟨value, rfl, _⟩
      rfl
  | none =>
    cases pieces with
    | nil => simp at hnonempty
    | cons piece pieces =>
      have hsign : BeginsWith (fun c => isSolid c ∧ Reader.isLiteralChar c = false ∧
          c ∉ ['-', '*', '&']) ((piece :: pieces).flatMap Piece.text ++ next) := by
        rw [List.flatMap_cons, List.append_assoc]
        refine .cons ?_ _
        cases piece.sign <;> decide
      have hrefuses : (elementName dialect).RefusesText
          ((piece :: pieces).flatMap Piece.text ++ next) :=
        elementName_refuses .nil hsign dialect
      refine (Reads.optional_of_refuses hrefuses).mono ?_
      rintro found rfl
      rfl

/-- A compound is read behind a gap and in front of what ends it. -/
theorem reads_compoundSelector (compound : Compound) (hgap : IsGapText gap)
    (hnext : EndsCompound dialect next) :
    (compoundSelector dialect).Reads (gap ++ compound.text) next fun _ => True := by
  have hsolid : BeginsWith (isSolid ·) (compound.text ++ next) :=
    (compound.beginsWith.mono fun c hc => (isSolid_of_isCompoundStart hc).1).append next
  have helement := reads_element compound hnext.endsName dialect
  refine (Reads.bind (reads_skipTrivia hgap hsolid) fun _ _ =>
    Reads.bind helement fun element helement =>
      (reads_pieces compound.pieces hnext).bind_last fun others hothers => ?_).attempt
  have hpieces : element.toList ++ others ≠ [] := by
    intro hnil
    obtain ⟨hnone, rfl⟩ := List.append_eq_nil_iff.mp hnil
    rw [Option.toList_eq_nil_iff] at hnone
    rw [hnone] at helement
    rcases compound.nonempty with hsome | hne
    · rw [← helement] at hsome
      cases hsome
    · exact hne (List.eq_nil_of_length_eq_zero hothers.symm)
  dsimp only
  rw [if_neg (by simpa using hpieces)]
  exact Reads.pure trivial

/-- A compound is refused where neither a name nor one of its signs stands behind the gap. -/
theorem compoundSelector_refuses (hgap : IsGapText gap)
    (htext : BeginsWith (fun c => isSolid c ∧ Reader.isLiteralChar c = false ∧
      c ∉ ['-', '*', '&', '#', '.', '[', ':']) text) (dialect : Dialect) :
    (compoundSelector dialect).RefusesText (gap ++ text) := by
  have hsolid : BeginsWith (isSolid ·) text := htext.mono fun c hc => hc.1
  have helement : (elementName dialect).RefusesText text := by
    refine elementName_refuses .nil (htext.mono fun c hc => ⟨hc.1, hc.2.1, fun hmem => hc.2.2 ?_⟩)
      dialect
    exact List.mem_append_left ['#', '.', '[', ':'] hmem
  have hpiece : (do noSpacesHere; subclassSelector dialect : Parser Text).RefusesText text := by
    refine refusesText_after_noSpacesHere fun region tokens hregion htokens _ => ?_
    refine subclassSelector_refuses .nil
      (htext.mono fun c hc => ⟨hc.1, fun hmem => hc.2.2 ?_⟩) dialect hregion htokens
    exact List.mem_append_right ['-', '*', '&'] hmem
  refine (RefusesText.bind_of_reads (reads_skipTrivia hgap hsolid) fun _ _ =>
    RefusesText.bind_of_reads (a := []) (Reads.optional_of_refuses helement) fun element hnone =>
      RefusesText.bind_of_reads (a := []) (Reads.many_nil hpiece) fun others hnil => ?_).attempt
  subst hnone hnil
  exact fun region tokens _ _ => ⟨_, _, rfl, isBlock_expected region _ tokens⟩

end StyleSyntax.RuleSet
