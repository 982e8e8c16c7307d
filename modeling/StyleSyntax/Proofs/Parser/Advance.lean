import StyleSyntax.Proofs.Parser.Success

/-!
# Parsers move forward

However a parser ends, the tokens left after it are an end of those before it. So what it consumed
is a stretch of neighbouring tokens, and the source that is captured for it is the source of just
these. The bound holds for every combinator as soon as it holds for its parts. The parser of an
interior is not among them, since it runs on other tokens.
-/

namespace StyleSyntax.Parser

/-- The tokens left are an end of the tokens before, however the parser ends. -/
structure Advances {α : Type} (p : Parser α) : Prop where
  rest_suffix (region : Region) (rest : List Token) : (p.run region rest).rest <:+ rest

variable {α β σ : Type} {region : Region} {rest next : List Token}

/-- What a parser leaves is an end of what it was given. -/
theorem Advances.suffix {p : Parser α} (h : p.Advances) {outcome : Outcome ParseError α}
    (hrun : p.run region rest = ⟨outcome, next⟩) : next <:+ rest := by
  have hsuffix := h.rest_suffix region rest
  rw [hrun] at hsuffix
  exact hsuffix

/-- What was consumed stands in front of what is left. -/
theorem append_of_suffix (h : next <:+ rest) : consumed rest next ++ next = rest := by
  obtain ⟨used, rfl⟩ := h
  simp [consumed]

/-- Dropping trivia leaves an end of the tokens. -/
theorem dropTrivia_suffix (rest : List Token) : dropTrivia rest <:+ rest :=
  List.dropWhile_suffix _

section Combinators

/-- A value where it stands leaves all tokens. -/
theorem advances_pure (value : α) : (pure value : Parser α).Advances :=
  ⟨fun _ rest => List.suffix_refl rest⟩

/-- So does an error. -/
theorem advances_fail (error : Region → List Token → ParseError) :
    (fail error : Parser α).Advances :=
  ⟨fun _ rest => List.suffix_refl rest⟩

/-- A sequence leaves an end of what its first part left. -/
theorem Advances.bind {p : Parser α} {following : α → Parser β} (hp : p.Advances)
    (hfollowing : ∀ value, (following value).Advances) : (p >>= following).Advances := by
  constructor
  intro region rest
  rw [run_bind]
  rcases hrun : p.run region rest with ⟨value | error | _, middle⟩
  · exact ((hfollowing value).rest_suffix region middle).trans (hp.suffix hrun)
  · exact hp.suffix hrun
  · exact hp.suffix hrun

/-- What is made of the value does not matter for the tokens. -/
theorem Advances.map {p : Parser α} (h : p.Advances) (f : α → β) : (p.map f).Advances :=
  ⟨h.rest_suffix⟩

/-- Neither does a check. -/
theorem Advances.probe {p : Parser α} (h : p.Advances) (test : Token → Bool) :
    (probe test p).Advances :=
  ⟨h.rest_suffix⟩

/-- Neither does the number of a step. -/
theorem Advances.step {p : Parser α} (h : p.Advances) (index : Nat) : (step index p).Advances :=
  ⟨h.rest_suffix⟩

/-- Going back to the start leaves all tokens. -/
theorem Advances.attempt {p : Parser α} (h : p.Advances) : (attempt p).Advances := by
  constructor
  intro region rest
  unfold Parser.attempt
  dsimp only
  split
  · next hrun => exact h.suffix hrun
  · exact List.suffix_refl rest
  · exact List.suffix_refl rest

/-- A part that is left out leaves all tokens. -/
theorem Advances.optional {p : Parser α} (h : p.Advances) : p.optional.Advances := by
  constructor
  intro region rest
  unfold Parser.optional
  dsimp only
  split_ifs
  · split
    · next hrun => exact h.suffix hrun
    · split_ifs <;> exact List.suffix_refl rest
    · exact List.suffix_refl rest
  · exact List.suffix_refl rest

/-- Steps move forward one after another. -/
theorem advances_stepsFrom {parsers : List (Parser α)} (h : ∀ p ∈ parsers, p.Advances)
    (index : Nat) : (stepsFrom index parsers).Advances := by
  induction parsers generalizing index with
  | nil => exact advances_pure _
  | cons p others ih =>
    rw [List.forall_mem_cons] at h
    exact (h.1.step index).bind fun _ => (ih h.2 (index + 1)).bind fun _ => advances_pure _

/-- A sequence is an attempt of its steps. -/
theorem advances_sequence {parsers : List (Parser α)} (h : ∀ p ∈ parsers, p.Advances) :
    (sequence parsers).Advances :=
  (advances_stepsFrom h 0).attempt

/-- A capture leaves what its parser does, or all tokens. -/
theorem Advances.capture {p : Parser α} (h : p.Advances) : (capture p).Advances := by
  constructor
  intro region rest
  unfold Parser.capture
  dsimp only
  split
  · next hrun => exact h.suffix hrun
  · exact List.suffix_refl rest
  · exact List.suffix_refl rest

/-- So does a raw value. -/
theorem Advances.rawValue {p : Parser α} (h : p.Advances) : (rawValue p).Advances := by
  constructor
  intro region rest
  unfold Parser.rawValue
  dsimp only
  split
  · next hrun => exact h.suffix hrun
  · exact List.suffix_refl rest
  · exact List.suffix_refl rest

/-- An excerpt is the second part of a capture. -/
theorem Advances.excerpt {p : Parser α} (h : p.Advances) : (excerpt p).Advances :=
  h.capture.map Prod.snd

/-- A choice leaves what one of its alternatives does, or all tokens. -/
theorem advances_firstOf {alternatives : List (Parser α)}
    (h : ∀ p ∈ alternatives, p.Advances) : (firstOf alternatives).Advances := by
  constructor
  intro region rest
  change (runFirst region rest {} alternatives).rest <:+ rest
  generalize ({} : Failures) = failures
  induction alternatives generalizing failures with
  | nil => exact List.suffix_refl rest
  | cons p others ih =>
    rw [List.forall_mem_cons] at h
    rw [runFirst]
    split_ifs
    · split
      · next hrun => exact h.1.suffix hrun
      · split_ifs
        · exact List.suffix_refl rest
        · exact ih h.2 _
      · exact List.suffix_refl rest
    · exact ih h.2 _

/-- The longest of some alternatives is the reply of one of them. -/
theorem advances_longestOf {alternatives : List (Parser α)}
    (h : ∀ p ∈ alternatives, p.Advances) : (longestOf alternatives).Advances := by
  constructor
  intro region rest
  have hbest : ∀ held ∈ (none : Option (α × List Token)), held.2 <:+ rest := by simp
  change (runLongest region rest none {} alternatives).rest <:+ rest
  generalize ({} : Failures) = failures
  generalize (none : Option (α × List Token)) = best at hbest ⊢
  induction alternatives generalizing best failures with
  | nil =>
    cases best with
    | none => exact List.suffix_refl rest
    | some held => exact hbest held rfl
  | cons p others ih =>
    rw [List.forall_mem_cons] at h
    rw [runLongest]
    split_ifs
    · split
      · next value left hrun =>
        refine ih h.2 _ _ fun held hheld => ?_
        obtain rfl := Option.some.inj hheld
        unfold furthest
        split
        · exact h.1.suffix hrun
        · next hsome =>
          split_ifs
          · exact h.1.suffix hrun
          · exact hbest _ rfl
      · split_ifs
        · exact List.suffix_refl rest
        · exact ih h.2 _ _ hbest
      · exact List.suffix_refl rest
    · exact ih h.2 _ _ hbest

end Combinators

section Repetitions

/-- A repetition leaves what its last match does. -/
theorem Advances.many {p : Parser α} (h : p.Advances) : (many p).Advances := by
  constructor
  intro region rest
  change (runMany p region rest).rest <:+ rest
  fun_induction runMany p region rest with
  | case1 => exact List.suffix_refl _
  | case2 rest _ middle hrun => exact h.optional.suffix hrun
  | case3 rest _ value middle hrun _ ih => exact ih.trans (h.optional.suffix hrun)
  | case4 rest _ value middle hrun => exact h.optional.suffix hrun
  | case5 rest _ error middle hrun => exact h.optional.suffix hrun
  | case6 rest _ middle hrun => exact h.optional.suffix hrun

/-- So do matches up to the end, also when one of them fails. -/
theorem Advances.all {p : Parser α} (h : p.Advances) : (all p).Advances := by
  constructor
  intro region rest
  change (runAll p region rest).rest <:+ rest
  fun_induction runAll p region rest with
  | case1 => exact List.suffix_refl _
  | case2 rest _ value middle hrun _ ih => exact ih.trans (h.suffix hrun)
  | case3 rest _ value middle hrun => exact h.suffix hrun
  | case4 rest _ error middle hrun => exact h.suffix hrun
  | case5 rest _ middle hrun => exact h.suffix hrun

/-- A separator without an element is not consumed. -/
theorem Advances.separated {separator : Parser σ} {element : Parser α}
    (hseparator : separator.Advances) (helement : element.Advances) :
    (separated separator element).Advances := by
  constructor
  intro region rest
  change (runSeparated separator element region rest).rest <:+ rest
  fun_induction runSeparated separator element region rest with
  | case3 rest joint middle hjoint value left hvalue _ ih =>
    exact ih.trans ((helement.optional.suffix hvalue).trans (hseparator.optional.suffix hjoint))
  | _ => exact List.suffix_refl _

/-- A list leaves what its last element does. -/
theorem Advances.list {separator : Parser σ} {element : Parser α} (helement : element.Advances)
    (hseparator : separator.Advances) (allowEmpty : Bool) :
    (list element separator allowEmpty).Advances := by
  refine helement.optional.bind fun first => ?_
  cases first with
  | some value => exact (hseparator.separated helement).bind fun _ => advances_pure _
  | none => cases allowEmpty <;> exact ⟨fun _ rest => List.suffix_refl rest⟩

/-- Repeated texts leave what the last of them does. -/
theorem advances_runTexts {p : Parser Text} (h : p.Advances) :
    Advances { run := runTexts p : Parser Text } := by
  constructor
  intro region rest
  change (runTexts p region rest).rest <:+ rest
  fun_induction runTexts p region rest with
  | case1 rest middle hrun => exact h.optional.suffix hrun
  | case2 rest text middle hrun _ ih => exact ih.trans (h.optional.suffix hrun)
  | case3 rest text middle hrun => exact h.optional.suffix hrun
  | case4 rest error middle hrun => exact h.optional.suffix hrun
  | case5 rest middle hrun => exact h.optional.suffix hrun

/-- So does what is recursive on the left. -/
theorem Advances.leftRecursive {left right : Parser Text} (hleft : left.Advances)
    (hright : right.Advances) : (leftRecursive left right).Advances :=
  hleft.bind fun _ => (advances_runTexts hright).bind fun _ => advances_pure _

end Repetitions

section Matchers

/-- A token is taken with the trivia before it. -/
theorem advances_tokenWhere (wanted : Text) (test : Token → Bool) :
    (tokenWhere wanted test).Advances := by
  constructor
  intro region rest
  unfold tokenWhere
  dsimp only
  split
  · exact List.suffix_refl rest
  · next token following hrest =>
    split_ifs
    · exact (List.suffix_cons token following).trans (hrest ▸ dropTrivia_suffix rest)
    · exact List.suffix_refl rest

/-- A comma is taken with the trivia before it. -/
theorem advances_comma : comma.Advances :=
  advances_tokenWhere _ _

/-- A list with commas moves forward if its element does. -/
theorem Advances.commaList {element : Parser α} (h : element.Advances) :
    (commaList element).Advances :=
  h.list advances_comma false

/-- A symbol is taken with the trivia before it. -/
theorem advances_symbol (text : Text) : (symbol text).Advances := by
  constructor
  intro region rest
  unfold symbol
  dsimp only
  split
  · next following hafter =>
    obtain ⟨signs, hrest, -⟩ := exists_of_afterSymbols hafter
    exact List.IsSuffix.trans ⟨signs, hrest.symm⟩ (dropTrivia_suffix rest)
  · exact List.suffix_refl rest

/-- One of some symbols is taken as it would be alone. -/
theorem advances_oneOfSymbols (candidates : List Text) : (oneOfSymbols candidates).Advances := by
  constructor
  intro region rest
  unfold oneOfSymbols
  dsimp only
  induction longestFirst candidates with
  | nil => exact List.suffix_refl rest
  | cons text others ih =>
    rw [runSymbols]
    split
    · next hrun => exact (advances_symbol text).suffix hrun
    · exact ih

/-- Skipping trivia takes trivia alone. -/
theorem advances_skipTrivia : skipTrivia.Advances :=
  ⟨fun _ rest => dropTrivia_suffix rest⟩

/-- Looking for spaces takes nothing. -/
theorem advances_noSpacesHere : noSpacesHere.Advances := by
  constructor
  intro region rest
  unfold noSpacesHere
  dsimp only
  split
  · split_ifs <;> exact List.suffix_refl _
  · exact List.suffix_refl _

/-- Looking for the end of a line takes nothing. -/
theorem advances_noLineTerminatorHere : noLineTerminatorHere.Advances := by
  constructor
  intro region rest
  unfold noLineTerminatorHere
  dsimp only
  split <;> exact List.suffix_refl _

/-- Trivia is taken as a whole run. -/
theorem advances_trivia : trivia.Advances := by
  constructor
  intro region rest
  unfold trivia
  dsimp only
  split
  · exact List.suffix_refl rest
  · exact dropTrivia_suffix rest

/-- Looking for the end takes nothing. -/
theorem advances_endOfInput : endOfInput.Advances := by
  constructor
  intro region rest
  unfold endOfInput
  dsimp only
  split_ifs <;> exact List.suffix_refl rest

/-- A block consumes its token alone, whatever its interior is read with. -/
theorem advances_block (kinds : List TokenKind) (inner : Parser α) :
    (block kinds inner).Advances :=
  (advances_tokenWhere _ _).bind fun _ => ⟨fun _ rest => List.suffix_refl rest⟩

/-- So does a block to be read later. -/
theorem advances_lazyBlock (kinds : List TokenKind) (inner : Parser α) :
    (lazyBlock kinds inner).Advances :=
  (advances_tokenWhere _ _).bind fun _ => ⟨fun _ rest => List.suffix_refl rest⟩

end Matchers

/-- A success gives the source of the tokens that it consumed, exactly as written. -/
structure Spells (p : Parser Text) : Prop where
  of_run {region : Region} {rest next : List Token} {text : Text} :
    p.run region rest = ⟨.ok text, next⟩ → ∃ used, rest = used ++ next ∧ text = spelling used

section Source

/-- A raw value is the source of what its parser consumed. -/
theorem Advances.spells {p : Parser α} (h : (Parser.rawValue p).Advances) :
    (Parser.rawValue p).Spells := by
  constructor
  intro region rest next text hrun
  obtain ⟨value, hvalue, rfl⟩ := rawValue_run_eq_ok.mp hrun
  exact ⟨consumed rest next, (append_of_suffix (h.suffix hrun)).symm, rfl⟩

/-- A choice gives the source that one of its alternatives gives. -/
theorem spells_firstOf {alternatives : List (Parser Text)}
    (h : ∀ p ∈ alternatives, p.Spells) : (firstOf alternatives).Spells := by
  constructor
  intro region rest next text hrun
  obtain ⟨p, hp, hrun⟩ := exists_mem_of_firstOf_run hrun
  exact (h p hp).of_run hrun

/-- The texts of repeated matches join to the source of all of them. -/
theorem Spells.runTexts {p : Parser Text} (h : p.Spells) :
    Spells { run := runTexts p : Parser Text } := by
  constructor
  intro region rest next text hrun
  change Parser.runTexts p region rest = _ at hrun
  fun_induction Parser.runTexts p region rest generalizing text with
  | case1 rest middle hnone =>
    cases hrun
    rcases optional_run_eq_ok.mp hnone with ⟨value, hvalue, -⟩ | ⟨-, rfl, -⟩
    · cases hvalue
    · exact ⟨[], rfl, rfl⟩
  | case2 rest first middle hfirst hlt ih =>
    rcases hothers : Parser.runTexts p region middle with ⟨more | error | _, last⟩ <;>
      rw [hothers] at hrun <;> cases hrun
    obtain ⟨used, rfl, rfl⟩ := h.of_run (run_of_optional_run hfirst)
    obtain ⟨others, rfl, rfl⟩ := ih hothers
    exact ⟨used ++ others, by rw [List.append_assoc], by rw [spelling_append]⟩
  | case3 rest first middle hfirst =>
    cases hrun
    exact h.of_run (run_of_optional_run hfirst)
  | case4 => cases hrun
  | case5 => cases hrun

/-- The left part and the repeated right parts follow one another. -/
theorem Spells.leftRecursive {left right : Parser Text} (hleft : left.Spells)
    (hright : right.Spells) : (leftRecursive left right).Spells := by
  constructor
  intro region rest next text hrun
  obtain ⟨first, middle, hfirst, hrun⟩ := bind_run_eq_ok.mp hrun
  obtain ⟨more, last, hmore, hrun⟩ := bind_run_eq_ok.mp hrun
  obtain ⟨rfl, rfl⟩ := pure_run_eq_ok.mp hrun
  obtain ⟨used, rfl, rfl⟩ := hleft.of_run hfirst
  obtain ⟨others, rfl, rfl⟩ := hright.runTexts.of_run hmore
  exact ⟨used ++ others, by rw [List.append_assoc], by rw [spelling_append]⟩

end Source

end StyleSyntax.Parser
