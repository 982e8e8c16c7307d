import StyleSyntax.Proofs.Grammar.Statement
import StyleSyntax.Proofs.Parser.Consumption

/-!
# Phrases without gaps

Some phrases are written in one piece: behind the gap before them no whitespace and no comment may
stand. What is consumed for such a phrase is a gap and significant tokens alone, so its text does
not depend on any trivia. Where whitespace is ruled out before it as well, it is significant tokens
alone.
-/

namespace StyleSyntax

/-- No trivia stands behind the gap. -/
def IsSolid (used : List Token) : Prop :=
  ∀ token ∈ dropTrivia used, token.isSignificant

/-- What is consumed has no trivia behind the gap before it. -/
def Promise.solid {α : Type} : Promise α :=
  fun _ used _ _ => IsSolid used

/-- Nothing is consumed, and no trivia is next. -/
def Promise.touching {α : Type} : Promise α :=
  fun _ used next _ => used = [] ∧ ∀ token ∈ next.head?, token.isSignificant

/-- Tokens without trivia have no gap before them. -/
theorem dropTrivia_of_forall {used : List Token} (h : ∀ token ∈ used, token.isSignificant) :
    dropTrivia used = used := by
  cases used with
  | nil => rfl
  | cons token used => exact dropTrivia_cons (h token List.mem_cons_self) used

/-- A gap may stand before tokens without trivia. -/
theorem isSolid_append {gap used : List Token} (hgap : AllTrivia gap)
    (h : ∀ token ∈ used, token.isSignificant) : IsSolid (gap ++ used) := by
  rw [IsSolid, dropTrivia_append_of_allTrivia hgap, dropTrivia_of_forall h]
  exact h

/-- Tokens without trivia may stand behind those that have none behind their gap. -/
theorem IsSolid.append {used more : List Token} (h : IsSolid used)
    (hmore : ∀ token ∈ more, token.isSignificant) : IsSolid (used ++ more) := by
  obtain ⟨gap, hused, hgap⟩ := exists_gap used
  rw [hused, List.append_assoc]
  exact isSolid_append hgap (List.forall_mem_append.mpr ⟨h, hmore⟩)

/-- Without a gap before them there is no trivia at all. -/
theorem IsSolid.forall {used : List Token} (h : IsSolid used)
    (hhead : ∀ token ∈ used.head?, token.isSignificant) : ∀ token ∈ used, token.isSignificant := by
  cases used with
  | nil => simp
  | cons token used => rwa [IsSolid, dropTrivia_cons (hhead token rfl)] at h

namespace Parser

variable {α β : Type} {setting : Setting}

/-- A matched token has no trivia behind its gap. -/
theorem keeps_tokenWhere_solid (wanted : Text) (test : Token → Bool) :
    (tokenWhere wanted test).Keeps setting Promise.solid := by
  refine (keeps_tokenWhere wanted test).mono ?_
  rintro region used next token ⟨gap, rfl, hgap, htoken, -⟩
  exact isSolid_append hgap (by simpa using htoken)

/-- Symbols have no trivia behind their gap. -/
theorem Promise.symbols.isSolid {region : Region} {used next : List Token} {text : Text}
    (h : Promise.symbols region used next text) : IsSolid used := by
  obtain ⟨gap, signs, rfl, hgap, -, hsigns⟩ := h
  refine isSolid_append hgap fun sign hsign => isSignificant_of_kind ?_
  rw [hsigns sign hsign]
  rfl

/-- A run of symbols has no trivia behind its gap. -/
theorem keeps_symbol_solid (text : Text) : (symbol text).Keeps setting Promise.solid :=
  (keeps_symbol text).mono fun _ _ _ _ h => Promise.symbols.isSolid h.2

/-- One of several runs of symbols has no trivia behind its gap. -/
theorem keeps_oneOfSymbols_solid (candidates : List Text) :
    (oneOfSymbols candidates).Keeps setting Promise.solid := by
  constructor
  intro region rest hscope
  have hreply := runSymbols_keeps hscope (Setting.admits_expected hscope
    (List.intercalate " or ".toList (candidates.map quotedName))) (longestFirst candidates)
  exact hreply.mono fun used next value h => Promise.symbols.isSolid h.2

/-- Where whitespace is ruled out, no trivia is next. -/
theorem keeps_noSpacesHere_touching : noSpacesHere.Keeps setting Promise.touching := by
  constructor
  intro region rest hscope
  unfold noSpacesHere
  dsimp only
  split
  · next token more =>
    split_ifs with htrivia
    · exact setting.admits_expectedAt _ hscope
    · refine ⟨[], rfl, rfl, ?_⟩
      rintro first ⟨rfl⟩
      simpa [Token.isSignificant] using htrivia
  · exact ⟨[], rfl, rfl, by simp⟩

/-- Where whitespace is ruled out, what comes next is consumed without trivia. -/
theorem Keeps.bind_solid {p : Parser α} {following : α → Parser β}
    (hp : p.Keeps setting Promise.touching)
    (hfollowing : ∀ value, (following value).Keeps setting Promise.solid) :
    (p >>= following).Keeps setting (Promise.tokens Token.isSignificant) := by
  refine hp.bind fun value => (hfollowing value).mono ?_
  rintro region used next result hused before ⟨rfl, hhead⟩
  refine IsSolid.forall hused fun token htoken => hhead token ?_
  obtain ⟨more, rfl⟩ := List.head?_eq_some_iff.mp htoken
  rfl

/-- Behind a phrase without gaps one may be put that has no trivia. -/
theorem Keeps.bind_tokens_solid {p : Parser α} {following : α → Parser β}
    (hp : p.Keeps setting Promise.solid)
    (hfollowing : ∀ value, (following value).Keeps setting (Promise.tokens Token.isSignificant)) :
    (p >>= following).Keeps setting Promise.solid := by
  refine hp.bind fun value => (hfollowing value).mono ?_
  intro region used next result hused before hbefore
  exact IsSolid.append hbefore hused

/-- Source as written is the text of what is consumed. -/
theorem Keeps.rawValue_solid {p : Parser α} (h : p.Keeps setting Promise.solid) :
    (Parser.rawValue p).Keeps setting fun _ used _ text => IsSolid used ∧ text = spelling used := by
  refine h.rawValue_spelling.mono ?_
  rintro region used next text ⟨⟨_, hused⟩, htext⟩
  exact ⟨hused, htext⟩

/-- An excerpt without gaps is the source of what is consumed. -/
theorem Keeps.excerpt_solid {p : Parser α} (h : p.Keeps setting Promise.solid)
    (hends : p.Keeps setting Promise.significant) :
    (Parser.excerpt p).Keeps setting fun _ used _ source =>
      IsSolid used ∧ source.IsOf (dropTrivia used) :=
  Keeps.map (((h.and hends).capture fun _ _ _ _ hused => hused.2).mono
    fun _ _ _ _ hcaptured => ⟨hcaptured.1.1, hcaptured.2⟩)

end Parser

namespace Grammar

open StyleSyntax.Parser

variable {setting : Setting}

/-- An identifier has no trivia behind its gap. -/
theorem keeps_identifier_solid (dialect : Dialect) :
    (identifier dialect).Keeps setting Promise.solid := by
  refine (keeps_identifier_units dialect).mono ?_
  rintro region used next source ⟨gap, units, rfl, hgap, hunits, -⟩
  exact isSolid_append hgap fun token htoken =>
    isSignificant_of_isIdentifierToken (hunits token htoken)

/-- A sign with a name is written in one piece. -/
theorem keeps_signedName_solid {sign : Parser Text} (h : sign.Keeps setting Promise.solid)
    (dialect : Dialect) : (signedName sign dialect).Keeps setting fun _ used _ text =>
      IsSolid used ∧ text = spelling used := by
  refine Keeps.rawValue_solid (Keeps.attempt (h.bind_tokens_solid fun _ => ?_))
  refine (keeps_noSpacesHere_touching.step 1).bind_solid fun _ => ?_
  exact ((keeps_identifier_solid dialect).step 2).bind_tokens_solid fun _ => keeps_pure_tokens _

/-- A pseudo selector is written in one piece. -/
theorem keeps_pseudoSelector_solid (dialect : Dialect) :
    (pseudoSelector dialect).Keeps setting fun _ used _ text =>
      IsSolid used ∧ text = spelling used := by
  have harguments : pseudoArguments.Keeps setting (Promise.tokens Token.isSignificant) :=
    Keeps.attempt (keeps_noSpacesHere_touching.bind_solid fun _ =>
      (keeps_tokenWhere_solid _ _).step 1)
  refine Keeps.rawValue_solid (Keeps.attempt ?_)
  refine (keeps_oneOfSymbols_solid _).bind_tokens_solid fun _ => ?_
  refine (keeps_noSpacesHere_touching.step 1).bind_solid fun _ => ?_
  refine ((keeps_identifier_solid dialect).step 2).bind_tokens_solid fun _ => ?_
  exact (harguments.optional_tokens.step 3).bind_tokens fun _ => keeps_pure_tokens _

/-- An id, class, attribute or pseudo selector is written in one piece. -/
theorem keeps_subclassSelector_solid (dialect : Dialect) :
    (subclassSelector dialect).Keeps setting fun _ used _ text =>
      IsSolid used ∧ text = spelling used := by
  refine keeps_firstOf ?_
  simp only [List.forall_mem_cons]
  exact ⟨keeps_signedName_solid (keeps_symbol_solid _) dialect,
    keeps_signedName_solid (keeps_symbol_solid _) dialect,
    Keeps.rawValue_solid (keeps_tokenWhere_solid _ _), keeps_pseudoSelector_solid dialect, by simp⟩

end Grammar

end StyleSyntax
