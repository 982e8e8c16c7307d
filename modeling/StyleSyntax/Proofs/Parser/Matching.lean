import Mathlib.Data.List.Sort
import StyleSyntax.Parser.Match
import StyleSyntax.Proofs.Parser.Contract

/-!
# Contracts of the matchers

A matcher passes over a gap of trivia and consumes what it matches: one token, or a run of symbols
that spells a text. The conditions on whitespace and on the end consume nothing. What a matcher
consumes ends with a significant token.
-/

namespace StyleSyntax

/-- The consumed tokens end with a significant one. -/
def Promise.significant {α : Type} : Promise α :=
  fun _ used _ _ => EndsSignificant used

/-- A gap and one token that passes the test are consumed. -/
def Promise.token (test : Token → Bool) : Promise Token :=
  fun _ used _ token => ∃ gap, used = gap ++ [token] ∧ AllTrivia gap ∧ token.isSignificant ∧
    test token

/-- A gap and a run of symbols that spells the value are consumed. -/
def Promise.symbols : Promise Text :=
  fun _ used _ text => ∃ gap signs, used = gap ++ signs ∧ AllTrivia gap ∧ spelling signs = text ∧
    ∀ sign ∈ signs, sign.kind = .symbol

/-- Nothing is consumed. -/
def Promise.nothing {α : Type} : Promise α :=
  fun _ used _ _ => used = []

/-- No trivia is left at the end of what is consumed. -/
def Promise.trimmed {α : Type} : Promise α :=
  fun _ used _ _ => EndsTrimmed used

/-- Nothing is promised of the tokens or the value. -/
def Promise.anything {α : Type} : Promise α :=
  fun _ _ _ _ => True

/-- A matched token is the significant end of what was consumed. -/
theorem Promise.token.endsSignificant {test : Token → Bool} {region : Region}
    {used next : List Token} {token : Token} (h : Promise.token test region used next token) :
    EndsSignificant used := by
  obtain ⟨gap, rfl, _, htoken, _⟩ := h
  exact endsSignificant_concat gap htoken

/-- Symbols that spell something are significant tokens. -/
theorem Promise.symbols.endsSignificant {region : Region} {used next : List Token} {text : Text}
    (h : Promise.symbols region used next text) (htext : text ≠ []) : EndsSignificant used := by
  obtain ⟨gap, signs, rfl, _, hspelling, hsigns⟩ := h
  have hne : signs ≠ [] := by
    rintro rfl
    exact htext hspelling.symm
  have hsignificant : ∀ sign ∈ signs, sign.isSignificant := by
    intro sign hsign
    exact isSignificant_of_kind (by rw [hsigns sign hsign]; rfl)
  exact (endsSignificant_of_forall hne hsignificant).append_left gap

namespace Parser

variable {setting : Setting}

/-- A matched token stands behind a gap. -/
theorem keeps_tokenWhere (wanted : Text) (test : Token → Bool) :
    (tokenWhere wanted test).Keeps setting (Promise.token test) := by
  constructor
  intro region rest hscope
  have hdropped := Setting.scope_dropTrivia hscope
  obtain ⟨gap, hrest, hgap⟩ := exists_gap rest
  unfold tokenWhere
  dsimp only
  cases hfollowing : dropTrivia rest with
  | nil => exact setting.admits_unexpectedEnd wanted (Setting.scope_nil hscope)
  | cons token next =>
    dsimp only
    split_ifs with htest
    · refine ⟨gap ++ [token], ?_, gap, rfl, hgap, ?_, htest⟩
      · rw [hfollowing] at hrest
        rw [hrest, List.append_assoc, List.singleton_append]
      · exact isSignificant_of_dropTrivia_eq_cons hfollowing
    · rw [hfollowing] at hdropped
      exact setting.admits_expectedAt wanted hdropped

/-- A part that may be left out leaves no trivia at the end. -/
theorem Keeps.optional_trimmed {α : Type} {p : Parser α} (h : p.Keeps setting Promise.significant) :
    p.optional.Keeps setting Promise.trimmed := by
  refine h.optional.mono ?_
  rintro region used next (_ | value) hvalue
  · exact .inl hvalue
  · exact .inr hvalue

/-- A sequence ends with a significant token when its last parser does. -/
theorem Keeps.bind_significant {α β : Type} {p : Parser α} {following : α → Parser β}
    {first : Promise α} (hp : p.Keeps setting first)
    (hfollowing : ∀ value, (following value).Keeps setting Promise.significant) :
    (p >>= following).Keeps setting Promise.significant := by
  refine hp.bind fun value => (hfollowing value).mono ?_
  intro region used next result hused before _
  exact EndsSignificant.append_left hused before

/-- A keyword ends with a significant token. -/
theorem keeps_keyword (text : Text) : (keyword text).Keeps setting Promise.significant :=
  (keeps_tokenWhere _ _).mono fun _ _ _ _ => Promise.token.endsSignificant

/-- A token of a kind ends with a significant token. -/
theorem keeps_anyToken (kind : TokenKind) : (anyToken kind).Keeps setting Promise.significant :=
  (keeps_tokenWhere _ _).mono fun _ _ _ _ => Promise.token.endsSignificant

/-- A string ends with a significant token. -/
theorem keeps_anyString : anyString.Keeps setting Promise.significant :=
  (keeps_tokenWhere _ _).mono fun _ _ _ _ => Promise.token.endsSignificant

/-- Symbols are matched a token at a time. -/
theorem afterSymbols_cons {text : Text} (h : text ≠ []) (token : Token) (rest : List Token) :
    afterSymbols text (token :: rest) =
      if token.kind == .symbol && Text.startsWith text token.value then
        afterSymbols (text.drop token.value.length) rest
      else none := by
  cases text with
  | nil => exact absurd rfl h
  | cons => rfl

/-- What stands before the tokens behind a text of symbols is symbols that spell the text. -/
theorem exists_of_afterSymbols {text : Text} {rest next : List Token}
    (h : afterSymbols text rest = some next) :
    ∃ signs, rest = signs ++ next ∧ spelling signs = text ∧
      ∀ sign ∈ signs, sign.kind = .symbol := by
  fun_induction afterSymbols text rest with
  | case1 =>
    cases h
    exact ⟨[], rfl, rfl, by simp⟩
  | case2 => cases h
  | case3 text token rest _ hsign ih =>
    obtain ⟨signs, rfl, hspelling, hsigns⟩ := ih h
    rw [Bool.and_eq_true, beq_iff_eq] at hsign
    obtain ⟨later, rfl⟩ := List.isPrefixOf_iff_prefix.mp hsign.2
    rw [List.drop_left] at hspelling
    exact ⟨token :: signs, rfl, by rw [spelling_cons, hspelling],
      List.forall_mem_cons.mpr ⟨hsign.1, hsigns⟩⟩
  | case4 => cases h

/-- A run of symbols stands behind a gap. -/
theorem keeps_symbol (text : Text) :
    (symbol text).Keeps setting fun region used next value =>
      value = text ∧ Promise.symbols region used next value := by
  constructor
  intro region rest hscope
  obtain ⟨gap, hrest, hgap⟩ := exists_gap rest
  unfold symbol
  dsimp only
  cases hafter : afterSymbols text (dropTrivia rest) with
  | none => exact Setting.admits_expected hscope _
  | some next =>
    obtain ⟨signs, hsigns, hspelling, hkinds⟩ := exists_of_afterSymbols hafter
    refine ⟨gap ++ signs, ?_, rfl, gap, signs, rfl, hgap, hspelling, hkinds⟩
    rw [hsigns] at hrest
    rw [hrest, List.append_assoc]

/-- A run of symbols that spells something ends with a significant token. -/
theorem keeps_symbol_significant {text : Text} (htext : text ≠ []) :
    (symbol text).Keeps setting Promise.significant := by
  refine (keeps_symbol text).mono ?_
  rintro region used next value ⟨rfl, hvalue⟩
  exact Promise.symbols.endsSignificant hvalue htext

/-- Ordering by length is an insertion sort. -/
theorem longestFirst_eq_insertionSort (candidates : List Text) :
    longestFirst candidates =
      candidates.insertionSort fun a b => b.byteLength ≤ a.byteLength := by
  have hinsert (text : Text) (sorted : List Text) :=
    List.orderedInsert_eq_take_drop (fun a b => b.byteLength ≤ a.byteLength) text sorted
  simp only [Nat.not_le] at hinsert
  exact congrArg (List.foldr · [] candidates)
    (funext₂ fun text sorted => (hinsert text sorted).symm)

/-- Ordering by length keeps the candidates. -/
theorem mem_longestFirst {found : Text} {candidates : List Text} :
    found ∈ longestFirst candidates ↔ found ∈ candidates := by
  rw [longestFirst_eq_insertionSort, List.mem_insertionSort]

/-- Whichever text is spelled is one of the texts tried. -/
theorem runSymbols_keeps {region : Region} {rest : List Token} {error : ParseError}
    (hscope : setting.scope region rest) (herror : setting.admits error) (texts : List Text) :
    (runSymbols region rest error texts).Keeps setting
      (fun region used next value => value ∈ texts ∧ Promise.symbols region used next value)
      region rest := by
  induction texts with
  | nil => exact herror
  | cons text others ih =>
    have hreply := (keeps_symbol text).reply region rest hscope
    have hothers : (runSymbols region rest error others).Keeps setting
        (fun region used next value =>
          value ∈ text :: others ∧ Promise.symbols region used next value) region rest :=
      ih.mono fun _ _ _ hvalue => ⟨List.mem_cons_of_mem _ hvalue.1, hvalue.2⟩
    unfold runSymbols
    generalize (symbol text).run region rest = reply at hreply ⊢
    rcases reply with ⟨value | error | _, next⟩
    · obtain ⟨used, hrest, rfl, hsymbols⟩ := hreply
      exact ⟨used, hrest, List.mem_cons_self, hsymbols⟩
    · exact hothers
    · exact hothers

/-- One of several runs of symbols ends with a significant token when none of them is empty. -/
theorem keeps_oneOfSymbols {candidates : List Text} (h : [] ∉ candidates) :
    (oneOfSymbols candidates).Keeps setting Promise.significant := by
  constructor
  intro region rest hscope
  have hreply := runSymbols_keeps hscope (Setting.admits_expected hscope
    (List.intercalate " or ".toList (candidates.map quotedName))) (longestFirst candidates)
  refine hreply.mono ?_
  rintro used next value ⟨hvalue, hsymbols⟩
  have hne : value ≠ [] := fun hnil => h (hnil ▸ mem_longestFirst.mp hvalue)
  exact Promise.symbols.endsSignificant hsymbols hne

/-- Moving over trivia consumes a gap. -/
theorem keeps_skipTrivia :
    skipTrivia.Keeps setting fun _ used _ _ => AllTrivia used := by
  constructor
  intro region rest _
  obtain ⟨gap, hrest, hgap⟩ := exists_gap rest
  exact ⟨gap, hrest, hgap⟩

/-- The condition on whitespace consumes nothing. -/
theorem keeps_noSpacesHere : noSpacesHere.Keeps setting Promise.nothing := by
  constructor
  intro region rest hscope
  unfold noSpacesHere
  dsimp only
  split
  · split_ifs
    · exact setting.admits_expectedAt _ hscope
    · exact ⟨[], rfl, rfl⟩
  · exact ⟨[], rfl, rfl⟩

/-- Captured trivia is the whole gap as written. -/
theorem keeps_trivia :
    trivia.Keeps setting fun _ used next value => AllTrivia used ∧ dropTrivia next = next ∧
      ∃ first more, used = first :: more ∧ value = ⟨spelling used, first.position⟩ := by
  constructor
  intro region rest hscope
  have hgap : AllTrivia (rest.takeWhile Token.isTrivia) :=
    fun _ htoken => List.mem_takeWhile_imp htoken
  have hrest : rest = rest.takeWhile Token.isTrivia ++ dropTrivia rest :=
    List.takeWhile_append_dropWhile.symm
  unfold trivia
  dsimp only
  cases htaken : rest.takeWhile Token.isTrivia with
  | nil => exact Setting.admits_expected hscope _
  | cons first more =>
    rw [htaken] at hgap hrest
    exact ⟨first :: more, hrest, hgap, dropTrivia_dropTrivia rest, first, more, rfl, rfl⟩

/-- The condition on the end consumes nothing. -/
theorem keeps_endOfInput : endOfInput.Keeps setting Promise.nothing := by
  constructor
  intro region rest hscope
  unfold endOfInput
  dsimp only
  split_ifs
  · exact ⟨[], rfl, rfl⟩
  · exact Setting.admits_expected hscope _

end Parser

end StyleSyntax
