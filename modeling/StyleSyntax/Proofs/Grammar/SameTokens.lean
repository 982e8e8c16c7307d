import StyleSyntax.Proofs.Grammar.ComparedValues

/-!
# Two runs on the same tokens

A run may be compared with itself, or with a run of other parsers on the same tokens. With tokens
barred the comparison tells what a phrase is made of: a list of selectors passes no semicolon, no
sign of an at-rule, and a literal with a dollar sign only together with the braces behind it, so
such a literal is never the last token of the list.
-/

namespace StyleSyntax

open StyleSyntax.Parser StyleSyntax.Grammar

/-- The barred ones among the significant tokens open interpolations. -/
def OnlyOpen (barred : Token → Prop) (tokens : List Token) : Prop :=
  ∀ front token back, tokens = front ++ token :: back → token.isSignificant → barred token →
    back.head?.any token.opensInterpolation

/-- In a gap there is nothing to open an interpolation. -/
theorem onlyOpen_of_allTrivia {barred : Token → Prop} {gap : List Token} (h : AllTrivia gap) :
    OnlyOpen barred gap := by
  rintro front token back rfl hsignificant -
  have htoken := h token (by simp)
  rw [isTrivia_eq_false_of_significant hsignificant] at htoken
  cases htoken

/-- Where barred tokens open interpolations in two parts they do so in both together. -/
theorem OnlyOpen.append {barred : Token → Prop} {used more : List Token} (h : OnlyOpen barred used)
    (hmore : OnlyOpen barred more) : OnlyOpen barred (used ++ more) := by
  intro front token back hsplit hsignificant htoken
  rcases List.append_eq_append_iff.mp hsplit with
    ⟨between, rfl, hbetween⟩ | ⟨between, rfl, hbetween⟩
  · exact hmore between token back hbetween hsignificant htoken
  · cases between with
    | nil => exact hmore [] token back hbetween.symm hsignificant htoken
    | cons first between =>
      obtain ⟨rfl, rfl⟩ := List.cons.inj hbetween
      have hopens := h front token between rfl hsignificant htoken
      cases between with
      | nil => cases hopens
      | cons region later => exact hopens

/-- Two runs on the same tokens, of no more characters than the bound. They pass the barred tokens
as the beginnings of interpolations alone. -/
def Comparison.same (region : Region) (bound : Nat) (barred : Token → Prop) : Comparison where
  left := region
  right := region
  view := .full
  leaves rest rest' := rest' = rest ∧ (spelling rest).length ≤ bound
  takes used used' := used' = used ∧ OnlyOpen barred used
  bars := barred
  config_eq := rfl
  takes_nil := ⟨rfl, onlyOpen_of_allTrivia (by simp [AllTrivia])⟩
  takes_append := by
    rintro used _ more _ ⟨rfl, hused⟩ ⟨rfl, hmore⟩
    exact ⟨rfl, hused.append hmore⟩
  nil_iff_of_takes := by
    rintro used _ ⟨rfl, -⟩
    rfl
  trimmedSpelling_eq := by
    rintro used _ ⟨rfl, -⟩ -
    rfl
  excerpt_eq := by
    rintro used _ source source' ⟨rfl, -⟩ hsource hsource'
    exact congrArg _ (hsource.eq hsource')
  gap_eq := by
    rintro first _ more _ ⟨htokens, -⟩ -
    obtain ⟨rfl, rfl⟩ := List.cons.inj htokens
    rfl
  behind := by
    rintro _ rest ⟨rfl, hbound⟩
    cases hrest : dropTrivia rest with
    | nil => exact .inl ⟨rfl, rfl⟩
    | cons token next =>
      have hgap : OnlyOpen barred (rest.takeWhile Token.isTrivia) :=
        onlyOpen_of_allTrivia fun _ hfirst => List.mem_takeWhile_imp hfirst
      refine .inr ⟨token, token, next, next, rfl, rfl, ⟨rfl, rfl, rfl⟩, ⟨rfl, hgap⟩, rfl, ?_⟩
      have hall := takeWhile_append_dropTrivia rest
      rw [hrest] at hall
      rw [← hall, spelling_append, List.length_append] at hbound
      exact (Nat.le_add_left _ _).trans hbound
  here := by
    rintro _ rest ⟨rfl, -⟩
    cases rest with
    | nil => exact .inr ⟨by simp, by simp⟩
    | cons token next =>
      by_cases htoken : token.isSignificant
      · exact .inl ⟨token, token, next, next, rfl, rfl, htoken, rfl, rfl, rfl⟩
      · have htrivia : token.isTrivia := by simpa [Token.isSignificant] using htoken
        exact .inr ⟨by simpa using htrivia, by simpa using htrivia⟩
  pass := by
    rintro _ token _ next ⟨heq, hbound⟩ - hopen
    obtain ⟨rfl, rfl⟩ := List.cons.inj heq
    have hone : OnlyOpen barred [token] := by
      intro front found back hsplit _ hbarred
      have hfound : found ∈ [token] := by simp [hsplit]
      rw [List.mem_singleton.mp hfound] at hbarred
      exact absurd hbarred hopen
    refine ⟨⟨rfl, hone⟩, rfl, ?_⟩
    rw [spelling_cons, List.length_append] at hbound
    exact (Nat.le_add_left _ _).trans hbound

/-- A gap stands in both runs on the same tokens. -/
theorem Comparison.same_isEven (region : Region) (bound : Nat) (barred : Token → Prop) :
    (Comparison.same region bound barred).IsEven where
  finish := by
    rintro _ rest ⟨rfl, -⟩ hrest
    obtain ⟨gap, hgap, htrivia⟩ := exists_gap rest
    rw [hrest, List.append_nil] at hgap
    exact ⟨⟨rfl, onlyOpen_of_allTrivia (hgap ▸ htrivia)⟩, rfl, Nat.zero_le _⟩

/-- Runs on the same tokens without bars are runs on whole lists. -/
theorem Comparison.same_isWhole (region : Region) (bound : Nat) (dialect : Dialect) :
    (Comparison.same region bound fun _ => False).IsWhole dialect where
  toIsEven := same_isEven region bound _
  not_bars _ := id
  breaks := by
    rintro rest _ - ⟨rfl, -⟩
    rfl

/-- Interpolations are passed in both runs on the same tokens when no braces are barred. -/
theorem Comparison.same_jumps (region : Region) (bound : Nat) {barred : Token → Prop}
    (hbarred : ∀ token, barred token → token.isBraces = false) :
    (Comparison.same region bound barred).Jumps where
  opens_eq := by
    rintro _ token _ next ⟨heq, -⟩ - -
    obtain ⟨rfl, rfl⟩ := List.cons.inj heq
    rfl
  pass := by
    rintro _ token _ inner _ next ⟨heq, hbound⟩ hopens
    obtain ⟨rfl, hlater⟩ := List.cons.inj heq
    obtain ⟨rfl, rfl⟩ := List.cons.inj hlater
    have hpair : OnlyOpen barred [token, inner] := by
      intro front found back hsplit _ hfound
      cases front with
      | nil =>
        obtain ⟨rfl, rfl⟩ := List.cons.inj hsplit
        exact hopens
      | cons first front =>
        obtain ⟨-, hsplit⟩ := List.cons.inj hsplit
        have hmem : found ∈ [inner] := by simp [hsplit]
        rw [List.mem_singleton.mp hmem] at hfound
        rw [Token.opensInterpolation, hbarred inner hfound, Bool.and_false] at hopens
        cases hopens
    refine ⟨⟨rfl, rfl, rfl⟩, ⟨rfl, hpair⟩, rfl, ?_⟩
    rw [spelling_cons, spelling_cons, List.length_append, List.length_append] at hbound
    omega

namespace Grammar

/-- Semicolons, the signs of at-rules and the literals with a dollar sign. -/
def IsForeign (token : Token) : Prop :=
  token.isSemicolon ∨ token.isAt ∨ token.kind = .literal ∧ '$' ∈ token.value

/-- A list of selectors passes foreign tokens as the beginnings of interpolations alone. -/
theorem onlyOpen_of_selectorList {dialect : Dialect} {region : Region} {used next : List Token}
    {selectors : List Selector}
    (h : (selectorList dialect).run region (used ++ next) = ⟨.ok selectors, next⟩) :
    OnlyOpen IsForeign used := by
  have hbraces (token : Token) (htoken : IsForeign token) : token.isBraces = false := by
    obtain ⟨kind, value, position⟩ := token
    have hkind : kind = .symbol ∨ kind = .literal := by
      obtain hsign | hsign | ⟨hliteral, -⟩ := htoken
      · exact .inl (beq_iff_eq.mp (Bool.and_eq_true _ _ ▸ hsign).1)
      · exact .inl (beq_iff_eq.mp (Bool.and_eq_true _ _ ▸ hsign).1)
      · exact .inr hliteral
    obtain rfl | rfl := hkind <;> rfl
  have hagrees : (selectorList dialect).Agrees
      (.same region (spelling (used ++ next)).length IsForeign) (List.map View.full.selector)
      (selectorList dialect) :=
    agrees_selectorList (Comparison.same_isEven region _ _) (fun _ htoken => .inr htoken)
      fun _ => Comparison.same_jumps region _ hbraces
  have hreply := hagrees.reply ⟨rfl, Nat.le_refl _⟩
  dsimp only [Comparison.same] at hreply
  rw [h] at hreply
  cases hreply with
  | ok hrest hrest' htakes hnext hvalue =>
    obtain rfl := List.append_cancel_right hrest
    exact htakes.2

end Grammar

end StyleSyntax
