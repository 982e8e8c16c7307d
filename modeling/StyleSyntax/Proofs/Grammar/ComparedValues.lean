import StyleSyntax.Proofs.Grammar.ComparedPhrases

/-!
# Values and script in two runs

Values and statements of script take whole stretches of tokens with the gaps in them, and end at the
same token in both runs where nothing is barred. Values see of a gap only that no significant token
stands before. Script ends at a gap that breaks the line, so the extended language asks for gaps
that break lines in both runs or in neither.
-/

namespace StyleSyntax

open StyleSyntax.Parser StyleSyntax.Grammar

variable {α β : Type} {c : Comparison}

/-- Nothing is barred, and gaps are passed together. In the extended language they break lines in
both runs or in neither. -/
structure Comparison.IsWhole (c : Comparison) (dialect : Dialect) : Prop extends c.IsEven where
  not_bars (token : Token) : ¬c.bars token
  breaks {rest rest' : List Token} : dialect = .jss → c.leaves rest rest' →
    (rest'.takeWhile Token.isTrivia).any breaksLine = (rest.takeWhile Token.isTrivia).any breaksLine

namespace Comparison.IsWhole

variable {dialect : Dialect} (hc : c.IsWhole dialect)

include hc

/-- Without bars none is in the way of a phrase. -/
theorem sparesPhrases : c.SparesPhrases :=
  fun token htoken => absurd htoken (hc.not_bars token)

/-- Without bars interpolations are passed token by token. -/
theorem jumps : c.Jumps where
  opens_eq {token token' next next'} hleaves htoken hsame := by
    obtain ⟨region, region', later, later', rfl, rfl, -, hregion⟩ | ⟨htrivia, htrivia'⟩ :=
      c.here (c.pass hleaves htoken (hc.not_bars token)).2
    · have hbraces := hregion.test_eq Token.isBraces fun _ _ _ _ => rfl
      simp only [List.head?_cons, Option.any_some, Token.opensInterpolation, hsame.kind,
        hsame.value, hbraces]
    · have hbraces (token region : Token) (hopens : token.opensInterpolation region) :=
        (isSignificant_of_opensInterpolation hopens).2
      rw [any_head?_eq_false (hbraces token) htrivia, any_head?_eq_false (hbraces token') htrivia']
  pass {token token' region region' next next'} hleaves hopens := by
    obtain ⟨htoken, hregion⟩ := isSignificant_of_opensInterpolation hopens
    obtain ⟨hfirst, hmiddle⟩ := c.pass hleaves htoken (hc.not_bars token)
    obtain ⟨hsecond, hnext⟩ := c.pass hmiddle hregion (hc.not_bars region)
    obtain ⟨_, _, _, _, hcons, hcons', -, hsame⟩ | ⟨htrivia, -⟩ := c.here hmiddle
    · obtain ⟨rfl, rfl⟩ := List.cons.inj hcons
      obtain ⟨rfl, rfl⟩ := List.cons.inj hcons'
      exact ⟨hsame, c.takes_append hfirst hsecond, hnext⟩
    · have hfirst := htrivia region rfl
      rw [isTrivia_eq_false_of_significant hregion] at hfirst
      cases hfirst

end Comparison.IsWhole

/-- The same token stands before, or no significant token does. -/
def View.SameBefore (view : View) (previous previous' : Option Token) : Prop :=
  (∀ token ∈ previous, token.isTrivia) ∧ (∀ token ∈ previous', token.isTrivia) ∨
    ∃ token token', previous = some token ∧ previous' = some token' ∧ view.Same token token'

/-- The test for the tokens of a value allows trivia, and sees neither positions nor what a gap
is. -/
structure SeesNoGap (allows : Option Token → Token → Bool) : Prop where
  trivia (previous : Option Token) {token : Token} : token.isTrivia → allows previous token
  same {view : View} {previous previous' : Option Token} {token token' : Token} :
    view.SameBefore previous previous' → view.Same token token' →
    allows previous' token' = allows previous token

/-- A token of a gap, or nothing, stands before when a gap does. -/
theorem View.SameBefore.gap {view : View} {gap gap' : List Token} (hgap : AllTrivia gap)
    (hgap' : AllTrivia gap') (hnil : gap = [] ↔ gap' = []) {previous previous' : Option Token}
    (h : view.SameBefore previous previous') :
    view.SameBefore (gap.getLast?.or previous) (gap'.getLast?.or previous') := by
  cases hlast : gap.getLast? with
  | none =>
    have hempty := List.getLast?_eq_none_iff.mp hlast
    rw [hnil.mp hempty]
    exact h
  | some last =>
    cases hlast' : gap'.getLast? with
    | none =>
      have hempty := List.getLast?_eq_none_iff.mp hlast'
      rw [hnil.mpr hempty] at hlast
      cases hlast
    | some last' =>
      refine .inl ⟨?_, ?_⟩
      · rintro token ⟨rfl⟩
        exact hgap _ (List.mem_of_getLast? hlast)
      · rintro token ⟨rfl⟩
        exact hgap' _ (List.mem_of_getLast? hlast')

/-- Tokens that end significant, or none, still do so behind a significant token. -/
theorem EndsTrimmed.behind {used : List Token} (h : EndsTrimmed used) (gap : List Token)
    {token : Token} (htoken : token.isSignificant) : EndsTrimmed (gap ++ token :: used) := by
  rw [← List.singleton_append, ← List.append_assoc]
  exact .inr ((endsSignificant_concat gap htoken).append_right h)

/-- There is no gap before the tokens of an excerpt. -/
theorem Excerpt.IsOf.dropTrivia_eq {tokens : List Token} {excerpt : Excerpt}
    (h : excerpt.IsOf tokens) : dropTrivia tokens = tokens := by
  obtain ⟨first, more, rfl, hfirst, -⟩ := h.begins
  exact dropTrivia_cons hfirst more

namespace Grammar

/-! ## Values -/

/-- Braces in values are judged without looking at positions and gaps. -/
theorem seesNoGap_valueAllows (dialect : Dialect) : SeesNoGap (valueAllows dialect) := by
  refine ⟨fun previous {token} htrivia => ?_, fun {view previous previous' token token'} hbefore
    hsame => ?_⟩
  · have hbraces : token.isBraces = false := by
      rw [← Bool.not_eq_true]
      intro hbraces
      rw [isTrivia_eq_false_of_significant (isSignificant_of_isBraces hbraces)] at htrivia
      cases htrivia
    rw [valueAllows, hbraces]
    rfl
  · have hno {before : Option Token} (htrivia : ∀ token ∈ before, token.isTrivia) :
        (before.any fun token => token.kind == .literal && token.value.getLast? == some '$') =
          false := by
      cases before with
      | none => rfl
      | some token =>
        have hkind : token.kind ≠ .literal := by
          intro hkind
          have htoken := htrivia token rfl
          rw [Token.isTrivia, hkind] at htoken
          cases htoken
        rw [Option.any_some, beq_false_of_ne hkind, Bool.false_and]
    have hbraces := hsame.test_eq Token.isBraces fun _ _ _ _ => rfl
    have hopens : (previous'.any fun before =>
        before.kind == .literal && before.value.getLast? == some '$') =
        previous.any fun before =>
          before.kind == .literal && before.value.getLast? == some '$' := by
      obtain ⟨htrivia, htrivia'⟩ | ⟨before, before', rfl, rfl, hboth⟩ := hbefore
      · rw [hno htrivia, hno htrivia']
      · rw [Option.any_some, Option.any_some, hboth.kind, hboth.value]
    rw [valueAllows, valueAllows, hbraces, hopens]

/-- A gap is part of a value, and stands before what comes next. -/
theorem valueExtent_append {stops : Token → Bool} {allows : Option Token → Token → Bool}
    (hstops : ∀ token, token.isTrivia → stops token = false) (hallows : SeesNoGap allows)
    {gap : List Token} (hgap : AllTrivia gap) (previous : Option Token) (rest : List Token) :
    valueExtent stops allows previous (gap ++ rest) =
      (gap.length + (valueExtent stops allows (gap.getLast?.or previous) rest).1,
        (valueExtent stops allows (gap.getLast?.or previous) rest).2) := by
  induction gap generalizing previous with
  | nil => simp
  | cons token gap ih =>
    obtain ⟨htoken, hgap⟩ := List.forall_mem_cons.mp hgap
    have hsemicolon : token.isSemicolon = false := by
      rw [← Bool.not_eq_true]
      intro hsemicolon
      rw [isTrivia_eq_false_of_significant (isSignificant_of_isSymbol hsemicolon)] at htoken
      cases htoken
    have hbefore : (token :: gap).getLast?.or previous = gap.getLast?.or (some token) := by
      rw [List.getLast?_cons]
      cases gap.getLast? <;> rfl
    rw [List.cons_append, valueExtent, hsemicolon, hstops token htoken, Bool.false_or,
      if_neg Bool.false_ne_true, if_pos (hallows.trivia previous htoken), ih hgap, hbefore]
    simp only [List.length_cons, Prod.mk.injEq, and_true]
    omega

/-- A value extends over the same tokens in both runs, apart from a gap at its end. -/
def ValuesAgree (c : Comparison) (stops : Token → Bool) (allows : Option Token → Token → Bool)
    (previous previous' : Option Token) (rest rest' : List Token) : Prop :=
  ∃ used used' gap gap' next next' isBroken, rest = used ++ (gap ++ next) ∧
    rest' = used' ++ (gap' ++ next') ∧ EndsTrimmed used ∧ EndsTrimmed used' ∧
    AllTrivia gap ∧ AllTrivia gap' ∧
    valueExtent stops allows previous rest = (used.length + gap.length, isBroken) ∧
    valueExtent stops allows previous' rest' = (used'.length + gap'.length, isBroken) ∧
    c.takes used used' ∧ c.leaves (gap ++ next) (gap' ++ next')

section

variable {stops : Token → Bool} {allows : Option Token → Token → Bool}
  (htrivia : ∀ token, token.isTrivia → stops token = false) (hallows : SeesNoGap allows)
  {previous previous' : Option Token} {gap gap' next next' : List Token} {token token' : Token}
  (hgap : AllTrivia gap) (hgap' : AllTrivia gap')

include htrivia hallows hgap hgap'

/-- A value that ends behind a gap leaves both runs before it. -/
theorem valuesAgree_here (hleaves : c.leaves (gap ++ next) (gap' ++ next')) (isBroken : Bool)
    (hstop : valueExtent stops allows (gap.getLast?.or previous) next = (0, isBroken))
    (hstop' : valueExtent stops allows (gap'.getLast?.or previous') next' = (0, isBroken)) :
    ValuesAgree c stops allows previous previous' (gap ++ next) (gap' ++ next') := by
  refine ⟨[], [], gap, gap', next, next', isBroken, rfl, rfl, .inl rfl, .inl rfl, hgap, hgap', ?_,
    ?_, c.takes_nil, hleaves⟩
  · simp [valueExtent_append htrivia hallows hgap, hstop]
  · simp [valueExtent_append htrivia hallows hgap', hstop']

/-- A value goes on behind a token that is part of it in both runs. -/
theorem ValuesAgree.cons
    (h : ValuesAgree c stops allows (some token) (some token') next next')
    (htakes : c.takes gap gap') (hfirst : c.takes [token] [token']) (htoken : token.isSignificant)
    (htoken' : token'.isSignificant)
    (hextent : valueExtent stops allows (gap.getLast?.or previous) (token :: next) =
      ((valueExtent stops allows (some token) next).1 + 1,
        (valueExtent stops allows (some token) next).2))
    (hextent' : valueExtent stops allows (gap'.getLast?.or previous') (token' :: next') =
      ((valueExtent stops allows (some token') next').1 + 1,
        (valueExtent stops allows (some token') next').2)) :
    ValuesAgree c stops allows previous previous' (gap ++ token :: next)
      (gap' ++ token' :: next') := by
  obtain ⟨used, used', last, last', left, left', isBroken, rfl, rfl, hends, hends', hlast, hlast',
    hlater, hlater', hmore, hleft⟩ := h
  refine ⟨gap ++ token :: used, gap' ++ token' :: used', last, last', left, left', isBroken,
    by simp, by simp, hends.behind gap htoken, hends'.behind gap' htoken', hlast, hlast', ?_, ?_,
    c.takes_append htakes (c.takes_append hfirst hmore), hleft⟩
  · rw [valueExtent_append htrivia hallows hgap, hextent, hlater]
    simp only [List.length_append, List.length_cons, Prod.mk.injEq, and_true]
    omega
  · rw [valueExtent_append htrivia hallows hgap', hextent', hlater']
    simp only [List.length_append, List.length_cons, Prod.mk.injEq, and_true]
    omega

omit hgap hgap'

/-- Values extend alike in both runs. -/
theorem valuesAgree (hopen : ∀ token, ¬c.bars token) (hstops : SeesNoPosition stops)
    {rest rest' : List Token} (hleaves : c.leaves rest rest')
    (hbefore : c.view.SameBefore previous previous') :
    ValuesAgree c stops allows previous previous' rest rest' := by
  induction hlength : rest.length using Nat.strong_induction_on
    generalizing rest rest' previous previous' with
  | _ length ih =>
    subst hlength
    obtain ⟨gap, gap', hgap, hgap', ⟨rfl, rfl⟩ | ⟨token, token', next, next', rfl, rfl, htoken,
      htoken', hsame, htakes, hnext⟩⟩ := Comparison.gap_cases hleaves
    · rw [← List.append_nil rest, ← List.append_nil rest'] at hleaves ⊢
      exact valuesAgree_here htrivia hallows hgap hgap' hleaves false rfl rfl
    · have hsemicolon := hsame.test_eq Token.isSemicolon fun _ _ _ _ => rfl
      have hstopping := hsame.test_eq stops hstops
      have hbetween := hallows.same (hbefore.gap hgap hgap' (c.nil_iff_of_takes htakes)) hsame
      by_cases hstop : token.isSemicolon || stops token
      · refine valuesAgree_here htrivia hallows hgap hgap' hleaves false ?_ ?_
        · rw [valueExtent, if_pos hstop]
        · rw [valueExtent, hsemicolon, hstopping, if_pos hstop]
      · by_cases hallowed : allows (gap.getLast?.or previous) token
        · obtain ⟨hfirst, hbehind⟩ := c.pass hnext htoken (hopen token)
          have hlater := ih next.length (by simp only [List.length_append, List.length_cons]; omega)
            hbehind (.inr ⟨token, token', rfl, rfl, hsame⟩) rfl
          refine hlater.cons htrivia hallows hgap hgap' htakes hfirst htoken htoken' ?_ ?_
          · rw [valueExtent, if_neg hstop, if_pos hallowed]
          · rw [valueExtent, hsemicolon, hstopping, if_neg hstop, hbetween, if_pos hallowed]
        · refine valuesAgree_here htrivia hallows hgap hgap' hleaves true ?_ ?_
          · rw [valueExtent, if_neg hstop, if_neg hallowed]
          · rw [valueExtent, hsemicolon, hstopping, if_neg hstop, hbetween, if_neg hallowed]

end

/-- Values agree. -/
theorem agrees_value (hopen : ∀ token, ¬c.bars token) (wanted : Text) {stops : Token → Bool}
    (htrivia : ∀ token, token.isTrivia → stops token = false) (hstops : SeesNoPosition stops)
    {allows : Option Token → Token → Bool} (hallows : SeesNoGap allows) :
    (value wanted stops allows).Agrees c id (value wanted stops allows) := by
  refine ⟨fun {rest rest'} hleaves => ?_, fun _ => rfl⟩
  obtain ⟨used, used', gap, gap', next, next', isBroken, hrest, hrest', hends, hends', hgap,
    hgap', hextent, hextent', htakes, hnext⟩ :=
    valuesAgree htrivia hallows hopen hstops hleaves
      (.inl ⟨by simp, by simp⟩ : c.view.SameBefore none none)
  have hnil := c.nil_iff_of_takes htakes
  have htake {used gap next : List Token} (hused : EndsTrimmed used) (hgap : AllTrivia gap) :
      significantLength ((used ++ (gap ++ next)).take (used.length + gap.length)) =
        used.length := by
    rw [← List.append_assoc, ← List.length_append, List.take_left,
      significantLength_append hused hgap]
  unfold value
  dsimp only
  rw [hextent, hextent']
  dsimp only
  rw [hrest, hrest', htake hends hgap, htake hends' hgap', List.drop_left, List.drop_left]
  simp only [List.length_eq_zero_iff, ← hnil]
  split_ifs
  · exact .failed (by rw [isBlock_expected, isBlock_expected])
  · exact .failed (by rw [isBlock_expected, isBlock_expected])
  · exact .ok rfl rfl htakes hnext rfl

/-! ## Script -/

/-- Script goes on behind a gap unless the gap breaks the line. -/
theorem scriptLength_append_cons {gap : List Token} (hgap : AllTrivia gap) {token : Token}
    (htoken : token.isSignificant) (rest : List Token) :
    scriptLength (gap ++ token :: rest) =
      if gap.any breaksLine then 0 else gap.length + scriptLength (token :: rest) := by
  induction gap with
  | nil => simp
  | cons first gap ih =>
    obtain ⟨hfirst, hgap⟩ := List.forall_mem_cons.mp hgap
    obtain ⟨length, hlength⟩ := Nat.exists_eq_succ_of_ne_zero (scriptLength_ne_zero htoken rest)
    rw [List.cons_append, scriptLength, if_pos hfirst, ih hgap, List.any_cons, hlength]
    cases breaksLine first <;> cases gap.any breaksLine <;> simp
    omega

/-- A statement of script is the source of the tokens that are counted for it. -/
theorem isOf_of_scriptLength {token : Token} {next used last : List Token}
    (htoken : token.isSignificant) (hused : token :: next = used ++ last)
    (hlength : scriptLength (token :: next) = used.length) :
    (⟨spelling used, token.position⟩ : Excerpt).IsOf used := by
  have hne := scriptLength_ne_zero htoken next
  have hends := endsSignificant_take_scriptLength hne
  rw [hlength, hused, List.take_left] at hends
  cases used with
  | nil => exact absurd hlength hne
  | cons first more =>
    obtain ⟨rfl, -⟩ := List.cons.inj hused
    exact ⟨⟨_, _, rfl, htoken, rfl⟩, hends⟩

/-- A semicolon stands right here in both runs, or in neither. -/
theorem head_isSemicolon_cases {rest rest' : List Token} (hleaves : c.leaves rest rest') :
    rest.head?.any Token.isSemicolon = false ∧ rest'.head?.any Token.isSemicolon = false ∨
    ∃ token token' next next', rest = token :: next ∧ rest' = token' :: next' ∧
      token.isSignificant ∧ rest.head?.any Token.isSemicolon ∧
      rest'.head?.any Token.isSemicolon := by
  obtain ⟨token, token', next, next', rfl, rfl, htoken, hsame⟩ | ⟨htrivia, htrivia'⟩ :=
    c.here hleaves
  · have hsees := hsame.test_eq Token.isSemicolon fun _ _ _ _ => rfl
    cases hsemicolon : token.isSemicolon with
    | false => exact .inl ⟨hsemicolon, hsees.trans hsemicolon⟩
    | true =>
      exact .inr ⟨token, token', next, next', rfl, rfl, htoken, hsemicolon,
        hsees.trans hsemicolon⟩
  · have hsign (token : Token) (hsemicolon : token.isSemicolon) : token.isSignificant :=
      isSignificant_of_isSymbol hsemicolon
    exact .inl ⟨any_head?_eq_false hsign htrivia, any_head?_eq_false hsign htrivia'⟩

/-- A statement of script has the same tokens in both runs. -/
def ScriptAgrees (c : Comparison) (rest rest' : List Token) : Prop :=
  ∃ used used' next next', rest = used ++ next ∧ rest' = used' ++ next' ∧
    scriptLength rest = used.length ∧ scriptLength rest' = used'.length ∧
    c.takes used used' ∧ c.leaves next next'

/-- A statement of script takes its first token in both runs, and the rest of it alike. -/
theorem scriptAgrees_cons (hc : c.IsWhole .jss) {token token' : Token} {next next' : List Token}
    (hleaves : c.leaves (token :: next) (token' :: next')) (htoken : token.isSignificant)
    (hsame : c.view.Same token token') (hlater : c.leaves next next' → ScriptAgrees c next next') :
    ScriptAgrees c (token :: next) (token' :: next') := by
  have htoken' := hsame.isSignificant htoken
  obtain ⟨hfirst, hbehind⟩ := c.pass hleaves htoken (hc.not_bars token)
  unfold ScriptAgrees
  rw [scriptLength, scriptLength, isTrivia_eq_false_of_significant htoken,
    isTrivia_eq_false_of_significant htoken', if_neg Bool.false_ne_true,
    if_neg Bool.false_ne_true, hsame.test_eq Token.isSemicolon fun _ _ _ _ => rfl,
    hsame.test_eq Token.isBraces fun _ _ _ _ => rfl]
  by_cases hsemicolon : token.isSemicolon
  · rw [if_pos hsemicolon, if_pos hsemicolon]
    exact ⟨[token], [token'], next, next', rfl, rfl, rfl, rfl, hfirst, hbehind⟩
  rw [if_neg hsemicolon, if_neg hsemicolon]
  by_cases hbraces : token.isBraces
  · rw [if_pos hbraces, if_pos hbraces]
    obtain ⟨hclose, hclose'⟩ | ⟨sign, sign', last, last', rfl, rfl, hsign, hclose, hclose'⟩ :=
      head_isSemicolon_cases hbehind
    · rw [hclose, hclose']
      exact ⟨[token], [token'], next, next', rfl, rfl, rfl, rfl, hfirst, hbehind⟩
    · rw [hclose, hclose']
      obtain ⟨hsecond, hlast⟩ := c.pass hbehind hsign (hc.not_bars sign)
      exact ⟨[token, sign], [token', sign'], last, last', rfl, rfl, rfl, rfl,
        c.takes_append hfirst hsecond, hlast⟩
  · rw [if_neg hbraces, if_neg hbraces]
    obtain ⟨used, used', last, last', rfl, rfl, hused, hused', hmore, hlast⟩ := hlater hbehind
    exact ⟨token :: used, token' :: used', last, last', rfl, rfl, congrArg (· + 1) hused,
      congrArg (· + 1) hused', c.takes_append hfirst hmore, hlast⟩

/-- Statements of script have the same tokens in both runs. -/
theorem scriptAgrees (hc : c.IsWhole .jss) {rest rest' : List Token}
    (hleaves : c.leaves rest rest') : ScriptAgrees c rest rest' := by
  induction hlength : rest.length using Nat.strong_induction_on generalizing rest rest' with
  | _ length ih =>
    subst hlength
    have hbreaks := hc.breaks rfl hleaves
    obtain ⟨gap, gap', hgap, hgap', ⟨rfl, rfl⟩ | ⟨token, token', next, next', rfl, rfl, htoken,
      htoken', hsame, htakes, hnext⟩⟩ := Comparison.gap_cases hleaves
    · exact ⟨[], [], rest, rest', rfl, rfl, scriptLength_of_allTrivia hgap,
        scriptLength_of_allTrivia hgap', c.takes_nil, hleaves⟩
    · rw [takeWhile_gap hgap htoken, takeWhile_gap hgap' htoken'] at hbreaks
      unfold ScriptAgrees
      rw [scriptLength_append_cons hgap htoken, scriptLength_append_cons hgap' htoken', hbreaks]
      split_ifs
      · exact ⟨[], [], _, _, rfl, rfl, rfl, rfl, c.takes_nil, hleaves⟩
      · obtain ⟨used, used', last, last', hused, hused', hlength, hlength', hmore, hlast⟩ :=
          scriptAgrees_cons hc hnext htoken hsame fun hlater =>
            ih next.length (by simp only [List.length_append, List.length_cons]; omega) hlater rfl
        refine ⟨gap ++ used, gap' ++ used', last, last', ?_, ?_, ?_, ?_,
          c.takes_append htakes hmore, hlast⟩
        · rw [hused, List.append_assoc]
        · rw [hused', List.append_assoc]
        · rw [hlength, List.length_append]
        · rw [hlength', List.length_append]

/-- Statements of script look the same. -/
theorem agrees_script (hc : c.IsWhole .jss) : script.Agrees c c.view.node script := by
  refine ⟨fun {rest rest'} hleaves => ?_, fun _ => rfl⟩
  unfold script
  dsimp only
  obtain ⟨hrest, hrest'⟩ | ⟨token, token', next, next', hrest, hrest', -, hgap, hnext⟩ :=
    c.behind hleaves
  · rw [hrest, hrest']
    exact .failed (by rw [isBlock_expected, isBlock_expected])
  · have htoken := isSignificant_of_dropTrivia_eq_cons hrest
    have htoken' := isSignificant_of_dropTrivia_eq_cons hrest'
    obtain ⟨used, used', last, last', hused, hused', hlength, hlength', htakes, hlast⟩ :=
      scriptAgrees hc hnext
    have hsource := isOf_of_scriptLength htoken hused hlength
    have hsource' := isOf_of_scriptLength htoken' hused' hlength'
    refine Reply.Agrees.behind_gap hgap ?_
    rw [hrest, hrest']
    dsimp only
    rw [hlength, hlength', hused, hused', List.take_left, List.take_left, List.drop_left,
      List.drop_left]
    refine .ok rfl rfl htakes hlast (congrArg (Node.leaf ∘ Leaf.script) (c.excerpt_eq htakes ?_ ?_))
    · rwa [hsource.dropTrivia_eq]
    · rwa [hsource'.dropTrivia_eq]

end Grammar

end StyleSyntax
