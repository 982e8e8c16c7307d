import StyleSyntax.Expression
import StyleSyntax.Proofs.Parser.Footing

/-!
# Expressions that go back when they fail

Whether a failed expression has moved can be told from its root, whatever stands below. Most roots
go back to the start on every failure. Repetitions, lists and blocks do so unless the failure came
from inside brackets, and only matches up to the end keep what they had read before any failure.
-/

namespace StyleSyntax

open StyleSyntax.Parser

namespace Grammar

variable {α β : Type} {errors : ParseError → Prop}

/-- A rule that builds its node from captured parts goes back. -/
theorem staysOn_capture_bind {p : Parser α} {build : α × Excerpt → β} :
    (capture p >>= fun captured => pure (build captured)).StaysOn errors :=
  (staysOn_capture p).bind fun _ => failsWith_pure _

/-- A parser with bodies is run with bodies of some depth. -/
theorem staysOn_withBodies {p : Bodies → Parser α} (h : ∀ bodies, (p bodies).StaysOn errors) :
    (withBodies p).StaysOn errors :=
  ⟨fun {_ rest _ _} hrun => (h (.within (spelling rest).length)).next_eq hrun⟩

/-- A name without units is no name, and nothing is taken for it. -/
theorem staysOn_identifier (dialect : Dialect) : (identifier dialect).StaysOn errors := by
  constructor
  intro region rest next error hrun _
  unfold identifier at hrun
  dsimp only at hrun
  split at hrun <;> cases hrun
  rfl

/-- A declaration is captured as a whole. -/
theorem staysOn_declaration (dialect : Dialect) : (declaration dialect).StaysOn errors :=
  staysOn_capture_bind

/-- So is a rule, whose body may have failed inside. -/
theorem staysOn_ruleBlock (bodies : Bodies) (dialect : Dialect) :
    (ruleBlock bodies dialect).StaysOn errors :=
  staysOn_capture_bind

/-- So is a variable with a block. -/
theorem staysOn_variableBlock (bodies : Bodies) : (variableBlock bodies).StaysOn errors :=
  staysOn_capture_bind

/-- So is a spread. -/
theorem staysOn_spread : spread.StaysOn errors :=
  staysOn_capture_bind

/-- Every rule behind a sign goes back, also when the name is unknown. -/
theorem staysOn_namedRule (bodies : Bodies) (dialect : Dialect) (name : Token) :
    (namedRule bodies dialect name).StaysOn errors := by
  unfold namedRule
  split_ifs
  · exact staysOn_capture_bind
  · exact staysOn_capture_bind
  · exact staysOn_capture_bind
  · exact staysOn_capture_bind
  · constructor
    intro region rest next error hrun _
    cases hrun
    rfl

/-- An at-rule is a rule behind a sign, or there is no sign or no name. -/
theorem staysOn_atRule (bodies : Bodies) (dialect : Dialect) :
    (atRule bodies dialect).StaysOn errors := by
  constructor
  intro region rest next error hrun herror
  unfold atRule at hrun
  dsimp only at hrun
  split at hrun
  · cases hrun
    rfl
  · split at hrun
    · split at hrun
      · cases hrun
        rfl
      · exact (staysOn_namedRule bodies dialect _).next_eq hrun herror
    · cases hrun
      rfl

/-- Script fails only where nothing is left. -/
theorem staysOn_script : script.StaysOn errors := by
  constructor
  intro region rest next error hrun _
  unfold script at hrun
  dsimp only at hrun
  split at hrun <;> cases hrun
  rfl

/-- A selector is captured as a whole. -/
theorem staysOn_selector (dialect : Dialect) : (selector dialect).StaysOn errors :=
  staysOn_capture_bind

end Grammar

open StyleSyntax.Grammar

/-- A rule that reads one node goes back whenever it fails. -/
theorem NodeRule.staysOn {errors : ParseError → Prop} (rule : NodeRule)
    (dialect : Dialect) : (rule.parser dialect).StaysOn errors := by
  cases rule with
  | ignored => exact staysOn_trivia.map _
  | straySemicolon => exact (staysOn_excerpt _).map _
  | ruleBlock => exact staysOn_withBodies fun bodies => staysOn_ruleBlock bodies dialect
  | declaration => exact staysOn_declaration dialect
  | atRule => exact staysOn_withBodies fun bodies => staysOn_atRule bodies dialect
  | selector => exact (staysOn_selector dialect).map _
  | variableBlock => exact staysOn_withBodies staysOn_variableBlock
  | spread => exact staysOn_spread
  | script => exact staysOn_script

namespace Expression

/-- The outermost part of an expression that is no label and no check. -/
def root : Expression → Expression
  | tag _ inner => inner.root
  | probe _ inner => inner.root
  | expression => expression

/-- Whether an expression with this root goes back to the start on every failure. -/
def goesBack : Expression → Bool
  | token _ | string | anyBlock | keyword _ | tokenWhere _ _ | symbol _ | oneOfSymbols _ => true
  | noSpaces | noLineBreak | endOfInput | trivia => true
  | sequence _ | firstOf _ | longestOf _ | optional _ | attempt _ | tried _ => true
  | lazyBlock _ _ | raw _ | excerpt _ | capture _ => true
  | nodeRule _ _ | identifier _ | mediaQuery | mediaQueryList => true
  | statementEnd | interpolationHere => true
  | _ => false

/-- Whether an expression with this root keeps what it had read before a failure: it matches up to
the end. -/
def readsToEnd : Expression → Bool
  | all _ | items _ _ => true
  | nodesRule .stylesheet _ | nodesRule .blockItems _ | nodesRule .declarationItems _ => true
  | _ => false

/-- Labels and checks change no failure. -/
theorem staysOn_of_root {errors : ParseError → Prop} (expression : Expression)
    (h : expression.root.parser.StaysOn errors) : expression.parser.StaysOn errors := by
  fun_induction root expression with
  | case1 label inner ih => exact (ih h).map _
  | case2 test inner ih => exact (ih h).probe _
  | case3 => exact h

/-- Reading a deferred block fails with no error of its own. -/
theorem failsWith_readDeferred {errors : ParseError → Prop} (deferred : Deferred Value) :
    (readDeferred deferred).FailsWith errors := by
  unfold readDeferred
  split
  · exact failsWith_pure _
  · exact failsWith_pure _
  · exact ⟨fun hrun => by cases hrun⟩

/-- An expression with such a root goes back on every failure. -/
theorem staysOn_of_goesBack {errors : ParseError → Prop} {expression : Expression}
    (h : expression.goesBack) : expression.parser.StaysOn errors := by
  cases expression with
  | token kind => exact (staysOn_tokenWhere _ _).map _
  | string => exact (staysOn_tokenWhere _ _).map _
  | anyBlock => exact (staysOn_tokenWhere _ _).map _
  | keyword text => exact (staysOn_tokenWhere _ _).map _
  | tokenWhere wanted test => exact (staysOn_tokenWhere _ _).map _
  | symbol text => exact (staysOn_symbol text).map _
  | oneOfSymbols candidates => exact (staysOn_oneOfSymbols candidates).map _
  | noSpaces => exact staysOn_noSpacesHere.map _
  | noLineBreak => exact staysOn_noLineTerminatorHere.map _
  | endOfInput => exact staysOn_endOfInput.map _
  | trivia => exact staysOn_trivia.map _
  | sequence steps => exact (staysOn_sequence _).map _
  | firstOf alternatives => exact staysOn_firstOf _
  | longestOf alternatives => exact staysOn_longestOf _
  | optional inner => exact (staysOn_optional _).map _
  | attempt inner => exact staysOn_attempt _
  | tried inner => exact (staysOn_optional _).map _
  | lazyBlock kinds inner =>
    exact (staysOn_lazyBlock kinds inner.parser).bind failsWith_readDeferred
  | raw inner => exact (staysOn_rawValue _).map _
  | excerpt inner => exact (staysOn_excerpt _).map _
  | capture inner => exact (staysOn_capture _).map _
  | nodeRule rule dialect => exact (rule.staysOn dialect).map _
  | identifier dialect => exact (staysOn_identifier dialect).map _
  | mediaQuery => exact (staysOn_firstOf _).map _
  | mediaQueryList => exact (staysOn_excerpt _).map _
  | statementEnd => exact (staysOn_firstOf _).map _
  | interpolationHere => exact ⟨fun hrun => by cases hrun⟩
  | _ => cases h

/-- An expression with any other root goes back on failures outside brackets, unless it matches up
to the end. -/
theorem staysOn_outside {expression : Expression} (h : expression.root.readsToEnd = false) :
    expression.parser.StaysOn fun error => error.isBlock = false := by
  fun_induction root expression with
  | case1 label inner ih => exact (ih h).map _
  | case2 test inner ih => exact (ih h).probe _
  | case3 expression hlabel hcheck =>
    by_cases hback : expression.goesBack
    · exact staysOn_of_goesBack hback
    cases expression with
    | many inner => exact (staysOn_many _).map _
    | list element separator allowEmpty => exact (staysOn_list _ _ _).map _
    | commaList element => exact (staysOn_commaList _).map _
    | leftRecursive left right => exact (staysOn_rawValue _).leftRecursive.map _
    | block kinds inner => exact staysOn_block kinds _
    | nodesRule rule dialect =>
      cases rule with
      | selectorList => exact ((staysOn_commaList _).map _).map _
      | _ => cases h
    | all inner => cases h
    | items rule dialect => cases h
    | tag label inner => exact absurd rfl (hlabel label inner)
    | probe test inner => exact absurd rfl (hcheck test inner)
    | _ => exact absurd rfl hback

/-- A failed run leaves the cursor where it was. Roots that go back do so for every error, and all
others but those that match up to the end do so for errors from outside brackets. -/
theorem cursor_eq_of_runOn_failed {expression : Expression} {config : LexerConfig}
    {tokens : List Token} {origin : Position} {skip cursor : Nat} {error : ParseError}
    (hrun : expression.runOn config tokens origin skip = (.failed error, cursor))
    (hroot : expression.root.goesBack ∨
      expression.root.readsToEnd = false ∧ error.isBlock = false) :
    cursor = skip ∧
      (expression.parser.run (.ofTokens config tokens origin) (tokens.drop skip)).rest =
        tokens.drop skip := by
  unfold runOn at hrun
  dsimp only at hrun
  rcases hreply : expression.parser.run (.ofTokens config tokens origin) (tokens.drop skip) with
    ⟨outcome, next⟩
  rw [hreply] at hrun
  obtain ⟨rfl, rfl⟩ := Prod.mk.inj hrun
  have hnext : next = tokens.drop skip := by
    rcases hroot with hback | ⟨hends, hblock⟩
    · have hstays : expression.parser.StaysOn fun _ => True :=
        staysOn_of_root expression (staysOn_of_goesBack hback)
      exact hstays.next_eq hreply trivial
    · exact (staysOn_outside hends).next_eq hreply hblock
  subst hnext
  exact ⟨by simp, rfl⟩

/-- A sequence is back at its start although its second step had moved into brackets. -/
theorem cursor_eq_of_runOn_failed_brackets :
    let pair : Expression := .sequence [.keyword ['a'], .block [.roundBrackets] (.keyword ['b'])]
    let tokens : List Token :=
      [⟨.literal, ['a'], ⟨1, 1⟩⟩, ⟨.roundBrackets, ['(', 'c', ')'], ⟨1, 2⟩⟩]
    let error := ((ParseError.leaf (.expected (quotedName ['b']) ['c']) ⟨1, 3⟩).within
      .block).within (.step 1)
    (pair.runOn {} tokens .start 0).1 = .failed error ∧ (pair.runOn {} tokens .start 0).2 = 0 ∧
      (pair.parser.run (.ofTokens {} tokens .start) tokens).rest = tokens := by
  intro pair tokens error
  have herror : error? (.ofTokens {} tokens .start) tokens pair.parser = some error := by
    decide +kernel
  have hfailed : (pair.runOn {} tokens .start 0).1 = .failed error := by
    obtain ⟨left, hrun⟩ := error?_eq_some.mp herror
    exact congrArg Reply.outcome hrun
  exact ⟨hfailed, cursor_eq_of_runOn_failed (Prod.ext hfailed rfl) (.inl rfl)⟩

/-- The same block on its own stays behind its token when its interior fails. -/
example :
    let block : Expression := .block [.roundBrackets] (.keyword ['b'])
    (block.runOn {} [⟨.roundBrackets, ['(', 'c', ')'], ⟨1, 1⟩⟩] .start 0).2 = 1 := by
  decide +kernel

end Expression

end StyleSyntax
