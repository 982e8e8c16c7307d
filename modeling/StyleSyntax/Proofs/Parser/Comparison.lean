import StyleSyntax.Proofs.Grammar.Stylesheet
import StyleSyntax.Proofs.Parser.Refusal
import StyleSyntax.Proofs.Tree.View

/-!
# Two runs side by side

The same grammar may be run on two lists of tokens that differ in ways no rule should mind: in what
their whitespace and comments say, or in what stands behind the part that is read. A comparison says
which tokens may be left in the two runs at the same time, and which may be consumed for the same
part. Its laws are about single tokens: both runs find the same significant token next or neither
finds one, and they pass it together, unless it is barred. Two parsers agree when their replies do
wherever a comparison leaves tokens, and the combinators preserve agreement.
-/

namespace StyleSyntax

/-- What is seen of a token: all but its position, and of that as much as the view shows. -/
def View.token (view : View) (token : Token) : Token :=
  { token with position := view.position token.position }

/-- The two tokens have the same kind and text, and look the same. -/
structure View.Same (view : View) (token token' : Token) : Prop where
  kind : token'.kind = token.kind
  value : token'.value = token.value
  position : view.position token'.position = view.position token.position

/-- Two runs that are compared: the tokens left in both at one time, those consumed in both for one
part, and the tokens that neither run passes. -/
structure Comparison where
  left : Region
  right : Region
  view : View
  /-- What is left in the first run and in the second one. -/
  leaves : List Token → List Token → Prop
  /-- What is consumed in the first run and in the second one. -/
  takes : List Token → List Token → Prop
  /-- The tokens at which a run may not go on. -/
  bars : Token → Prop
  config_eq : right.config = left.config
  takes_nil : takes [] []
  takes_append {used used' more more' : List Token} :
    takes used used' → takes more more' → takes (used ++ more) (used' ++ more')
  nil_iff_of_takes {used used' : List Token} : takes used used' → (used = [] ↔ used' = [])
  /-- Without trivia in it, what is consumed has one text. -/
  trimmedSpelling_eq {used used' : List Token} :
    takes used used' → (∀ token ∈ dropTrivia used, token.isSignificant) →
    trimmedSpelling used' = trimmedSpelling used
  excerpt_eq {used used' : List Token} {source source' : Excerpt} :
    takes used used' → source.IsOf (dropTrivia used) → source'.IsOf (dropTrivia used') →
    view.excerpt source' = view.excerpt source
  gap_eq {first first' : Token} {more more' : List Token} :
    takes (first :: more) (first' :: more') → AllTrivia (first :: more) →
    view.excerpt ⟨spelling (first' :: more'), first'.position⟩ =
      view.excerpt ⟨spelling (first :: more), first.position⟩
  /-- Behind the gap both runs find the same token, or both find the end. -/
  behind {rest rest' : List Token} : leaves rest rest' →
    dropTrivia rest = [] ∧ dropTrivia rest' = [] ∨
    ∃ token token' next next', dropTrivia rest = token :: next ∧
      dropTrivia rest' = token' :: next' ∧ view.Same token token' ∧
      takes (rest.takeWhile Token.isTrivia) (rest'.takeWhile Token.isTrivia) ∧
      leaves (token :: next) (token' :: next')
  /-- Right here both runs find a significant token, or neither does. -/
  here {rest rest' : List Token} : leaves rest rest' →
    (∃ token token' next next', rest = token :: next ∧ rest' = token' :: next' ∧
      token.isSignificant ∧ view.Same token token') ∨
    (∀ token ∈ rest.head?, token.isTrivia) ∧ ∀ token ∈ rest'.head?, token.isTrivia
  /-- Both runs pass a token together. -/
  pass {token token' : Token} {next next' : List Token} :
    leaves (token :: next) (token' :: next') → token.isSignificant → ¬bars token →
    takes [token] [token'] ∧ leaves next next'

namespace Comparison

variable {c : Comparison}

/-- A gap, or the end, stands in both runs at the same time. -/
structure IsEven (c : Comparison) : Prop where
  finish {rest rest' : List Token} : c.leaves rest rest' → dropTrivia rest = [] →
    c.takes rest rest' ∧ c.leaves [] []

/-- Interpolations begin in both runs together and are passed together. -/
structure Jumps (c : Comparison) : Prop where
  opens_eq {token token' : Token} {next next' : List Token} :
    c.leaves (token :: next) (token' :: next') → token.isSignificant → c.view.Same token token' →
    next'.head?.any token'.opensInterpolation = next.head?.any token.opensInterpolation
  pass {token token' region region' : Token} {next next' : List Token} :
    c.leaves (token :: region :: next) (token' :: region' :: next') →
    token.opensInterpolation region → c.view.Same region region' ∧
      c.takes [token, region] [token', region'] ∧ c.leaves next next'

end Comparison

/-- The test depends on the kind and the text of a token alone. -/
def SeesNoPosition (test : Token → Bool) : Prop :=
  ∀ kind value position position', test ⟨kind, value, position'⟩ = test ⟨kind, value, position⟩

namespace View.Same

variable {view : View} {token token' : Token}

/-- A test that sees no position answers alike on tokens that look the same. -/
theorem test_eq (h : view.Same token token') (test : Token → Bool)
    (htest : SeesNoPosition test) : test token' = test token := by
  obtain ⟨kind, value, position⟩ := token
  obtain ⟨kind', value', position'⟩ := token'
  obtain ⟨rfl, rfl, -⟩ := h
  exact htest kind' value' position position'

/-- Tokens that look the same are seen as one. -/
theorem token_eq_iff : view.token token' = view.token token ↔ view.Same token token' := by
  rw [View.token, View.token, Token.mk.injEq]
  exact ⟨fun h => ⟨h.1, h.2.1, h.2.2⟩, fun h => ⟨h.kind, h.value, h.position⟩⟩

/-- Tokens that look the same are trivia together. -/
theorem isTrivia_eq (h : view.Same token token') : token'.isTrivia = token.isTrivia :=
  h.test_eq Token.isTrivia fun _ _ _ _ => rfl

/-- Tokens that look the same are significant together. -/
theorem isSignificant (h : view.Same token token') (htoken : token.isSignificant) :
    token'.isSignificant := by
  rwa [Token.isSignificant, h.isTrivia_eq]

end View.Same

variable {α β γ δ : Type} {c : Comparison}

/-- The replies are values that look the same under `f`, with tokens consumed and left that the
comparison allows, or both are failures, from inside brackets or not. -/
inductive Reply.Agrees (c : Comparison) (f : α → β) (rest rest' : List Token) :
    Reply α → Reply α → Prop
  | ok {value value' : α} {used used' next next' : List Token} (hrest : rest = used ++ next)
      (hrest' : rest' = used' ++ next') (htakes : c.takes used used')
      (hleaves : c.leaves next next') (hvalue : f value' = f value) :
      Agrees c f rest rest' ⟨.ok value, next⟩ ⟨.ok value', next'⟩
  | failed {error error' : ParseError} {next next' : List Token}
      (hblock : error'.isBlock = error.isBlock) :
      Agrees c f rest rest' ⟨.failed error, next⟩ ⟨.failed error', next'⟩
  | endless {next next' : List Token} :
      Agrees c f rest rest' ⟨.endless, next⟩ ⟨.endless, next'⟩

/-- Of two runs that leave the same as before, both succeed alike. -/
theorem Reply.agrees_nothing {f : α → β} {rest rest' : List Token} (h : c.leaves rest rest')
    {value value' : α} (hvalue : f value' = f value) :
    Reply.Agrees c f rest rest' ⟨.ok value, rest⟩ ⟨.ok value', rest'⟩ :=
  .ok (List.nil_append _).symm (List.nil_append _).symm c.takes_nil h hvalue

/-- What is consumed and left behind a first part counts from its beginning. -/
theorem Reply.Agrees.append {f : α → β} {used used' next next' : List Token}
    {reply reply' : Reply α} (h : Reply.Agrees c f next next' reply reply')
    (htakes : c.takes used used') :
    Reply.Agrees c f (used ++ next) (used' ++ next') reply reply' := by
  cases h with
  | ok hrest hrest' hmore hleaves hvalue =>
    subst hrest hrest'
    exact .ok (List.append_assoc _ _ _).symm (List.append_assoc _ _ _).symm
      (c.takes_append htakes hmore) hleaves hvalue
  | failed hblock => exact .failed hblock
  | endless => exact .endless

/-- What is seen of the values may be changed. -/
theorem Reply.Agrees.map {f : α → β} {g : γ → δ} {change change' : α → γ}
    {rest rest' : List Token} {reply reply' : Reply α}
    (h : Reply.Agrees c f rest rest' reply reply')
    (hchange : ∀ value value', f value' = f value → g (change' value') = g (change value)) :
    Reply.Agrees c g rest rest' (reply.map change) (reply'.map change') := by
  cases h with
  | ok hrest hrest' htakes hleaves hvalue =>
    exact .ok hrest hrest' htakes hleaves (hchange _ _ hvalue)
  | failed hblock => exact .failed hblock
  | endless => exact .endless

/-- Without a bar the first significant tokens are the same. -/
theorem Comparison.test_firstSignificant {rest rest' : List Token} (h : c.leaves rest rest')
    {test : Token → Bool} (htest : SeesNoPosition test) :
    (firstSignificant rest').any test = (firstSignificant rest).any test := by
  rw [firstSignificant_eq_head?, firstSignificant_eq_head?]
  obtain ⟨hrest, hrest'⟩ | ⟨token, token', next, next', hrest, hrest', hsame, -⟩ := c.behind h
  · rw [hrest, hrest']
  · rw [hrest, hrest']
    exact hsame.test_eq test htest

namespace Parser

/-- The replies of the two parsers agree wherever the comparison leaves tokens, and so do their
checks. -/
structure Agrees (c : Comparison) (f : α → β) (p q : Parser α) : Prop where
  reply {rest rest' : List Token} : c.leaves rest rest' →
    Reply.Agrees c f rest rest' (p.run c.left rest) (q.run c.right rest')
  accepts {rest rest' : List Token} : c.leaves rest rest' →
    q.accepts (firstSignificant rest') = p.accepts (firstSignificant rest)

variable {p q : Parser α} {f : α → β} {g : γ → δ}

/-- Less may be seen of the values. -/
theorem Agrees.mono {g : α → δ} (h : p.Agrees c f q)
    (hg : ∀ value value', f value' = f value → g value' = g value) : p.Agrees c g q := by
  refine ⟨fun hleaves => ?_, h.accepts⟩
  have hreply := h.reply hleaves
  generalize p.run c.left _ = reply at hreply ⊢
  generalize q.run c.right _ = reply' at hreply ⊢
  cases hreply with
  | ok hrest hrest' htakes hnext hvalue => exact .ok hrest hrest' htakes hnext (hg _ _ hvalue)
  | failed hblock => exact .failed hblock
  | endless => exact .endless

/-- Of what is promised in both runs more may be seen. -/
theorem Agrees.and_keeps {g : α → δ} (h : p.Agrees c f q) {promise promise' : Promise α}
    (hp : p.Keeps .any promise) (hq : q.Keeps .any promise')
    (hg : ∀ used used' next next' value value', c.takes used used' →
      promise c.left used next value → promise' c.right used' next' value' →
      f value' = f value → g value' = g value) : p.Agrees c g q := by
  refine ⟨fun {rest rest'} hleaves => ?_, h.accepts⟩
  have hreply := h.reply hleaves
  have hkept := hp.reply c.left rest trivial
  have hkept' := hq.reply c.right rest' trivial
  generalize p.run c.left rest = reply at hreply hkept ⊢
  generalize q.run c.right rest' = reply' at hreply hkept' ⊢
  cases hreply with
  | ok hrest hrest' htakes hnext hvalue =>
    obtain ⟨used, rfl, hpromise⟩ := hkept
    obtain ⟨used', rfl, hpromise'⟩ := hkept'
    obtain rfl := List.append_cancel_right hrest
    obtain rfl := List.append_cancel_right hrest'
    exact .ok rfl rfl htakes hnext (hg _ _ _ _ _ _ htakes hpromise hpromise' hvalue)
  | failed hblock => exact .failed hblock
  | endless => exact .endless

/-- Values where they stand agree. -/
theorem agrees_pure {value value' : α} (h : f value' = f value) :
    (pure value : Parser α).Agrees c f (pure value') :=
  ⟨fun hleaves => Reply.agrees_nothing hleaves h, fun _ => rfl⟩

/-- Sequences agree when their parts do. -/
theorem Agrees.bind (hp : p.Agrees c f q) {following others : α → Parser γ}
    (hfollowing : ∀ value value', f value' = f value →
      (following value).Agrees c g (others value')) :
    (p >>= following).Agrees c g (q >>= others) := by
  refine ⟨fun hleaves => ?_, fun _ => rfl⟩
  have hreply := hp.reply hleaves
  rw [run_bind, run_bind]
  generalize p.run c.left _ = reply at hreply ⊢
  generalize q.run c.right _ = reply' at hreply ⊢
  cases hreply with
  | ok hrest hrest' htakes hmiddle hvalue =>
    subst hrest hrest'
    exact ((hfollowing _ _ hvalue).reply hmiddle).append htakes
  | failed hblock => exact .failed hblock
  | endless => exact .endless

/-- Changed values look the same when the change allows it. -/
theorem Agrees.map (h : p.Agrees c f q) {change : α → γ}
    (hchange : ∀ value value', f value' = f value → g (change value') = g (change value)) :
    (p.map change).Agrees c g (q.map change) :=
  ⟨fun hleaves => (h.reply hleaves).map hchange, fun _ => rfl⟩

/-- Failures that are not from inside brackets agree. -/
theorem agrees_fail {error error' : Region → List Token → ParseError}
    (h : ∀ region rest, (error region rest).isBlock = false)
    (h' : ∀ region rest, (error' region rest).isBlock = false) :
    (fail error : Parser α).Agrees c f (fail error') :=
  ⟨fun _ => .failed (by rw [h, h']), fun _ => rfl⟩

/-- Failing for want of something agrees. -/
theorem agrees_expected (wanted : Text) :
    (expected wanted : Parser α).Agrees c f (expected wanted) :=
  agrees_fail (fun _ _ => isBlock_expected _ _ _) fun _ _ => isBlock_expected _ _ _

/-- Parsers that are built late agree when those that they are built to do. -/
theorem Agrees.delay (h : p.Agrees c f q) : (delay fun _ => p).Agrees c f (delay fun _ => q) :=
  ⟨h.reply, fun _ => rfl⟩

/-- A check that sees no position may be added. -/
theorem Agrees.probe (h : p.Agrees c f q) {test : Token → Bool} (htest : SeesNoPosition test) :
    (probe test p).Agrees c f (probe test q) :=
  ⟨h.reply, fun hleaves => Comparison.test_firstSignificant hleaves htest⟩

/-- Going back to the start keeps parsers in agreement. -/
theorem Agrees.attempt (h : p.Agrees c f q) : (attempt p).Agrees c f (attempt q) := by
  refine ⟨fun hleaves => ?_, fun _ => rfl⟩
  have hreply := h.reply hleaves
  unfold Parser.attempt
  dsimp only
  generalize p.run c.left _ = reply at hreply ⊢
  generalize q.run c.right _ = reply' at hreply ⊢
  cases hreply with
  | ok hrest hrest' htakes hnext hvalue => exact .ok hrest hrest' htakes hnext hvalue
  | failed hblock => exact .failed hblock
  | endless => exact .endless

/-- Parts that may be left out agree, and are left out in both runs or in none. -/
theorem Agrees.optional (h : p.Agrees c f q) : p.optional.Agrees c (Option.map f) q.optional := by
  refine ⟨fun hleaves => ?_, fun _ => rfl⟩
  have hreply := h.reply hleaves
  unfold Parser.optional
  dsimp only
  rw [h.accepts hleaves]
  split_ifs
  · generalize p.run c.left _ = reply at hreply ⊢
    generalize q.run c.right _ = reply' at hreply ⊢
    cases hreply with
    | ok hrest hrest' htakes hnext hvalue =>
      exact .ok hrest hrest' htakes hnext (congrArg some hvalue)
    | failed hblock =>
      dsimp only
      rw [hblock]
      split_ifs
      · exact .failed hblock
      · exact Reply.agrees_nothing hleaves rfl
    | endless => exact .endless
  · exact Reply.agrees_nothing hleaves rfl

/-- Steps of sequences agree. -/
theorem Agrees.step (h : p.Agrees c f q) (index : Nat) :
    (step index p).Agrees c f (step index q) := by
  refine ⟨fun hleaves => ?_, fun _ => rfl⟩
  have hreply := h.reply hleaves
  unfold Parser.step
  dsimp only
  generalize p.run c.left _ = reply at hreply ⊢
  generalize q.run c.right _ = reply' at hreply ⊢
  cases hreply with
  | ok hrest hrest' htakes hnext hvalue => exact .ok hrest hrest' htakes hnext hvalue
  | failed hblock => exact .failed (by rw [isBlock_atStep, isBlock_atStep, hblock])
  | endless => exact .endless

/-- Alternatives that are tried in both runs, after failures from outside brackets, end alike. -/
def TriedAlike (c : Comparison) (f : α → β) (rest rest' : List Token)
    (alternatives others : List (Parser α)) : Prop :=
  ∀ failures failures' : Failures, failures.AreOutside → failures'.AreOutside →
    Reply.Agrees c f rest rest' (runFirst c.left rest failures alternatives)
      (runFirst c.right rest' failures' others)

/-- Where no alternative is left both runs fail outside brackets. -/
theorem triedAlike_nil {rest rest' : List Token} :
    TriedAlike c f rest rest' ([] : List (Parser α)) [] := by
  intro failures failures' hfailures hfailures'
  exact .failed (by rw [hfailures.report, hfailures'.report])

/-- Two alternatives are tried together when they agree on the tokens. -/
theorem TriedAlike.cons {rest rest' : List Token} {alternatives others : List (Parser α)}
    (hreply : Reply.Agrees c f rest rest' (p.run c.left rest) (q.run c.right rest'))
    (haccepts : q.accepts (firstSignificant rest') = p.accepts (firstSignificant rest))
    (h : TriedAlike c f rest rest' alternatives others) :
    TriedAlike c f rest rest' (p :: alternatives) (q :: others) := by
  intro failures failures' hfailures hfailures'
  rw [runFirst, runFirst, haccepts]
  split_ifs
  · generalize p.run c.left rest = reply at hreply ⊢
    generalize q.run c.right rest' = reply' at hreply ⊢
    cases hreply with
    | ok hrest hrest' htakes hnext hvalue => exact .ok hrest hrest' htakes hnext hvalue
    | @failed error error' _ _ hblock =>
      dsimp only
      rw [hblock]
      split_ifs with herror
      · exact .failed hblock
      · have houtside : error.isBlock = false := by simpa using herror
        exact h _ _ (hfailures.record houtside) (hfailures'.record (hblock.trans houtside))
    | endless => exact .endless
  · exact h failures failures' hfailures hfailures'

/-- An alternative of the first run that declines may be left out. -/
theorem TriedAlike.cons_left {rest rest' : List Token} {alternatives others : List (Parser α)}
    (hp : p.Declines c.left rest) (h : TriedAlike c f rest rest' alternatives others) :
    TriedAlike c f rest rest' (p :: alternatives) others := by
  intro failures failures' hfailures hfailures'
  obtain ⟨more, hmore, heq⟩ :=
    exists_runFirst_append (List.forall_mem_singleton.mpr hp) hfailures alternatives
  rw [List.singleton_append] at heq
  rw [heq]
  exact h more failures' hmore hfailures'

/-- An alternative of the second run that declines may be left out. -/
theorem TriedAlike.cons_right {rest rest' : List Token} {alternatives others : List (Parser α)}
    (hq : q.Declines c.right rest') (h : TriedAlike c f rest rest' alternatives others) :
    TriedAlike c f rest rest' alternatives (q :: others) := by
  intro failures failures' hfailures hfailures'
  obtain ⟨more, hmore, heq⟩ :=
    exists_runFirst_append (List.forall_mem_singleton.mpr hq) hfailures' others
  rw [List.singleton_append] at heq
  rw [heq]
  exact h failures more hfailures hmore

/-- Choices agree when their alternatives end alike wherever they are tried. -/
theorem agrees_firstOf_of_triedAlike {alternatives others : List (Parser α)}
    (h : ∀ {rest rest'}, c.leaves rest rest' → TriedAlike c f rest rest' alternatives others) :
    (firstOf alternatives).Agrees c f (firstOf others) :=
  ⟨fun hleaves => h hleaves {} {} Failures.areOutside_empty Failures.areOutside_empty,
    fun _ => rfl⟩

/-- Alternatives agree one by one. -/
theorem agrees_firstOf {alternatives others : List (Parser α)}
    (h : List.Forall₂ (Agrees c f) alternatives others) :
    (firstOf alternatives).Agrees c f (firstOf others) := by
  refine agrees_firstOf_of_triedAlike fun hleaves => ?_
  induction h with
  | nil => exact triedAlike_nil
  | cons hp _ ih => exact .cons (hp.reply hleaves) (hp.accepts hleaves) ih

end Parser

end StyleSyntax
