import StyleSyntax.Proofs.Parser.Comparison
import StyleSyntax.Proofs.Parser.Success

/-!
# Matchers in two runs

A matcher that passes no bar agrees with itself: it sees the same significant token in both runs.
Conditions on whitespace agree in even comparisons. Captured source looks the same as far as the
comparison says so of what is consumed, and bracketed tokens agree when their interiors do.
-/

namespace StyleSyntax

variable {α β : Type} {c : Comparison} {rest rest' : List Token}

/-- A list is its gap and what stands behind it. -/
theorem takeWhile_append_dropTrivia (tokens : List Token) :
    tokens.takeWhile Token.isTrivia ++ dropTrivia tokens = tokens :=
  List.takeWhile_append_dropWhile

/-- Replies that agree behind a gap agree in front of it. -/
theorem Reply.Agrees.behind_gap {f : α → β} {reply reply' : Reply α}
    (hgap : c.takes (rest.takeWhile Token.isTrivia) (rest'.takeWhile Token.isTrivia))
    (h : Reply.Agrees c f (dropTrivia rest) (dropTrivia rest') reply reply') :
    Reply.Agrees c f rest rest' reply reply' := by
  cases h with
  | ok hrest hrest' htakes hleaves hvalue =>
    refine .ok ?_ ?_ (c.takes_append hgap htakes) hleaves hvalue
    · rw [List.append_assoc, ← hrest, takeWhile_append_dropTrivia]
    · rw [List.append_assoc, ← hrest', takeWhile_append_dropTrivia]
  | failed hblock => exact .failed hblock
  | endless => exact .endless

namespace Comparison

/-- In both runs only a gap is left, or the same token stands behind a gap. -/
theorem gap_cases (h : c.leaves rest rest') :
    ∃ gap gap', AllTrivia gap ∧ AllTrivia gap' ∧ (rest = gap ∧ rest' = gap' ∨
      ∃ token token' next next', rest = gap ++ token :: next ∧ rest' = gap' ++ token' :: next' ∧
        token.isSignificant ∧ token'.isSignificant ∧ c.view.Same token token' ∧
        c.takes gap gap' ∧ c.leaves (token :: next) (token' :: next')) := by
  have hall := takeWhile_append_dropTrivia rest
  have hall' := takeWhile_append_dropTrivia rest'
  refine ⟨rest.takeWhile Token.isTrivia, rest'.takeWhile Token.isTrivia,
    fun _ htoken => List.mem_takeWhile_imp htoken,
    fun _ htoken => List.mem_takeWhile_imp htoken, ?_⟩
  obtain ⟨hrest, hrest'⟩ | ⟨token, token', next, next', hrest, hrest', hsame, hgap, hnext⟩ :=
    c.behind h
  · rw [hrest, List.append_nil] at hall
    rw [hrest', List.append_nil] at hall'
    exact .inl ⟨hall.symm, hall'.symm⟩
  · have htoken := isSignificant_of_dropTrivia_eq_cons hrest
    rw [hrest] at hall
    rw [hrest'] at hall'
    exact .inr ⟨token, token', next, next', hall.symm, hall'.symm, htoken,
      hsame.isSignificant htoken, hsame, hgap, hnext⟩

/-- Where nothing significant is next in the first run, it is not in the second one. -/
theorem dropTrivia_eq_nil_iff (h : c.leaves rest rest') :
    dropTrivia rest' = [] ↔ dropTrivia rest = [] := by
  obtain ⟨hrest, hrest'⟩ | ⟨token, token', next, next', hrest, hrest', -⟩ := c.behind h
  · simp [hrest, hrest']
  · simp [hrest, hrest']

namespace IsEven

variable (hc : c.IsEven)

include hc

/-- Gaps are passed together. -/
theorem pass_gap (h : c.leaves rest rest') :
    c.takes (rest.takeWhile Token.isTrivia) (rest'.takeWhile Token.isTrivia) ∧
      c.leaves (dropTrivia rest) (dropTrivia rest') := by
  obtain ⟨hrest, hrest'⟩ | ⟨token, token', next, next', hrest, hrest', -, hgap, hnext⟩ := c.behind h
  · have hall := takeWhile_append_dropTrivia rest
    have hall' := takeWhile_append_dropTrivia rest'
    rw [hrest, List.append_nil] at hall
    rw [hrest', List.append_nil] at hall'
    rw [hall, hall', hrest, hrest']
    exact hc.finish h hrest
  · rw [hrest, hrest']
    exact ⟨hgap, hnext⟩

/-- A gap stands in both runs or in neither. -/
theorem takeWhile_eq_nil_iff (h : c.leaves rest rest') :
    rest'.takeWhile Token.isTrivia = [] ↔ rest.takeWhile Token.isTrivia = [] :=
  (c.nil_iff_of_takes (hc.pass_gap h).1).symm

/-- Both runs end together. -/
theorem isEmpty_eq (h : c.leaves rest rest') : rest'.isEmpty = rest.isEmpty := by
  have hsplit (tokens : List Token) : tokens = [] ↔
      tokens.takeWhile Token.isTrivia = [] ∧ dropTrivia tokens = [] := by
    rw [← List.append_eq_nil_iff, takeWhile_append_dropTrivia]
  have hboth : rest' = [] ↔ rest = [] := by
    rw [hsplit rest', hsplit rest, hc.takeWhile_eq_nil_iff h, dropTrivia_eq_nil_iff h]
  rw [Bool.eq_iff_iff, List.isEmpty_iff, List.isEmpty_iff]
  exact hboth

/-- Trivia is next in both runs or in neither. -/
theorem head_isTrivia_eq (h : c.leaves rest rest') :
    rest'.head?.any Token.isTrivia = rest.head?.any Token.isTrivia := by
  have hhead (tokens : List Token) : tokens.head?.any Token.isTrivia = false ↔
      tokens.takeWhile Token.isTrivia = [] := by
    cases tokens with
    | nil => simp
    | cons token tokens => cases htrivia : token.isTrivia <;> simp [htrivia]
  rw [Bool.eq_iff_iff, ← not_iff_not, Bool.not_eq_true, Bool.not_eq_true, hhead, hhead]
  exact hc.takeWhile_eq_nil_iff h

end IsEven

end Comparison

namespace Parser

variable {p q : Parser α} {f : α → β}

/-- A token that passes a test is matched in both runs when no bar passes. -/
theorem agrees_tokenWhere {test : Token → Bool} (wanted : Text) (htest : SeesNoPosition test)
    (hbars : ∀ token, c.bars token → test token = false) :
    (tokenWhere wanted test).Agrees c c.view.token (tokenWhere wanted test) := by
  refine ⟨fun {rest rest'} hleaves => ?_, fun _ => rfl⟩
  unfold tokenWhere
  dsimp only
  obtain ⟨hrest, hrest'⟩ | ⟨token, token', next, next', hrest, hrest', hsame, hgap, hnext⟩ :=
    c.behind hleaves
  · rw [hrest, hrest']
    exact .failed rfl
  · refine Reply.Agrees.behind_gap hgap ?_
    rw [hrest, hrest']
    dsimp only
    rw [hsame.test_eq test htest]
    split_ifs with hpasses
    · have hopen : ¬c.bars token := fun hbar => by simp [hbars token hbar] at hpasses
      obtain ⟨htoken, hleft⟩ := c.pass hnext (isSignificant_of_dropTrivia_eq_cons hrest) hopen
      exact .ok rfl rfl htoken hleft (View.Same.token_eq_iff.mpr hsame)
    · exact .failed rfl

/-- A token of a kind is matched in both runs when no bar is of that kind. -/
theorem agrees_anyToken {kind : TokenKind} (hbars : ∀ token, c.bars token → token.kind ≠ kind) :
    (anyToken kind).Agrees c c.view.token (anyToken kind) :=
  agrees_tokenWhere _ (fun _ _ _ _ => rfl) fun token htoken => beq_false_of_ne (hbars token htoken)

/-- No symbols are found at once. -/
theorem afterSymbols_nil (rest : List Token) : afterSymbols [] rest = some rest := by
  cases rest <;> rfl

/-- A text of symbols begins with no token that is trivia. -/
theorem afterSymbols_of_head_isTrivia {text : Text} (htext : text ≠ [])
    (h : ∀ token ∈ rest.head?, token.isTrivia) : afterSymbols text rest = none := by
  cases rest with
  | nil =>
    obtain ⟨first, more, rfl⟩ := List.exists_cons_of_ne_nil htext
    rfl
  | cons token rest =>
    have hkind : (token.kind == .symbol) = false := by
      refine beq_false_of_ne fun hkind => ?_
      have htrivia := h token rfl
      rw [Token.isTrivia, hkind] at htrivia
      cases htrivia
    rw [afterSymbols_cons htext, hkind, Bool.false_and, if_neg Bool.false_ne_true]

/-- A text of symbols is passed in both runs or in neither. -/
theorem afterSymbols_agrees {text : Text}
    (hbars : ∀ token, c.bars token → token.kind = .symbol → ¬token.value ⊆ text)
    (hleaves : c.leaves rest rest') :
    afterSymbols text rest = none ∧ afterSymbols text rest' = none ∨
    ∃ used used' next next', rest = used ++ next ∧ rest' = used' ++ next' ∧
      afterSymbols text rest = some next ∧ afterSymbols text rest' = some next' ∧
      c.takes used used' ∧ c.leaves next next' := by
  induction rest generalizing text rest' with
  | nil =>
    by_cases htext : text = []
    · subst htext
      exact .inr ⟨[], [], [], rest', rfl, rfl, afterSymbols_nil _, afterSymbols_nil _,
        c.takes_nil, hleaves⟩
    · refine .inl ⟨afterSymbols_of_head_isTrivia htext (by simp), ?_⟩
      obtain ⟨_, _, _, _, hrest, -⟩ | ⟨-, htrivia⟩ := c.here hleaves
      · cases hrest
      · exact afterSymbols_of_head_isTrivia htext htrivia
  | cons token rest ih =>
    by_cases htext : text = []
    · subst htext
      exact .inr ⟨[], [], token :: rest, rest', rfl, rfl, afterSymbols_nil _, afterSymbols_nil _,
        c.takes_nil, hleaves⟩
    · obtain ⟨_, token', _, next', hrest, rfl, hsignificant, hsame⟩ | ⟨htrivia, htrivia'⟩ :=
        c.here hleaves
      · obtain ⟨rfl, rfl⟩ := List.cons.inj hrest
        rw [afterSymbols_cons htext, afterSymbols_cons htext, hsame.kind, hsame.value]
        split_ifs with hsign
        · rw [Bool.and_eq_true, beq_iff_eq] at hsign
          have hprefix := List.isPrefixOf_iff_prefix.mp hsign.2
          have hopen : ¬c.bars token := fun hbar => hbars token hbar hsign.1 hprefix.subset
          obtain ⟨htoken, hnext⟩ := c.pass hleaves hsignificant hopen
          have hlater : ∀ bar, c.bars bar → bar.kind = .symbol →
              ¬bar.value ⊆ text.drop token.value.length := fun bar hbar hkind hsub =>
            hbars bar hbar hkind fun char hchar => List.mem_of_mem_drop (hsub hchar)
          obtain hnone | ⟨used, used', last, last', rfl, rfl, hafter, hafter', htakes, hlast⟩ :=
            ih hlater hnext
          · exact .inl hnone
          · exact .inr ⟨token :: used, token' :: used', last, last', rfl, rfl, hafter, hafter',
              c.takes_append htoken htakes, hlast⟩
        · exact .inl ⟨rfl, rfl⟩
      · exact .inl ⟨afterSymbols_of_head_isTrivia htext htrivia,
          afterSymbols_of_head_isTrivia htext htrivia'⟩

/-- A text of symbols is matched in both runs when no bar is part of it. -/
theorem agrees_symbol {f : Text → β} {text : Text} (htext : text ≠ [])
    (hbars : ∀ token, c.bars token → token.kind = .symbol → ¬token.value ⊆ text) :
    (symbol text).Agrees c f (symbol text) := by
  refine ⟨fun {rest rest'} hleaves => ?_, fun _ => rfl⟩
  unfold symbol
  dsimp only
  obtain ⟨hrest, hrest'⟩ | ⟨token, token', next, next', hrest, hrest', -, hgap, hnext⟩ :=
    c.behind hleaves
  · rw [hrest, hrest', afterSymbols_of_head_isTrivia htext (by simp)]
    exact .failed (by rw [isBlock_expected, isBlock_expected])
  · refine Reply.Agrees.behind_gap hgap ?_
    rw [hrest, hrest']
    obtain ⟨hnone, hnone'⟩ | ⟨used, used', last, last', hused, hused', hafter, hafter', htakes,
      hlast⟩ := afterSymbols_agrees hbars hnext
    · rw [hnone, hnone']
      exact .failed (by rw [isBlock_expected, isBlock_expected])
    · rw [hafter, hafter']
      exact .ok hused hused' htakes hlast rfl

/-- One of several texts of symbols is matched in both runs when no bar is part of any. -/
theorem agrees_oneOfSymbols {f : Text → β} {candidates : List Text}
    (hcandidates : ∀ text ∈ candidates, text ≠ [] ∧
      ∀ token, c.bars token → token.kind = .symbol → ¬token.value ⊆ text) :
    (oneOfSymbols candidates).Agrees c f (oneOfSymbols candidates) := by
  refine ⟨fun {rest rest'} hleaves => ?_, fun _ => rfl⟩
  have hrun {error error' : ParseError} (herror : error.isBlock = false)
      (herror' : error'.isBlock = false) {texts : List Text}
      (htexts : ∀ text ∈ texts, text ≠ [] ∧
        ∀ token, c.bars token → token.kind = .symbol → ¬token.value ⊆ text) :
      Reply.Agrees c f rest rest' (runSymbols c.left rest error texts)
        (runSymbols c.right rest' error' texts) := by
    induction texts with
    | nil => exact .failed (by rw [herror, herror'])
    | cons text others ih =>
      rw [List.forall_mem_cons] at htexts
      have hreply := (agrees_symbol (f := f) htexts.1.1 htexts.1.2).reply hleaves
      unfold runSymbols
      generalize (symbol text).run c.left rest = reply at hreply ⊢
      generalize (symbol text).run c.right rest' = reply' at hreply ⊢
      cases hreply with
      | ok hrest hrest' htakes hnext hvalue => exact .ok hrest hrest' htakes hnext hvalue
      | failed => exact ih htexts.2
      | endless => exact ih htexts.2
  refine hrun (isBlock_expected _ _ _) (isBlock_expected _ _ _) fun text htext => ?_
  exact hcandidates text (mem_longestFirst.mp htext)

/-- The condition on the end agrees. -/
theorem agrees_endOfInput {f : Unit → β} : endOfInput.Agrees c f endOfInput := by
  refine ⟨fun {rest rest'} hleaves => ?_, fun _ => rfl⟩
  have hfirst : (firstSignificant rest').isNone = (firstSignificant rest).isNone := by
    have hnone := Comparison.dropTrivia_eq_nil_iff hleaves
    rw [firstSignificant_eq_head?, firstSignificant_eq_head?, Bool.eq_iff_iff]
    simpa using hnone
  unfold endOfInput
  dsimp only
  rw [hfirst]
  split_ifs
  · exact Reply.agrees_nothing hleaves rfl
  · exact .failed (by rw [isBlock_expected, isBlock_expected])

/-- The condition on whitespace is met where no trivia is next. -/
theorem noSpacesHere_run_of_head {region : Region} (h : rest.head?.any Token.isTrivia = false) :
    noSpacesHere.run region rest = ⟨.ok (), rest⟩ := by
  cases rest with
  | nil => rfl
  | cons token rest =>
    have htoken : token.isTrivia = false := h
    unfold noSpacesHere
    dsimp only
    rw [htoken, if_neg Bool.false_ne_true]

/-- The condition on whitespace is not met where trivia is next. -/
theorem noSpacesHere_refuses_of_head {region : Region}
    (h : rest.head?.any Token.isTrivia = true) : noSpacesHere.Refuses region rest := by
  cases rest with
  | nil => cases h
  | cons token rest =>
    have htoken : token.isTrivia = true := h
    refine ⟨.expectedAt "no whitespace".toList token, token :: rest, ?_, rfl⟩
    unfold noSpacesHere
    dsimp only
    rw [htoken, if_pos rfl]

/-- Where no significant token is next, none is found right here. -/
theorem adjacent_refuses {region : Region} {test : Token → Bool} (first second : Nat)
    (wanted : Text) (h : ∀ token ∈ rest.head?, token.isTrivia) :
    (do step first noSpacesHere; step second (tokenWhere wanted test) : Parser Token).Refuses
      region rest := by
  cases rest with
  | nil =>
    have hrun : (step first noSpacesHere).run region [] = ⟨.ok (), []⟩ := rfl
    refine Refuses.bind_of_run hrun (Refuses.step ?_ second)
    exact ⟨_, _, rfl, rfl⟩
  | cons token rest =>
    have hhead : (token :: rest).head?.any Token.isTrivia = true := h token rfl
    exact ((noSpacesHere_refuses_of_head hhead).step first).bind _

/-- Two refusals agree. -/
theorem Refuses.agrees {f : α → β} (hp : p.Refuses c.left rest) (hq : q.Refuses c.right rest') :
    Reply.Agrees c f rest rest' (p.run c.left rest) (q.run c.right rest') := by
  obtain ⟨error, next, hrun, hblock⟩ := hp
  obtain ⟨error', next', hrun', hblock'⟩ := hq
  rw [hrun, hrun']
  exact .failed (hblock'.trans hblock.symm)

/-- A token right here is matched in both runs: where a gap or the end is next, neither finds it. -/
theorem agrees_adjacent {test : Token → Bool} (first second : Nat) (wanted : Text)
    (htest : SeesNoPosition test) (hbars : ∀ token, c.bars token → test token = false) :
    (do step first noSpacesHere; step second (tokenWhere wanted test) : Parser Token).Agrees c
      c.view.token (do step first noSpacesHere; step second (tokenWhere wanted test)) := by
  refine ⟨fun {rest rest'} hleaves => ?_, fun _ => rfl⟩
  obtain ⟨token, token', next, next', rfl, rfl, hsignificant, hsame⟩ | ⟨htrivia, htrivia'⟩ :=
    c.here hleaves
  · have htoken : token.isTrivia = false := isTrivia_eq_false_of_significant hsignificant
    have hrun : (step first noSpacesHere).run c.left (token :: next) = _ :=
      step_run_eq_ok.mpr (noSpacesHere_run_of_head htoken)
    have hrun' : (step first noSpacesHere).run c.right (token' :: next') = _ :=
      step_run_eq_ok.mpr (noSpacesHere_run_of_head (hsame.isTrivia_eq.trans htoken))
    rw [run_bind, run_bind, hrun, hrun']
    exact ((agrees_tokenWhere wanted htest hbars).step second).reply hleaves
  · exact (adjacent_refuses first second wanted htrivia).agrees
      (adjacent_refuses first second wanted htrivia')

section Even

variable (hc : c.IsEven)

include hc

/-- Trivia is moved over in both runs. -/
theorem agrees_skipTrivia {f : Unit → β} : skipTrivia.Agrees c f skipTrivia := by
  refine ⟨fun {rest rest'} hleaves => ?_, fun _ => rfl⟩
  obtain ⟨hgap, hnext⟩ := hc.pass_gap hleaves
  exact .ok (takeWhile_append_dropTrivia rest).symm (takeWhile_append_dropTrivia rest').symm hgap
    hnext rfl

/-- The condition on whitespace agrees. -/
theorem agrees_noSpacesHere {f : Unit → β} : noSpacesHere.Agrees c f noSpacesHere := by
  refine ⟨fun {rest rest'} hleaves => ?_, fun _ => rfl⟩
  have hhead := hc.head_isTrivia_eq hleaves
  cases h : rest.head?.any Token.isTrivia with
  | false =>
    rw [noSpacesHere_run_of_head h, noSpacesHere_run_of_head (hhead.trans h)]
    exact Reply.agrees_nothing hleaves rfl
  | true =>
    exact (noSpacesHere_refuses_of_head h).agrees (noSpacesHere_refuses_of_head (hhead.trans h))

/-- A gap is captured in both runs. -/
theorem agrees_trivia : trivia.Agrees c c.view.excerpt trivia := by
  refine ⟨fun {rest rest'} hleaves => ?_, fun _ => rfl⟩
  obtain ⟨hgap, hnext⟩ := hc.pass_gap hleaves
  have hnil := hc.takeWhile_eq_nil_iff hleaves
  have hall := takeWhile_append_dropTrivia rest
  have hall' := takeWhile_append_dropTrivia rest'
  have htrivia : AllTrivia (rest.takeWhile Token.isTrivia) :=
    fun _ htoken => List.mem_takeWhile_imp htoken
  unfold trivia
  dsimp only
  generalize rest.takeWhile Token.isTrivia = gap at *
  generalize rest'.takeWhile Token.isTrivia = gap' at *
  cases gap with
  | nil =>
    rw [hnil.mpr rfl]
    exact .failed (by rw [isBlock_expected, isBlock_expected])
  | cons first more =>
    cases gap' with
    | nil => cases hnil.mp rfl
    | cons first' more' => exact .ok hall.symm hall'.symm hgap hnext (c.gap_eq hgap htrivia)

end Even

/-! ## Captured source and brackets -/

/-- Captured values look the same. -/
theorem Agrees.capture_fst (h : p.Agrees c f q) :
    (Parser.capture p).Agrees c (f ∘ Prod.fst) (Parser.capture q) := by
  refine ⟨fun {rest rest'} hleaves => ?_, fun _ => rfl⟩
  have hreply := h.reply hleaves
  unfold Parser.capture
  dsimp only
  generalize p.run c.left rest = reply at hreply ⊢
  generalize q.run c.right rest' = reply' at hreply ⊢
  cases hreply with
  | ok hrest hrest' htakes hnext hvalue => exact .ok hrest hrest' htakes hnext hvalue
  | failed hblock => exact .failed hblock
  | endless => exact .endless

/-- Captured source looks the same when it ends with a significant token. -/
theorem Agrees.capture (h : p.Agrees c f q) {promise promise' : Promise α}
    (hp : p.Keeps .any promise) (hq : q.Keeps .any promise')
    (hends : ∀ region used next value, promise region used next value → EndsSignificant used)
    (hends' : ∀ region used next value, promise' region used next value → EndsSignificant used) :
    (capture p).Agrees c (Prod.map f c.view.excerpt) (capture q) := by
  refine h.capture_fst.and_keeps (hp.capture hends) (hq.capture hends') ?_
  intro used used' next next' captured captured' htakes hkept hkept' hfirst
  exact Prod.ext hfirst (c.excerpt_eq htakes hkept.2 hkept'.2)

/-- An excerpt looks the same when it ends with a significant token. -/
theorem Agrees.excerpt (h : p.Agrees c f q) (hp : p.Keeps .any Promise.significant)
    (hq : q.Keeps .any Promise.significant) : (excerpt p).Agrees c c.view.excerpt (excerpt q) :=
  (h.capture hp hq (fun _ _ _ _ hused => hused) fun _ _ _ _ hused => hused).map
    fun _ _ hcaptured => congrArg Prod.snd hcaptured

/-- Source as written is taken in both runs. -/
theorem Agrees.rawValue (h : p.Agrees c f q) :
    (rawValue p).Agrees c (fun _ => ()) (rawValue q) := by
  refine ⟨fun {rest rest'} hleaves => ?_, fun _ => rfl⟩
  have hreply := h.reply hleaves
  unfold Parser.rawValue
  dsimp only
  generalize p.run c.left rest = reply at hreply ⊢
  generalize q.run c.right rest' = reply' at hreply ⊢
  cases hreply with
  | ok hrest hrest' htakes hnext => exact .ok hrest hrest' htakes hnext rfl
  | failed hblock => exact .failed hblock
  | endless => exact .endless

end Parser

/-- The outcomes are values that look the same under `f`, or both are failures, or neither ends. -/
inductive Outcome.Agrees (f : α → β) : Outcome ParseError α → Outcome ParseError α → Prop
  | ok {value value' : α} (hvalue : f value' = f value) : Agrees f (.ok value) (.ok value')
  | failed {error error' : ParseError} (hblock : error'.isBlock = error.isBlock) :
      Agrees f (.failed error) (.failed error')
  | endless : Agrees f .endless .endless

namespace Parser

variable {p q : Parser α} {f : α → β}

/-- The two parsers give outcomes that agree on the interiors of tokens that look the same and are
left in both runs. -/
def AgreesInside (c : Comparison) (f : α → β) (p q : Parser α) : Prop :=
  ∀ token token' next next', c.leaves (token :: next) (token' :: next') →
    c.view.Same token token' →
    Outcome.Agrees f (interior p c.left.config token) (interior q c.right.config token')

/-- Bracketed tokens agree when their interiors do. -/
theorem AgreesInside.block {kinds : List TokenKind}
    (hbars : ∀ token, c.bars token → kinds.contains token.kind = false)
    (h : p.AgreesInside c f q) : (block kinds p).Agrees c f (block kinds q) := by
  refine ⟨fun {rest rest'} hleaves => ?_, fun _ => rfl⟩
  unfold Parser.block bracketed
  rw [run_bind, run_bind]
  unfold tokenWhere
  dsimp only
  obtain ⟨hrest, hrest'⟩ | ⟨token, token', next, next', hrest, hrest', hsame, hgap, hnext⟩ :=
    c.behind hleaves
  · rw [hrest, hrest']
    exact .failed rfl
  · have houtcome := h token token' next next' hnext hsame
    refine Reply.Agrees.behind_gap hgap ?_
    rw [hrest, hrest']
    dsimp only
    by_cases hkind : kinds.contains token.kind
    · have hopen : ¬c.bars token := fun hbar =>
        Bool.false_ne_true ((hbars token hbar).symm.trans hkind)
      obtain ⟨htoken, hleft⟩ := c.pass hnext (isSignificant_of_dropTrivia_eq_cons hrest) hopen
      rw [if_pos hkind, if_pos (by rwa [hsame.kind])]
      dsimp only
      generalize interior p c.left.config token = outcome at houtcome ⊢
      generalize interior q c.right.config token' = outcome' at houtcome ⊢
      cases houtcome with
      | ok hvalue => exact .ok rfl rfl htoken hleft hvalue
      | failed hblock => exact .failed hblock
      | endless => exact .endless
    · rw [if_neg hkind, if_neg (by rwa [hsame.kind])]
      exact .failed rfl

end Parser

end StyleSyntax
