import StyleSyntax.Parser.Bracketed
import StyleSyntax.Parser.Choice
import StyleSyntax.Proofs.Token.Trimmed

/-!
# Contracts of parsers

A parser keeps a promise when every run of it ends, consumes a beginning of the tokens that the
promise relates to its value, or fails with an error that is admitted. Which tokens a parser may be
run on and which errors are admitted is a setting, chosen once for a whole grammar: its laws say
that consuming tokens and entering brackets stay in scope and that the errors of the leaves are
admitted there. Promises compose along the combinators, so that one walk over a grammar serves every
setting.
-/

namespace StyleSyntax

/-- What a parser promises of its region, the tokens it consumes, those it leaves and its value. -/
abbrev Promise (α : Type) := Region → (used next : List Token) → α → Prop

/-- The promise for a part that may be left out: nothing is consumed without a value. -/
def Promise.orNothing {α : Type} (promise : Promise α) : Promise (Option α) :=
  fun region used next value => match value with
    | none => used = []
    | some value => promise region used next value

/-- The tokens that parsers may be run on, and the errors that they may fail with. -/
structure Setting where
  /-- The tokens that may be left in a region. -/
  scope : Region → List Token → Prop
  /-- The errors of a run in scope. -/
  admits : ParseError → Prop
  scope_append {region : Region} {used next : List Token} :
    scope region (used ++ next) → scope region next
  scope_interior {region : Region} {token : Token} {next tokens : List Token} {text : Text}
    {origin : Position} :
    scope region (token :: next) → token.interior = some (text, origin) →
    tokensOf region.config text origin = .ok tokens →
    scope (.ofTokens region.config (splitSymbolRuns tokens) origin) (splitSymbolRuns tokens)
  admits_within {frame : Frame} {error : ParseError} : admits error → admits (error.within frame)
  admits_expectedAt {region : Region} {token : Token} {next : List Token} (wanted : Text) :
    scope region (token :: next) → admits (.expectedAt wanted token)
  admits_unexpectedAt {region : Region} {token : Token} {next : List Token} :
    scope region (token :: next) → admits (.unexpectedAt token)
  admits_emptyList {region : Region} {token : Token} {next : List Token} (wanted : Text) :
    scope region (token :: next) → admits (.leaf (.emptyList wanted) token.position)
  admits_emptyList_finish {region : Region} (wanted : Text) :
    scope region [] → admits (.leaf (.emptyList wanted) region.finish)
  admits_unexpectedEnd {region : Region} (wanted : Text) :
    scope region [] → admits (.leaf (.unexpectedEnd wanted) region.finish)
  admits_lexical {region : Region} {token : Token} {next : List Token} {text : Text}
    {origin : Position} {error : LexError} :
    scope region (token :: next) → token.interior = some (text, origin) →
    tokensOf region.config text origin = .error error → admits (.ofLexError error)

namespace Setting

variable {setting : Setting} {region : Region} {rest : List Token}

/-- The end of the tokens is in scope. -/
theorem scope_nil (h : setting.scope region rest) : setting.scope region [] :=
  setting.scope_append (by rwa [List.append_nil])

/-- What stands behind the gap is in scope. -/
theorem scope_dropTrivia (h : setting.scope region rest) :
    setting.scope region (dropTrivia rest) := by
  obtain ⟨gap, hgap, _⟩ := exists_gap rest
  rw [hgap] at h
  exact setting.scope_append h

/-- A failure for want of something is admitted. -/
theorem admits_expected (h : setting.scope region rest) (wanted : Text) :
    setting.admits (region.expected wanted rest) := by
  have hscope := scope_dropTrivia h
  rw [Region.expected, firstSignificant_eq_head?]
  cases hrest : dropTrivia rest with
  | nil => exact setting.admits_unexpectedEnd wanted (scope_nil h)
  | cons token next =>
    rw [hrest] at hscope
    exact setting.admits_expectedAt wanted hscope

/-- A failure because no rule applies is admitted. -/
theorem admits_unexpected (h : setting.scope region rest) :
    setting.admits (region.unexpected rest) := by
  have hscope := scope_dropTrivia h
  rw [Region.unexpected, firstSignificant_eq_head?]
  cases hrest : dropTrivia rest with
  | nil => exact setting.admits_unexpectedEnd _ (scope_nil h)
  | cons token next =>
    rw [hrest] at hscope
    exact setting.admits_unexpectedAt hscope

/-- The mark of a step keeps an error admitted. -/
theorem admits_atStep {error : ParseError} (h : setting.admits error) (index : Nat) :
    setting.admits (error.atStep index) := by
  unfold ParseError.atStep
  split_ifs
  · exact h
  · exact setting.admits_within h

end Setting

/-- A reply keeps a promise: the outcome is a value promised for a beginning of the tokens, or an
admitted error. -/
def Reply.Keeps {α : Type} (setting : Setting) (promise : Promise α) (region : Region)
    (rest : List Token) : Reply α → Prop
  | ⟨.ok value, next⟩ => ∃ used, rest = used ++ next ∧ promise region used next value
  | ⟨.failed error, _⟩ => setting.admits error
  | ⟨.endless, _⟩ => False

/-- A promise that a reply keeps may be weakened. -/
theorem Reply.Keeps.mono {α : Type} {setting : Setting} {promise weaker : Promise α}
    {region : Region} {rest : List Token} {reply : Reply α}
    (h : reply.Keeps setting promise region rest)
    (hweaker : ∀ used next value, promise region used next value →
      weaker region used next value) : reply.Keeps setting weaker region rest := by
  rcases reply with ⟨value | error | _, next⟩
  · obtain ⟨used, hrest, hvalue⟩ := h
    exact ⟨used, hrest, hweaker used next value hvalue⟩
  · exact h
  · exact h

/-- A reply behind consumed tokens keeps, with its value changed, what is promised of both. -/
theorem Reply.Keeps.map_append {α β : Type} {setting : Setting} {first : Promise α}
    {promise : Promise β} {region : Region} {used next : List Token} {reply : Reply α} {f : α → β}
    (h : reply.Keeps setting first region next)
    (hvalue : ∀ between last value, next = between ++ last → first region between last value →
      promise region (used ++ between) last (f value)) :
    (reply.map f).Keeps setting promise region (used ++ next) := by
  rcases reply with ⟨value | error | _, last⟩
  · obtain ⟨between, rfl, hbetween⟩ := h
    exact ⟨used ++ between, (List.append_assoc _ _ _).symm, hvalue between last value rfl hbetween⟩
  · exact h
  · exact h

namespace Parser

variable {α β : Type} {setting : Setting}

/-- A parser keeps a promise when its replies do, wherever it runs in scope. -/
structure Keeps (setting : Setting) (promise : Promise α) (p : Parser α) : Prop where
  reply (region : Region) (rest : List Token) : setting.scope region rest →
    (p.run region rest).Keeps setting promise region rest

/-- A known reply keeps the promise. -/
theorem Keeps.of_run {p : Parser α} {promise : Promise α} (h : p.Keeps setting promise)
    {region : Region} {rest : List Token} (hscope : setting.scope region rest) {reply : Reply α}
    (hrun : p.run region rest = reply) : reply.Keeps setting promise region rest := by
  rw [← hrun]
  exact h.reply region rest hscope

/-- A kept promise may be weakened. -/
theorem Keeps.mono {p : Parser α} {promise weaker : Promise α} (h : p.Keeps setting promise)
    (hweaker : ∀ region used next value, promise region used next value →
      weaker region used next value) : p.Keeps setting weaker :=
  ⟨fun region rest hscope => (h.reply region rest hscope).mono (hweaker region)⟩

/-- A value where it stands consumes nothing. -/
theorem keeps_pure {promise : Promise α} {value : α}
    (h : ∀ region next, promise region [] next value) :
    (pure value : Parser α).Keeps setting promise :=
  ⟨fun region rest _ => ⟨[], rfl, h region rest⟩⟩

/-- In a sequence the second parser promises for what both consume together. -/
theorem Keeps.bind {p : Parser α} {following : α → Parser β} {first : Promise α}
    {promise : Promise β} (hp : p.Keeps setting first)
    (hfollowing : ∀ value, (following value).Keeps setting fun region used next result =>
      ∀ before, first region before (used ++ next) value →
        promise region (before ++ used) next result) :
    (p >>= following).Keeps setting promise := by
  constructor
  intro region rest hscope
  have hreply := hp.reply region rest hscope
  rw [run_bind]
  generalize p.run region rest = reply at hreply ⊢
  rcases reply with ⟨value | error | _, middle⟩
  · obtain ⟨before, rfl, hbefore⟩ := hreply
    have hresult := (hfollowing value).reply region middle (setting.scope_append hscope)
    dsimp only
    generalize (following value).run region middle = reply at hresult ⊢
    rcases reply with ⟨result | error | _, next⟩
    · obtain ⟨used, rfl, hused⟩ := hresult
      exact ⟨before ++ used, (List.append_assoc _ _ _).symm, hused before hbefore⟩
    · exact hresult
    · exact hresult
  · exact hreply
  · exact hreply

/-- A changed value keeps what is promised of it. -/
theorem Keeps.map {p : Parser α} {f : α → β} {promise : Promise β}
    (h : p.Keeps setting fun region used next value => promise region used next (f value)) :
    (p.map f).Keeps setting promise := by
  constructor
  intro region rest hscope
  rw [run_map, ← List.nil_append rest]
  exact (h.reply region rest hscope).map_append fun _ _ _ _ hvalue => hvalue

/-- A parser that fails with an admitted error keeps any promise. -/
theorem keeps_fail {error : Region → List Token → ParseError} {promise : Promise α}
    (h : ∀ region rest, setting.scope region rest → setting.admits (error region rest)) :
    (fail error : Parser α).Keeps setting promise :=
  ⟨fun region rest hscope => h region rest hscope⟩

/-- Failing for want of something keeps any promise. -/
theorem keeps_expected {promise : Promise α} (wanted : Text) :
    (expected wanted : Parser α).Keeps setting promise :=
  keeps_fail fun _ _ hscope => Setting.admits_expected hscope wanted

/-- Failing because no rule applies keeps any promise. -/
theorem keeps_unexpected {promise : Promise α} :
    (unexpected : Parser α).Keeps setting promise :=
  keeps_fail fun _ _ hscope => Setting.admits_unexpected hscope

/-- A parser that is built late keeps what it promises once it is built. -/
theorem Keeps.delay {p : Parser α} {promise : Promise α} (h : p.Keeps setting promise) :
    (delay fun _ => p).Keeps setting promise :=
  ⟨h.reply⟩

/-- A check of the next token changes no reply. -/
theorem Keeps.probe {p : Parser α} {promise : Promise α} (h : p.Keeps setting promise)
    (test : Token → Bool) : (probe test p).Keeps setting promise :=
  ⟨h.reply⟩

/-- Going back to the start changes no value and no error. -/
theorem Keeps.attempt {p : Parser α} {promise : Promise α} (h : p.Keeps setting promise) :
    (attempt p).Keeps setting promise := by
  constructor
  intro region rest hscope
  have hreply := h.reply region rest hscope
  unfold Parser.attempt
  dsimp only
  generalize p.run region rest = reply at hreply ⊢
  rcases reply with ⟨value | error | _, next⟩
  · exact hreply
  · exact hreply
  · exact hreply

/-- A part that may be left out keeps its promise or consumes nothing. -/
theorem Keeps.optional {p : Parser α} {promise : Promise α} (h : p.Keeps setting promise) :
    p.optional.Keeps setting (Promise.orNothing promise) := by
  constructor
  intro region rest hscope
  have hreply := h.reply region rest hscope
  unfold Parser.optional
  dsimp only
  split_ifs
  · generalize p.run region rest = reply at hreply ⊢
    rcases reply with ⟨value | error | _, next⟩
    · exact hreply
    · dsimp only
      split_ifs
      · exact hreply
      · exact ⟨[], rfl, rfl⟩
    · exact hreply
  · exact ⟨[], rfl, rfl⟩

/-- A step of a sequence fails with the error of the step in a larger context. -/
theorem Keeps.step {p : Parser α} {promise : Promise α} (h : p.Keeps setting promise)
    (index : Nat) : (step index p).Keeps setting promise := by
  constructor
  intro region rest hscope
  have hreply := h.reply region rest hscope
  unfold Parser.step Reply.mapError
  dsimp only
  generalize p.run region rest = reply at hreply ⊢
  rcases reply with ⟨value | error | _, next⟩
  · exact hreply
  · exact Setting.admits_atStep hreply index
  · exact hreply

/-- The failures known so far are admitted. -/
def Failures.Admitted (setting : Setting) (failures : Failures) : Prop :=
  (∀ error ∈ failures.begun, setting.admits error) ∧
    ∀ error ∈ failures.outright, setting.admits error

/-- Recording an admitted failure keeps the failures admitted. -/
theorem Failures.Admitted.record {failures : Failures} (h : failures.Admitted setting)
    {error : ParseError} (herror : setting.admits error) :
    (failures.record error).Admitted setting := by
  have hor {known : Option ParseError} (hknown : ∀ error ∈ known, setting.admits error) :
      ∀ found ∈ known.or (some error), setting.admits found := by
    cases known with
    | none => simpa using herror
    | some held => simpa using hknown
  unfold Failures.record
  split_ifs
  · exact ⟨hor h.1, h.2⟩
  · exact ⟨h.1, hor h.2⟩

/-- The failure that is reported is admitted. -/
theorem Failures.Admitted.report {failures : Failures} (h : failures.Admitted setting)
    {region : Region} {rest : List Token} (hscope : setting.scope region rest) :
    setting.admits (failures.report region rest) := by
  unfold Failures.report
  rcases hbegun : failures.begun with _ | error
  · rcases houtright : failures.outright with _ | error
    · exact Setting.admits_unexpected hscope
    · exact h.2 error houtright
  · exact h.1 error hbegun

/-- A choice keeps the promise that all alternatives keep. -/
theorem keeps_firstOf {alternatives : List (Parser α)} {promise : Promise α}
    (h : ∀ p ∈ alternatives, p.Keeps setting promise) :
    (firstOf alternatives).Keeps setting promise := by
  constructor
  intro region rest hscope
  have hrun (failures : Failures) (hfailures : failures.Admitted setting) :
      (runFirst region rest failures alternatives).Keeps setting promise region rest := by
    induction alternatives generalizing failures with
    | nil => exact hfailures.report hscope
    | cons p others ih =>
      rw [List.forall_mem_cons] at h
      have hreply := h.1.reply region rest hscope
      unfold runFirst
      split_ifs
      · generalize p.run region rest = reply at hreply ⊢
        rcases reply with ⟨value | error | _, next⟩
        · exact hreply
        · dsimp only
          split_ifs
          · exact hreply
          · exact ih h.2 _ (hfailures.record hreply)
        · exact hreply
      · exact ih h.2 failures hfailures
  exact hrun {} ⟨by simp, by simp⟩

end Parser

/-- The setting in which every run is in scope and every error is admitted. -/
def Setting.any : Setting where
  scope _ _ := True
  admits _ := True
  scope_append _ := trivial
  scope_interior _ _ _ := trivial
  admits_within _ := trivial
  admits_expectedAt _ _ := trivial
  admits_unexpectedAt _ := trivial
  admits_emptyList _ _ := trivial
  admits_emptyList_finish _ _ := trivial
  admits_unexpectedEnd _ _ := trivial
  admits_lexical _ _ _ := trivial

/-- On success in scope a beginning of the tokens is consumed, as promised. -/
theorem Parser.Keeps.exists_used_of_scope {α : Type} {setting : Setting} {p : Parser α}
    {promise : Promise α} {region : Region} {rest next : List Token} {value : α}
    (h : p.Keeps setting promise) (hscope : setting.scope region rest)
    (hrun : p.run region rest = ⟨.ok value, next⟩) :
    ∃ used, rest = used ++ next ∧ promise region used next value :=
  h.of_run hscope hrun

/-- On success a beginning of the tokens is consumed, as promised. -/
theorem Parser.Keeps.exists_used {α : Type} {p : Parser α} {promise : Promise α} {region : Region}
    {rest next : List Token} {value : α} (h : p.Keeps .any promise)
    (hrun : p.run region rest = ⟨.ok value, next⟩) :
    ∃ used, rest = used ++ next ∧ promise region used next value :=
  h.exists_used_of_scope trivial hrun

/-- A parser that keeps a promise everywhere does not run for ever. -/
theorem Parser.Keeps.outcome_ne_endless {α : Type} {p : Parser α} {promise : Promise α}
    (h : p.Keeps .any promise) (region : Region) (rest : List Token) :
    (p.run region rest).outcome ≠ .endless := by
  have hreply := h.reply region rest trivial
  generalize p.run region rest = reply at hreply
  rcases reply with ⟨value | error | _, next⟩
  · simp
  · simp
  · exact hreply.elim

end StyleSyntax
