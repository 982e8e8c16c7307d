import Mathlib.Data.List.Forall2
import Mathlib.Tactic.SplitIfs
import StyleSyntax.Parser.Choice
import StyleSyntax.Proofs.Token.Trimmed

/-!
# Recast runs

A recasting sees tokens as other tokens: it may exchange the two kinds of braces and move positions,
and it changes the region to match. A parser recasts to another one when that one, run on the recast
tokens, gives the recast reply: the same outcome with its value, error and tokens left recast. This
is a property of the pair that the combinators preserve, so that two runs of a grammar are compared
by one walk over it. The runs are compared for the tokens in scope of the recasting; what parsers
leave stays in scope, and only entering or passing braces may lead out of it.
-/

namespace StyleSyntax

/-- Braces are no trivia. -/
theorem isTrivia_of_isBraces {kind : TokenKind} (h : kind.isBraces) : kind.isTrivia = false := by
  cases kind <;> first | rfl | cases h

/-- A kind that is left alone is kept. -/
theorem TokenKind.id_eq {kind : TokenKind} (_ : kind.isBraces = false) : id kind = kind :=
  rfl

/-- A kind that is left alone is one of braces when it was. -/
theorem TokenKind.isBraces_id (kind : TokenKind) : (id kind).isBraces = kind.isBraces :=
  rfl

/-- A way to see the tokens of a run as those of another one. -/
structure Recasting where
  kind : TokenKind → TokenKind
  position : Position → Position
  config : LexerConfig → LexerConfig
  /-- The tokens for which runs are compared. -/
  scope : Region → List Token → Prop
  kind_eq {k : TokenKind} : k.isBraces = false → kind k = k
  isBraces_kind (k : TokenKind) : (kind k).isBraces = k.isBraces
  scope_tail {region : Region} {token : Token} {next : List Token} :
    scope region (token :: next) → token.isBraces = false → scope region next

namespace Recasting

variable (r : Recasting)

/-- The recast token has the same text. -/
def token (token : Token) : Token :=
  ⟨r.kind token.kind, token.value, r.position token.position⟩

/-- The region of the recast tokens. -/
def region (region : Region) : Region :=
  ⟨r.config region.config, r.position region.finish⟩

/-- The recast excerpt has the same text. -/
def excerpt (excerpt : Excerpt) : Excerpt :=
  ⟨excerpt.text, r.position excerpt.position⟩

/-- The recast error has the same cause in the same frames. -/
def error : ParseError → ParseError
  | .leaf fault position => .leaf fault (r.position position)
  | .framed frame position cause => .framed frame (r.position position) (error cause)

variable {r}

/-- Recasting a kind never makes or unmakes a kind other than braces. -/
theorem kind_beq (k : TokenKind) {wanted : TokenKind} (h : wanted.isBraces = false) :
    (r.kind k == wanted) = (k == wanted) := by
  cases hk : k.isBraces with
  | false => rw [r.kind_eq hk]
  | true =>
    have hne : k ≠ wanted := by
      rintro rfl
      rw [h] at hk
      cases hk
    have hkind : r.kind k ≠ wanted := by
      intro heq
      rw [← r.isBraces_kind, heq, h] at hk
      cases hk
    rw [beq_false_of_ne hne, beq_false_of_ne hkind]

@[simp] theorem token_value (token : Token) : (r.token token).value = token.value := rfl

@[simp] theorem region_finish (region : Region) :
    (r.region region).finish = r.position region.finish := rfl

@[simp] theorem token_isBraces (token : Token) : (r.token token).isBraces = token.isBraces :=
  r.isBraces_kind token.kind

/-- Recasting a token never makes or unmakes one of a kind other than braces. -/
theorem token_kind_beq (token : Token) {wanted : TokenKind} (h : wanted.isBraces = false) :
    ((r.token token).kind == wanted) = (token.kind == wanted) :=
  kind_beq token.kind h

@[simp] theorem token_isTrivia (token : Token) : (r.token token).isTrivia = token.isTrivia := by
  rw [Token.isTrivia, Token.isTrivia, Recasting.token]
  cases h : token.kind.isBraces with
  | false => rw [r.kind_eq h]
  | true => rw [isTrivia_of_isBraces h, isTrivia_of_isBraces (by rw [r.isBraces_kind, h])]

@[simp] theorem token_isSignificant (token : Token) :
    (r.token token).isSignificant = token.isSignificant := by
  rw [Token.isSignificant, token_isTrivia, Token.isSignificant]

@[simp] theorem token_isSymbol (token : Token) (text : Text) :
    (r.token token).isSymbol text = token.isSymbol text := by
  rw [Token.isSymbol, token_kind_beq _ rfl, Token.isSymbol, token_value]

@[simp] theorem token_isLiteral (token : Token) (text : Text) :
    (r.token token).isLiteral text = token.isLiteral text := by
  rw [Token.isLiteral, token_kind_beq _ rfl, Token.isLiteral, token_value]

/-- The gap of the recast tokens is the recast gap. -/
theorem dropTrivia_map (tokens : List Token) :
    dropTrivia (tokens.map r.token) = (dropTrivia tokens).map r.token := by
  have h : Token.isTrivia ∘ r.token = Token.isTrivia := funext token_isTrivia
  rw [dropTrivia, List.dropWhile_map, h, dropTrivia]

/-- The first significant token is recast. -/
theorem firstSignificant_map (tokens : List Token) :
    firstSignificant (tokens.map r.token) = (firstSignificant tokens).map r.token := by
  have h : Token.isSignificant ∘ r.token = Token.isSignificant := funext token_isSignificant
  rw [firstSignificant, List.find?_map, h, firstSignificant]

/-- Recasting changes no text. -/
theorem spelling_map (tokens : List Token) : spelling (tokens.map r.token) = spelling tokens := by
  rw [spelling, List.flatMap_map]
  rfl

/-- The recast tokens that were consumed. -/
theorem consumed_map (before rest : List Token) :
    consumed (before.map r.token) (rest.map r.token) = (consumed before rest).map r.token := by
  simp [consumed, List.map_take]

/-- The first recast significant token stands at the recast position. -/
theorem significantPosition_map (tokens : List Token) (finish : Position) :
    significantPosition (tokens.map r.token) (r.position finish) =
      r.position (significantPosition tokens finish) := by
  rw [significantPosition, firstSignificant_map, significantPosition]
  cases firstSignificant tokens <;> rfl

/-- The first recast token stands at the recast position. -/
theorem nextPosition_map (tokens : List Token) (finish : Position) :
    nextPosition (tokens.map r.token) (r.position finish) =
      r.position (nextPosition tokens finish) := by
  cases tokens <;> rfl

/-- The excerpt of recast tokens is recast. -/
theorem excerptOf_map (tokens : List Token) (fallback : Position) :
    excerptOf (tokens.map r.token) (r.position fallback) =
      r.excerpt (excerptOf tokens fallback) := by
  rw [excerptOf, trimmedSpelling, dropTrivia_map, spelling_map, fragmentPosition,
    firstSignificant_map, List.head?_map, excerptOf, excerpt, trimmedSpelling, fragmentPosition]
  cases firstSignificant tokens <;> cases tokens <;> rfl

/-- The recast error that something is needed. -/
theorem expected_map (region : Region) (wanted : Text) (rest : List Token) :
    (r.region region).expected wanted (rest.map r.token) =
      r.error (region.expected wanted rest) := by
  rw [Region.expected, firstSignificant_map, Region.expected]
  cases firstSignificant rest <;> rfl

/-- The recast error that no rule applies. -/
theorem unexpected_map (region : Region) (rest : List Token) :
    (r.region region).unexpected (rest.map r.token) = r.error (region.unexpected rest) := by
  rw [Region.unexpected, firstSignificant_map, Region.unexpected]
  cases firstSignificant rest <;> rfl

/-- The position of a recast error. -/
theorem position_error (error : ParseError) :
    (r.error error).position = r.position error.position := by
  cases error <;> rfl

/-- Recast positions that stay leave errors as they are. -/
theorem error_eq_self (h : ∀ position, r.position position = position) (error : ParseError) :
    r.error error = error := by
  induction error with
  | leaf fault position => rw [error, h]
  | framed frame position cause ih => rw [error, h, ih]

/-- A recast error is from inside brackets when the error is. -/
theorem isBlock_error (error : ParseError) : (r.error error).isBlock = error.isBlock := by
  induction error with
  | leaf => rfl
  | framed frame position cause ih =>
    cases frame with
    | step => exact ih
    | block => rfl

/-- A recast error is that of a later step when the error is. -/
theorem isPartial_error (error : ParseError) : (r.error error).isPartial = error.isPartial := by
  rcases error with _ | ⟨_ | _, _, _⟩ <;> rfl

/-- A frame is the same around a recast error. -/
theorem error_within (frame : Frame) (error : ParseError) :
    (r.error error).within frame = r.error (error.within frame) :=
  congrArg (ParseError.framed frame · _) (position_error error)

/-- The mark of a step is the same on a recast error. -/
theorem error_atStep (error : ParseError) (index : Nat) :
    (r.error error).atStep index = r.error (error.atStep index) := by
  unfold ParseError.atStep
  split_ifs
  · rfl
  · exact error_within _ error

/-- What is behind the gap is in scope. -/
theorem scope_dropTrivia {region : Region} {rest : List Token} (h : r.scope region rest) :
    r.scope region (dropTrivia rest) := by
  induction rest with
  | nil => exact h
  | cons token rest ih =>
    by_cases htrivia : token.isTrivia
    · rw [dropTrivia, List.dropWhile_cons_of_pos htrivia]
      refine ih (r.scope_tail h ?_)
      by_contra hbraces
      rw [Token.isTrivia, isTrivia_of_isBraces (by simpa [Token.isBraces] using hbraces)] at htrivia
      cases htrivia
    · rwa [dropTrivia_cons (by simpa [Token.isSignificant] using htrivia)]

end Recasting

variable {α β γ δ : Type} {r : Recasting}

/-- The reply with its value, its error and the tokens left recast. -/
def Reply.recast (r : Recasting) (f : α → β) (reply : Reply α) : Reply β :=
  ⟨(reply.outcome.map f).mapError r.error, reply.rest.map r.token⟩

/-- The second reply is the recast first one, which leaves tokens in scope. -/
structure Reply.Recasts (r : Recasting) (f : α → β) (region : Region) (reply : Reply α)
    (other : Reply β) : Prop where
  eq : other = reply.recast r f
  scope : r.scope region reply.rest

/-- A recast reply with its value changed is recast. -/
theorem Reply.Recasts.map {f : α → β} {g : γ → δ} {change : α → γ} {other : β → δ}
    {region : Region} {reply : Reply α} {reply' : Reply β} (h : reply.Recasts r f region reply')
    (hchange : ∀ value, other (f value) = g (change value)) :
    (reply.map change).Recasts r g region (reply'.map other) := by
  obtain ⟨rfl, hscope⟩ := h
  rcases reply with ⟨value | error | _, next⟩
  · exact ⟨congrArg (fun value => Reply.mk (.ok value) _) (hchange value), hscope⟩
  · exact ⟨rfl, hscope⟩
  · exact ⟨rfl, hscope⟩

namespace Parser

/-- The second parser gives the recast replies of the first one wherever that runs in scope, and
its check agrees. -/
structure Recasts (r : Recasting) (f : α → β) (p : Parser α) (q : Parser β) : Prop where
  reply (region : Region) (rest : List Token) : r.scope region rest →
    (p.run region rest).Recasts r f region (q.run (r.region region) (rest.map r.token))
  accepts (next : Option Token) : q.accepts (next.map r.token) = p.accepts next

/-- What becomes of a known reply. -/
theorem Recasts.of_run {p : Parser α} {q : Parser β} {f : α → β} (h : p.Recasts r f q)
    {region : Region} {rest : List Token} (hscope : r.scope region rest) {reply : Reply α}
    (hrun : p.run region rest = reply) :
    q.run (r.region region) (rest.map r.token) = reply.recast r f ∧ r.scope region reply.rest := by
  obtain ⟨heq, hstays⟩ := h.reply region rest hscope
  rw [hrun] at heq hstays
  exact ⟨heq, hstays⟩

/-- A value where it stands is recast. -/
theorem recasts_pure {f : α → β} {value : α} {other : β} (h : other = f value) :
    (pure value : Parser α).Recasts r f (pure other) := by
  subst h
  exact ⟨fun region rest hscope => ⟨rfl, hscope⟩, fun _ => rfl⟩

/-- In a sequence both parsers are recast. -/
theorem Recasts.bind {p : Parser α} {q : Parser β} {f : α → β} {following : α → Parser γ}
    {others : β → Parser δ} {g : γ → δ} (hp : p.Recasts r f q)
    (hfollowing : ∀ value, (following value).Recasts r g (others (f value))) :
    (p >>= following).Recasts r g (q >>= others) := by
  refine ⟨fun region rest hscope => ?_, fun _ => rfl⟩
  obtain ⟨heq, hstays⟩ := hp.reply region rest hscope
  rw [run_bind, run_bind, heq]
  generalize p.run region rest = reply at hstays
  rcases reply with ⟨value | error | _, middle⟩
  · exact (hfollowing value).reply region middle hstays
  · exact ⟨rfl, hstays⟩
  · exact ⟨rfl, hstays⟩

/-- A changed value is recast. -/
theorem Recasts.map {p : Parser α} {q : Parser β} {f : α → β} {g : γ → δ} {change : α → γ}
    {other : β → δ} (hp : p.Recasts r f q) (h : ∀ value, other (f value) = g (change value)) :
    (p.map change).Recasts r g (q.map other) :=
  ⟨fun region rest hscope => (hp.reply region rest hscope).map h, fun _ => rfl⟩

/-- A failure is recast when its error is. -/
theorem recasts_fail {f : α → β} {error other : Region → List Token → ParseError}
    (h : ∀ region rest, other (r.region region) (rest.map r.token) = r.error (error region rest)) :
    (fail error : Parser α).Recasts r f (fail other) :=
  ⟨fun region rest hscope => ⟨congrArg (fun error => Reply.mk (.failed error) _) (h region rest),
    hscope⟩, fun _ => rfl⟩

/-- Failing for want of something is recast. -/
theorem recasts_expected (f : α → β) (wanted : Text) :
    (expected wanted : Parser α).Recasts r f (expected wanted) :=
  recasts_fail fun region rest => Recasting.expected_map region wanted rest

/-- Failing because no rule applies is recast. -/
theorem recasts_unexpected (f : α → β) : (unexpected : Parser α).Recasts r f unexpected :=
  recasts_fail Recasting.unexpected_map

/-- A parser that is built late is recast as what it is built to. -/
theorem Recasts.delay {p : Parser α} {q : Parser β} {f : α → β} (h : p.Recasts r f q) :
    (delay fun _ => p).Recasts r f (delay fun _ => q) :=
  ⟨h.reply, fun _ => rfl⟩

/-- A check that does not see the recasting may be added. -/
theorem Recasts.probe {p : Parser α} {q : Parser β} {f : α → β} (h : p.Recasts r f q)
    {test : Token → Bool} (htest : ∀ token, test (r.token token) = test token) :
    (probe test p).Recasts r f (probe test q) := by
  refine ⟨h.reply, fun next => ?_⟩
  cases next with
  | none => rfl
  | some token => exact htest token

/-- Going back to the start keeps a parser recast. -/
theorem Recasts.attempt {p : Parser α} {q : Parser β} {f : α → β} (h : p.Recasts r f q) :
    (attempt p).Recasts r f (attempt q) := by
  refine ⟨fun region rest hscope => ?_, fun _ => rfl⟩
  obtain ⟨heq, hstays⟩ := h.reply region rest hscope
  unfold Parser.attempt
  dsimp only
  rw [heq]
  generalize p.run region rest = reply at hstays
  rcases reply with ⟨value | error | _, next⟩
  · exact ⟨rfl, hstays⟩
  · exact ⟨rfl, hscope⟩
  · exact ⟨rfl, hscope⟩

/-- A part that may be left out is recast, and left out of both runs or of none. -/
theorem Recasts.optional {p : Parser α} {q : Parser β} {f : α → β} (h : p.Recasts r f q) :
    p.optional.Recasts r (Option.map f) q.optional := by
  refine ⟨fun region rest hscope => ?_, fun _ => rfl⟩
  obtain ⟨heq, hstays⟩ := h.reply region rest hscope
  unfold Parser.optional
  dsimp only
  rw [heq, Recasting.firstSignificant_map, h.accepts]
  split_ifs
  · generalize p.run region rest = reply at hstays
    rcases reply with ⟨value | error | _, next⟩
    · exact ⟨rfl, hstays⟩
    · simp only [Reply.recast, Outcome.map, Outcome.mapError, Recasting.isBlock_error]
      split_ifs
      · exact ⟨rfl, hscope⟩
      · exact ⟨rfl, hscope⟩
    · exact ⟨rfl, hscope⟩
  · exact ⟨rfl, hscope⟩

/-- A step of a sequence is recast. -/
theorem Recasts.step {p : Parser α} {q : Parser β} {f : α → β} (h : p.Recasts r f q)
    (index : Nat) : (step index p).Recasts r f (step index q) := by
  refine ⟨fun region rest hscope => ?_, fun _ => rfl⟩
  obtain ⟨heq, hstays⟩ := h.reply region rest hscope
  unfold Parser.step
  dsimp only
  rw [heq]
  generalize p.run region rest = reply at hstays
  rcases reply with ⟨value | error | _, next⟩
  · exact ⟨rfl, hstays⟩
  · exact ⟨congrArg (fun error => Reply.mk (.failed error) _) (Recasting.error_atStep error index),
      hstays⟩
  · exact ⟨rfl, hstays⟩

/-- The failures with their errors recast. -/
def Failures.recast (r : Recasting) (failures : Failures) : Failures :=
  ⟨failures.begun.map r.error, failures.outright.map r.error⟩

/-- A recast failure is recorded as the failure is. -/
theorem Failures.record_recast (failures : Failures) (error : ParseError) :
    (failures.recast r).record (r.error error) = (failures.record error).recast r := by
  unfold Failures.record
  rw [Recasting.isPartial_error]
  split_ifs
  · cases h : failures.begun <;> simp [Failures.recast, h]
  · cases h : failures.outright <;> simp [Failures.recast, h]

/-- The recast failure is reported. -/
theorem Failures.report_recast (failures : Failures) (region : Region) (rest : List Token) :
    (failures.recast r).report (r.region region) (rest.map r.token) =
      r.error (failures.report region rest) := by
  rw [Failures.report, Recasting.unexpected_map, Failures.report, Failures.recast]
  cases failures.begun <;> cases failures.outright <;> rfl

/-- Alternatives are recast one by one. -/
theorem recasts_firstOf {f : α → β} {alternatives : List (Parser α)} {others : List (Parser β)}
    (h : List.Forall₂ (Recasts r f) alternatives others) :
    (firstOf alternatives).Recasts r f (firstOf others) := by
  refine ⟨fun region rest hscope => ?_, fun _ => rfl⟩
  have hrun (failures : Failures) : (runFirst region rest failures alternatives).Recasts r f region
      (runFirst (r.region region) (rest.map r.token) (failures.recast r) others) := by
    induction h generalizing failures with
    | nil =>
      rw [runFirst, runFirst, Failures.report_recast]
      exact ⟨rfl, hscope⟩
    | @cons p q _ _ hp _ ih =>
      obtain ⟨heq, hstays⟩ := hp.reply region rest hscope
      rw [runFirst, runFirst, heq, Recasting.firstSignificant_map, hp.accepts]
      split_ifs
      · generalize p.run region rest = reply at hstays
        rcases reply with ⟨value | error | _, next⟩
        · exact ⟨rfl, hstays⟩
        · simp only [Reply.recast, Outcome.map, Outcome.mapError, Recasting.isBlock_error]
          split_ifs
          · exact ⟨rfl, hscope⟩
          · rw [Failures.record_recast]
            exact ih _
        · exact ⟨rfl, hscope⟩
      · exact ih failures
  exact hrun {}

end Parser

end StyleSyntax
