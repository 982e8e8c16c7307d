import StyleSyntax.Parser.Bracketed
import StyleSyntax.Parser.Capture
import StyleSyntax.Parser.Repetition
import StyleSyntax.Proofs.Parser.Refusal

/-!
# Parsers that are run on the way

A parser that is built from others by combinators runs some of them on some of the tokens, often
only to give their results up again. Whether it does can be told from outside: it runs a part at a
place exactly when it would not end if the part did not end there. No result of such a part is lost
when it is an error from inside brackets: the whole then fails inside brackets too, with the same
root cause. Both are one comparison, of the run of the whole with the run in which the part does not
end, and each combinator respects it.
-/

namespace StyleSyntax

variable {α β γ σ : Type} {cause : ParseError}

/-- The second answer is the first one, or it never comes where the first one is an error from
inside brackets with the root cause. -/
inductive Reply.Stalls (cause : ParseError) : Reply α → Reply α → Prop
  | same (reply : Reply α) : Stalls cause reply reply
  | stuck {error : ParseError} {next next' : List Token} (hblock : error.isBlock)
      (hcause : error.rootCause = cause) :
      Stalls cause ⟨.failed error, next⟩ ⟨.endless, next'⟩

/-- A changed value does not make the difference. -/
theorem Reply.Stalls.map {reply reply' : Reply α} (h : reply.Stalls cause reply') (f : α → β) :
    (reply.map f).Stalls cause (reply'.map f) := by
  cases h with
  | same => exact .same _
  | stuck hblock hcause => exact .stuck hblock hcause

namespace Parser

/-- The second parser is the first one with `q'` in place of `q` somewhere. -/
inductive Replaces (q q' : Parser β) : {α : Type} → Parser α → Parser α → Prop
  | here : Replaces q q' q q'
  | same {α : Type} (p : Parser α) : Replaces q q' p p
  | bind {α γ : Type} {p p' : Parser γ} {following following' : γ → Parser α}
      (hp : Replaces q q' p p')
      (hfollowing : ∀ value, Replaces q q' (following value) (following' value)) :
      Replaces q q' (p >>= following) (p' >>= following')
  /-- A parser that runs another one, which it chooses by the tokens that are left. -/
  | chosen {α : Type} {p p' : Parser α} (parts parts' : Region → List Token → Parser α)
      (hp : ∀ region rest, p.run region rest = (parts region rest).run region rest)
      (hp' : ∀ region rest, p'.run region rest = (parts' region rest).run region rest)
      (haccepts : p'.accepts = p.accepts)
      (h : ∀ region rest, Replaces q q' (parts region rest) (parts' region rest)) :
      Replaces q q' p p'
  | map {α γ : Type} {p p' : Parser γ} (h : Replaces q q' p p') (f : γ → α) :
      Replaces q q' (p.map f) (p'.map f)
  | attempt {α : Type} {p p' : Parser α} (h : Replaces q q' p p') :
      Replaces q q' (attempt p) (attempt p')
  | optional {α : Type} {p p' : Parser α} (h : Replaces q q' p p') :
      Replaces q q' (optional p) (optional p')
  | probe {α : Type} {p p' : Parser α} (h : Replaces q q' p p') (test : Token → Bool) :
      Replaces q q' (probe test p) (probe test p')
  | step {α : Type} {p p' : Parser α} (h : Replaces q q' p p') (index : Nat) :
      Replaces q q' (step index p) (step index p')
  | sequence {α : Type} {p p' : Parser α} (h : Replaces q q' p p')
      (before after : List (Parser α)) :
      Replaces q q' (sequence (before ++ p :: after)) (sequence (before ++ p' :: after))
  | firstOf {α : Type} {p p' : Parser α} (h : Replaces q q' p p')
      (before after : List (Parser α)) :
      Replaces q q' (firstOf (before ++ p :: after)) (firstOf (before ++ p' :: after))
  | longestOf {α : Type} {p p' : Parser α} (h : Replaces q q' p p')
      (before after : List (Parser α)) :
      Replaces q q' (longestOf (before ++ p :: after)) (longestOf (before ++ p' :: after))
  | many {α : Type} {p p' : Parser α} (h : Replaces q q' p p') : Replaces q q' (many p) (many p')
  | all {α : Type} {p p' : Parser α} (h : Replaces q q' p p') : Replaces q q' (all p) (all p')
  | separated {α σ : Type} {p p' : Parser α} {s s' : Parser σ} (hs : Replaces q q' s s')
      (hp : Replaces q q' p p') : Replaces q q' (separated s p) (separated s' p')
  | list {α σ : Type} {p p' : Parser α} {s s' : Parser σ} (hp : Replaces q q' p p')
      (hs : Replaces q q' s s') (allowEmpty : Bool) :
      Replaces q q' (list p s allowEmpty) (list p' s' allowEmpty)
  | commaList {α : Type} {p p' : Parser α} (h : Replaces q q' p p') :
      Replaces q q' (commaList p) (commaList p')
  | leftRecursive {left left' right right' : Parser Text} (hleft : Replaces q q' left left')
      (hright : Replaces q q' right right') :
      Replaces q q' (leftRecursive left right) (leftRecursive left' right')
  | capture {α : Type} {p p' : Parser α} (h : Replaces q q' p p') :
      Replaces q q' (capture p) (capture p')
  | rawValue {α : Type} {p p' : Parser α} (h : Replaces q q' p p') :
      Replaces q q' (rawValue p) (rawValue p')
  | block {α : Type} {p p' : Parser α} (h : Replaces q q' p p') (kinds : List TokenKind) :
      Replaces q q' (block kinds p) (block kinds p')

/-- The parser that does not end on the given tokens and is the same on all others. -/
def endlessAt (q : Parser β) (region : Region) (rest : List Token) : Parser β :=
  { q with
    run := fun region' rest' =>
      let reply := q.run region' rest'
      if region' = region ∧ rest' = rest then ⟨.endless, reply.rest⟩ else reply }

/-- On its way over some tokens the parser `p` runs its part `q` on the tokens `rest'`: it ends as
it is, and would not end if the part did not end there. -/
def Consults (p : Parser α) (q : Parser β) (region : Region) (rest : List Token) (region' : Region)
    (rest' : List Token) : Prop :=
  (p.run region rest).outcome ≠ .endless ∧
    ∃ p', Replaces q (q.endlessAt region' rest') p p' ∧ (p'.run region rest).outcome = .endless

/-- The second parser answers as the first one does, or stalls where that fails inside brackets with
the root cause. -/
structure Stalls (cause : ParseError) (p p' : Parser α) : Prop where
  run (region : Region) (rest : List Token) :
    (p.run region rest).Stalls cause (p'.run region rest)
  accepts : p'.accepts = p.accepts

variable {p p' : Parser α} {s s' : Parser σ}

/-- A parser answers as it does. -/
theorem Stalls.refl (p : Parser α) : Stalls cause p p :=
  ⟨fun _ _ => .same _, rfl⟩

/-- A sequence stalls when its parts do: the second part is run only behind a success. -/
theorem Stalls.bind {following following' : α → Parser γ} (hp : Stalls cause p p')
    (hfollowing : ∀ value, Stalls cause (following value) (following' value)) :
    Stalls cause (p >>= following) (p' >>= following') := by
  refine ⟨fun region rest => ?_, rfl⟩
  have hrun := hp.run region rest
  rw [run_bind, run_bind]
  generalize p.run region rest = reply at hrun ⊢
  generalize p'.run region rest = reply' at hrun ⊢
  cases hrun with
  | same =>
    rcases reply with ⟨value | error | _, next⟩
    · exact (hfollowing value).run region next
    · exact .same _
    · exact .same _
  | stuck hblock hcause => exact .stuck hblock hcause

/-- A parser stalls when those that it chooses from do. -/
theorem Stalls.chosen {parts parts' : Region → List Token → Parser α}
    (hp : ∀ region rest, p.run region rest = (parts region rest).run region rest)
    (hp' : ∀ region rest, p'.run region rest = (parts' region rest).run region rest)
    (haccepts : p'.accepts = p.accepts)
    (h : ∀ region rest, Stalls cause (parts region rest) (parts' region rest)) :
    Stalls cause p p' := by
  refine ⟨fun region rest => ?_, haccepts⟩
  rw [hp, hp']
  exact (h region rest).run region rest

/-- A changed value changes no error. -/
theorem Stalls.map (h : Stalls cause p p') (f : α → β) : Stalls cause (p.map f) (p'.map f) :=
  ⟨fun region rest => (h.run region rest).map f, rfl⟩

/-- Going back to the start keeps the error. -/
theorem Stalls.attempt (h : Stalls cause p p') : Stalls cause (attempt p) (attempt p') := by
  refine ⟨fun region rest => ?_, rfl⟩
  have hrun := h.run region rest
  unfold Parser.attempt
  dsimp only
  generalize p.run region rest = reply at hrun ⊢
  generalize p'.run region rest = reply' at hrun ⊢
  cases hrun with
  | same => exact .same _
  | stuck hblock hcause => exact .stuck hblock hcause

/-- A part that may be left out is not left out when it fails inside brackets. -/
theorem Stalls.optional (h : Stalls cause p p') : Stalls cause (optional p) (optional p') := by
  refine ⟨fun region rest => ?_, rfl⟩
  have hrun := h.run region rest
  unfold Parser.optional
  dsimp only
  rw [h.accepts]
  split_ifs
  · generalize p.run region rest = reply at hrun ⊢
    generalize p'.run region rest = reply' at hrun ⊢
    cases hrun with
    | same => exact .same _
    | stuck hblock hcause =>
      simp only [hblock]
      exact .stuck hblock hcause
  · exact .same _

/-- The check of the next token is asked before the run. -/
theorem Stalls.probe (h : Stalls cause p p') (test : Token → Bool) :
    Stalls cause (probe test p) (probe test p') :=
  ⟨h.run, rfl⟩

/-- The innermost error has no frame around it. -/
theorem context_rootCause (error : ParseError) : error.rootCause.context = [] := by
  induction error with
  | leaf => rfl
  | framed _ _ _ ih => exact ih

/-- The mark of a step changes no root cause. -/
theorem rootCause_atStep (index : Nat) (error : ParseError) :
    (error.atStep index).rootCause = error.rootCause := by
  unfold ParseError.atStep
  split_ifs <;> rfl

/-- A mark around an error from inside brackets leaves it one, with the same root cause. -/
theorem Stalls.step (h : Stalls cause p p') (index : Nat) :
    Stalls cause (step index p) (step index p') := by
  refine ⟨fun region rest => ?_, rfl⟩
  have hrun := h.run region rest
  unfold Parser.step
  dsimp only
  generalize p.run region rest = reply at hrun ⊢
  generalize p'.run region rest = reply' at hrun ⊢
  cases hrun with
  | same => exact .same _
  | stuck hblock hcause =>
    apply Reply.Stalls.stuck
    · rw [isBlock_atStep, hblock]
    · rw [rootCause_atStep, hcause]

/-- Steps stall when one of them does. -/
theorem Stalls.stepsFrom (h : Stalls cause p p') (before after : List (Parser α)) (index : Nat) :
    Stalls cause (stepsFrom index (before ++ p :: after))
      (stepsFrom index (before ++ p' :: after)) := by
  induction before generalizing index with
  | nil => exact (h.step index).bind fun _ => .refl _
  | cons first before ih =>
    apply (Stalls.refl _).bind
    intro value
    exact (ih (index + 1)).bind fun _ => .refl _

/-- No later alternative is tried behind an error from inside brackets. -/
theorem Stalls.firstOf (h : Stalls cause p p') (before after : List (Parser α)) :
    Stalls cause (firstOf (before ++ p :: after)) (firstOf (before ++ p' :: after)) := by
  refine ⟨fun region rest => ?_, rfl⟩
  change (runFirst region rest {} (before ++ p :: after)).Stalls cause
    (runFirst region rest {} (before ++ p' :: after))
  generalize ({} : Failures) = failures
  induction before generalizing failures with
  | nil =>
    have hrun := h.run region rest
    rw [List.nil_append, List.nil_append, runFirst, runFirst, h.accepts]
    split_ifs
    · generalize p.run region rest = reply at hrun ⊢
      generalize p'.run region rest = reply' at hrun ⊢
      cases hrun with
      | same => exact .same _
      | stuck hblock hcause =>
        simp only [hblock]
        exact .stuck hblock hcause
    · exact .same _
  | cons first before ih =>
    rw [List.cons_append, List.cons_append, runFirst, runFirst]
    split_ifs
    · rcases first.run region rest with ⟨value | error | _, next⟩
      · exact .same _
      · dsimp only
        split_ifs
        · exact .same _
        · exact ih _
      · exact .same _
    · exact ih _

/-- An error from inside brackets outweighs what earlier alternatives have found. -/
theorem Stalls.longestOf (h : Stalls cause p p') (before after : List (Parser α)) :
    Stalls cause (longestOf (before ++ p :: after)) (longestOf (before ++ p' :: after)) := by
  refine ⟨fun region rest => ?_, rfl⟩
  change (runLongest region rest none {} (before ++ p :: after)).Stalls cause
    (runLongest region rest none {} (before ++ p' :: after))
  generalize ({} : Failures) = failures
  generalize (none : Option (α × List Token)) = best
  induction before generalizing best failures with
  | nil =>
    have hrun := h.run region rest
    rw [List.nil_append, List.nil_append, runLongest, runLongest, h.accepts]
    split_ifs
    · generalize p.run region rest = reply at hrun ⊢
      generalize p'.run region rest = reply' at hrun ⊢
      cases hrun with
      | same => exact .same _
      | stuck hblock hcause =>
        simp only [hblock]
        exact .stuck hblock hcause
    · exact .same _
  | cons first before ih =>
    rw [List.cons_append, List.cons_append, runLongest, runLongest]
    split_ifs
    · rcases first.run region rest with ⟨value | error | _, next⟩
      · exact ih _ _
      · dsimp only
        split_ifs
        · exact .same _
        · exact ih _ _
      · exact .same _
    · exact ih _ _

/-- A repetition does not stop at an error from inside brackets as if it were its end. -/
theorem Stalls.many (h : Stalls cause p p') : Stalls cause (many p) (many p') := by
  refine ⟨fun region rest => ?_, rfl⟩
  change (runMany p region rest).Stalls cause (runMany p' region rest)
  induction hlength : rest.length using Nat.strongRecOn generalizing rest with
  | ind length ih =>
    subst hlength
    rw [runMany.eq_def p, runMany.eq_def p']
    split_ifs
    · exact .same _
    · have hrun := h.optional.run region rest
      generalize p.optional.run region rest = reply at hrun ⊢
      generalize p'.optional.run region rest = reply' at hrun ⊢
      cases hrun with
      | same =>
        rcases reply with ⟨(_ | value) | error | _, next⟩
        · exact .same _
        · dsimp only
          split_ifs with hlt
          · exact (ih _ hlt next rfl).map _
          · exact .same _
        · exact .same _
        · exact .same _
      | stuck hblock hcause => exact .stuck hblock hcause

/-- Matches up to the end stall when one of them does. -/
theorem Stalls.all (h : Stalls cause p p') : Stalls cause (all p) (all p') := by
  refine ⟨fun region rest => ?_, rfl⟩
  change (runAll p region rest).Stalls cause (runAll p' region rest)
  induction hlength : rest.length using Nat.strongRecOn generalizing rest with
  | ind length ih =>
    subst hlength
    rw [runAll.eq_def p, runAll.eq_def p']
    split_ifs
    · exact .same _
    · have hrun := h.run region rest
      generalize p.run region rest = reply at hrun ⊢
      generalize p'.run region rest = reply' at hrun ⊢
      cases hrun with
      | same =>
        rcases reply with ⟨value | error | _, next⟩
        · dsimp only
          split_ifs with hlt
          · exact (ih _ hlt next rfl).map _
          · exact .same _
        · exact .same _
        · exact .same _
      | stuck hblock hcause => exact .stuck hblock hcause

/-- Neither a separator nor an element is given up for the end of the list. -/
theorem Stalls.separated (hs : Stalls cause s s') (hp : Stalls cause p p') :
    Stalls cause (separated s p) (separated s' p') := by
  refine ⟨fun region rest => ?_, rfl⟩
  change (runSeparated s p region rest).Stalls cause (runSeparated s' p' region rest)
  induction hlength : rest.length using Nat.strongRecOn generalizing rest with
  | ind length ih =>
    subst hlength
    rw [runSeparated.eq_def s, runSeparated.eq_def s']
    have hjoint := hs.optional.run region rest
    generalize s.optional.run region rest = reply at hjoint ⊢
    generalize s'.optional.run region rest = reply' at hjoint ⊢
    cases hjoint with
    | same =>
      rcases reply with ⟨(_ | joint) | error | _, middle⟩
      · exact .same _
      · have hrun := hp.optional.run region middle
        dsimp only
        generalize p.optional.run region middle = reply at hrun ⊢
        generalize p'.optional.run region middle = reply' at hrun ⊢
        cases hrun with
        | same =>
          rcases reply with ⟨(_ | value) | error | _, next⟩
          · exact .same _
          · dsimp only
            split_ifs with hlt
            · exact (ih _ hlt next rfl).map _
            · exact .same _
          · exact .same _
          · exact .same _
        | stuck hblock hcause => exact .stuck hblock hcause
      · exact .same _
      · exact .same _
    | stuck hblock hcause => exact .stuck hblock hcause

/-- A list is not empty because its first element fails inside brackets. -/
theorem Stalls.list (hp : Stalls cause p p') (hs : Stalls cause s s') (allowEmpty : Bool) :
    Stalls cause (list p s allowEmpty) (list p' s' allowEmpty) := by
  apply hp.optional.bind
  intro first
  cases first with
  | none => exact .refl _
  | some first => exact (hs.separated hp).bind fun _ => .refl _

/-- Matches behind the first text stall when one of them does. -/
theorem Stalls.leftRecursive {left left' right right' : Parser Text}
    (hleft : Stalls cause left left') (hright : Stalls cause right right') :
    Stalls cause (leftRecursive left right) (leftRecursive left' right') := by
  apply hleft.bind
  intro first
  refine Stalls.bind ⟨fun region rest => ?_, rfl⟩ fun _ => .refl _
  change (runTexts right region rest).Stalls cause (runTexts right' region rest)
  induction hlength : rest.length using Nat.strongRecOn generalizing rest with
  | ind length ih =>
    subst hlength
    rw [runTexts.eq_def right, runTexts.eq_def right']
    have hrun := hright.optional.run region rest
    generalize right.optional.run region rest = reply at hrun ⊢
    generalize right'.optional.run region rest = reply' at hrun ⊢
    cases hrun with
    | same =>
      rcases reply with ⟨(_ | text) | error | _, next⟩
      · exact .same _
      · dsimp only
        split_ifs with hlt
        · exact (ih _ hlt next rfl).map _
        · exact .same _
      · exact .same _
      · exact .same _
    | stuck hblock hcause => exact .stuck hblock hcause

/-- Captured source is taken after a success alone. -/
theorem Stalls.capture (h : Stalls cause p p') : Stalls cause (capture p) (capture p') := by
  refine ⟨fun region rest => ?_, rfl⟩
  have hrun := h.run region rest
  unfold Parser.capture
  dsimp only
  generalize p.run region rest = reply at hrun ⊢
  generalize p'.run region rest = reply' at hrun ⊢
  cases hrun with
  | same => exact .same _
  | stuck hblock hcause => exact .stuck hblock hcause

/-- Source as written is taken after a success alone. -/
theorem Stalls.rawValue (h : Stalls cause p p') : Stalls cause (rawValue p) (rawValue p') := by
  refine ⟨fun region rest => ?_, rfl⟩
  have hrun := h.run region rest
  unfold Parser.rawValue
  dsimp only
  generalize p.run region rest = reply at hrun ⊢
  generalize p'.run region rest = reply' at hrun ⊢
  cases hrun with
  | same => exact .same _
  | stuck hblock hcause => exact .stuck hblock hcause

/-- The interior of a token stalls as its parser does; the error stays one from inside brackets. -/
theorem Stalls.block (h : Stalls cause p p') (kinds : List TokenKind) :
    Stalls cause (block kinds p) (block kinds p') := by
  apply (Stalls.refl (bracketed kinds)).bind
  intro token
  refine ⟨fun region rest => ?_, rfl⟩
  change Reply.Stalls cause ⟨interior p region.config token, rest⟩
    ⟨interior p' region.config token, rest⟩
  unfold interior runInside
  cases token.interior with
  | none => exact .same _
  | some inside =>
    dsimp only
    cases tokensOf region.config inside.1 inside.2 with
    | error error => exact .same _
    | ok tokens =>
      have hrun := h.run (.ofTokens region.config (splitSymbolRuns tokens) inside.2)
        (splitSymbolRuns tokens)
      dsimp only
      unfold runWhole
      generalize p.run _ (splitSymbolRuns tokens) = reply at hrun ⊢
      generalize p'.run _ (splitSymbolRuns tokens) = reply' at hrun ⊢
      cases hrun with
      | same => exact .same _
      | stuck hblock hcause =>
        apply Reply.Stalls.stuck
        · rw [ParseError.isBlock_within, hblock, Bool.or_true]
        · exact hcause

/-- A parser with a part that stalls stalls itself, whatever combinators are around the part. -/
theorem Replaces.stalls {q q' : Parser β} (h : Replaces q q' p p') (hq : Stalls cause q q') :
    Stalls cause p p' := by
  induction h with
  | here => exact hq
  | same p => exact .refl p
  | bind _ _ ihp ihfollowing => exact ihp.bind ihfollowing
  | chosen _ _ hp hp' haccepts _ ih => exact .chosen hp hp' haccepts ih
  | map _ f ih => exact ih.map f
  | attempt _ ih => exact ih.attempt
  | optional _ ih => exact ih.optional
  | probe _ test ih => exact ih.probe test
  | step _ index ih => exact ih.step index
  | sequence _ before after ih => exact (ih.stepsFrom before after 0).attempt
  | firstOf _ before after ih => exact ih.firstOf before after
  | longestOf _ before after ih => exact ih.longestOf before after
  | many _ ih => exact ih.many
  | all _ ih => exact ih.all
  | separated _ _ ihs ihp => exact ihs.separated ihp
  | list _ _ allowEmpty ihp ihs => exact ihp.list ihs allowEmpty
  | commaList _ ih => exact ih.list (.refl _) false
  | leftRecursive _ _ ihleft ihright => exact ihleft.leftRecursive ihright
  | capture _ ih => exact ih.capture
  | rawValue _ ih => exact ih.rawValue
  | block _ kinds ih => exact ih.block kinds

/-- A parser that does not end where it fails inside brackets stalls there and nowhere else. -/
theorem stalls_endlessAt {q : Parser β} {region : Region} {rest next : List Token}
    {error : ParseError} (hrun : q.run region rest = ⟨.failed error, next⟩)
    (hblock : error.isBlock) : Stalls error.rootCause q (q.endlessAt region rest) := by
  refine ⟨fun region' rest' => ?_, rfl⟩
  unfold endlessAt
  dsimp only
  split_ifs with hplace
  · obtain ⟨rfl, rfl⟩ := hplace
    rw [hrun]
    exact .stuck hblock rfl
  · exact .same _

/-- A part that is run on the way and fails inside brackets makes the whole fail inside brackets,
with the same root cause. -/
theorem Consults.exists_failed {q : Parser β} {region region' : Region} {rest rest' : List Token}
    {error : ParseError} (h : Consults p q region rest region' rest')
    (hfailed : (q.run region' rest').outcome = .failed error) (hblock : error.isBlock) :
    ∃ error', (p.run region rest).outcome = .failed error' ∧ error'.isBlock ∧
      error'.rootCause = error.rootCause := by
  obtain ⟨hends, p', hreplaces, hendless⟩ := h
  rcases hrun : q.run region' rest' with ⟨outcome, next⟩
  rw [hrun] at hfailed
  obtain rfl : outcome = .failed error := hfailed
  have hstalls := (hreplaces.stalls (stalls_endlessAt hrun hblock)).run region rest
  generalize p.run region rest = reply at hstalls hends ⊢
  generalize p'.run region rest = reply' at hstalls hendless
  cases hstalls with
  | same => exact absurd hendless hends
  | stuck hblock' hcause => exact ⟨_, rfl, hblock', hcause⟩

/-- A part that is run on the way ends there. -/
theorem Consults.ends {q : Parser β} {region region' : Region} {rest rest' : List Token}
    (h : Consults p q region rest region' rest') : (q.run region' rest').outcome ≠ .endless := by
  intro hstuck
  obtain ⟨hends, p', hreplaces, hendless⟩ := h
  -- Nothing changes, and so nothing stalls; a root cause in a context does not occur.
  let cause : ParseError := .within .block default
  have hsame : Stalls cause q (q.endlessAt region' rest') := by
    refine ⟨fun region rest => ?_, rfl⟩
    unfold endlessAt
    dsimp only
    split_ifs with hplace
    · obtain ⟨rfl, rfl⟩ := hplace
      rw [← hstuck]
      exact .same _
    · exact .same _
  have hstalls := (hreplaces.stalls hsame).run region rest
  generalize p.run region rest = reply at hstalls hends
  generalize p'.run region rest = reply' at hstalls hendless
  cases hstalls with
  | same => exact hends hendless
  | stuck _ hcause => cases (context_rootCause _).symm.trans (congrArg ParseError.context hcause)

end Parser

end StyleSyntax
