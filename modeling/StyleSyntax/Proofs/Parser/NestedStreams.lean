import StyleSyntax.Parser.Stream
import Mathlib.Data.List.Chain

/-!
# Nested streams

While a child is open its parent stays where it was, and the child begins there. The fragments of
the streams of a stack therefore stand one behind the other, and together they are everything that
lies before the cursor of the youngest one. Flushing the youngest child hands its fragment to its
parent, and discarding it brings back the stack that it was opened on. All this holds after any
operations as long as none of them moves a stream to a given index, which may lie before the start
of its fragment or beyond the tokens.
-/

namespace StyleSyntax

namespace TokenStream

namespace Stack

/-- The streams of a stack, the oldest first. -/
def streams (stack : Stack) : List TokenStream :=
  (stack.top :: stack.below).reverse

/-- The number of open children. -/
def depth (stack : Stack) : Nat :=
  stack.below.length

/-- The text consumed by each of the streams, one after another from the oldest on. -/
def source (stack : Stack) : Text :=
  stack.streams.flatMap fun stream => spelling stream.fragment

/-- The stack that operations leave, performed one after another. -/
def after (stack : Stack) (actions : List Action) : Stack :=
  actions.foldl (fun stack action => (stack.perform action).2) stack

/-- What an operation can make of a stack. Apart from opening and closing children it moves the
cursor of the youngest stream, and only a move to a given index takes it back or beyond the
tokens. -/
inductive Step (action : Action) : Stack → Stack → Prop where
  | moved {top : TokenStream} {below : List TokenStream} {cursor : Nat} :
      ((∀ index, action ≠ .moveTo index) →
        top.cursor ≤ cursor ∧ cursor ≤ max top.cursor top.tokens.length) →
      Step action ⟨top, below⟩ ⟨top.moveTo cursor, below⟩
  | opened {top : TokenStream} {below : List TokenStream} :
      action = .child → Step action ⟨top, below⟩ ⟨top.child, top :: below⟩
  | flushed {top parent : TokenStream} {below : List TokenStream} :
      action = .flush → Step action ⟨top, parent :: below⟩ ⟨parent.flush top, below⟩
  | discarded {top parent : TokenStream} {below : List TokenStream} :
      action = .discard → Step action ⟨top, parent :: below⟩ ⟨parent, below⟩

/-- The streams are views of the same tokens, none of them beyond the end, and each is opened where
its parent stands. -/
inductive IsNested (tokens : List Token) (config : LexerConfig) (origin : Position) :
    Stack → Prop where
  | first {cursor : Nat} : cursor ≤ tokens.length →
      IsNested tokens config origin ⟨{ tokens, config, origin, cursor }, []⟩
  | child {parent : TokenStream} {below : List TokenStream} {cursor : Nat} :
      IsNested tokens config origin ⟨parent, below⟩ → parent.cursor ≤ cursor →
      cursor ≤ tokens.length →
      IsNested tokens config origin
        ⟨{ tokens, config, origin, start := parent.cursor, cursor }, parent :: below⟩

/-- The child opened right after `before` is still open after all of the operations: ever since
there have been more open children than when it was opened. -/
structure StaysOpen (stack : Stack) (before actions : List Action) : Prop where
  isPrefix : before ++ [.child] <+: actions
  depth_lt {later : List Action} : before ++ [.child] <+: later → later <+: actions →
    (stack.after before).depth < (stack.after later).depth

variable {tokens : List Token} {config : LexerConfig} {origin : Position}
variable {stack next : Stack} {top parent : TokenStream} {below kept : List TokenStream}
variable {action : Action} {before actions : List Action}

@[simp] theorem streams_cons (top parent : TokenStream) (below : List TokenStream) :
    streams ⟨top, parent :: below⟩ = streams ⟨parent, below⟩ ++ [top] := by
  simp [streams]

theorem getLast?_streams (stack : Stack) : stack.streams.getLast? = some stack.top := by
  simp [streams]

theorem after_append (stack : Stack) (actions more : List Action) :
    stack.after (actions ++ more) = (stack.after actions).after more :=
  List.foldl_append

@[simp] theorem after_concat (stack : Stack) (actions : List Action) (action : Action) :
    stack.after (actions ++ [action]) = ((stack.after actions).perform action).2 := by
  simp [after]

theorem perform_flush (h : stack.below = parent :: below) :
    (stack.perform .flush).2 = ⟨parent.flush stack.top, below⟩ := by
  simp only [perform, h]

theorem perform_discard (h : stack.below = parent :: below) :
    (stack.perform .discard).2 = ⟨parent, below⟩ := by
  simp only [perform, h]

/-- After a flush the youngest stream stands where the youngest stream stood before. -/
theorem top_cursor_perform_flush (stack : Stack) :
    (stack.perform .flush).2.top.cursor = stack.top.cursor := by
  simp only [perform]
  split <;> rfl

/-- Staying is a move as well. -/
theorem step_refl (action : Action) (stack : Stack) : Step action stack stack := by
  change Step action stack ⟨stack.top.moveTo stack.top.cursor, stack.below⟩
  exact .moved fun _ => ⟨le_rfl, le_max_left _ _⟩

/-- Every operation takes one of these steps. -/
theorem step_perform (stack : Stack) (action : Action) :
    Step action stack (stack.perform action).2 := by
  obtain ⟨top, below⟩ := stack
  have hrefl : Step action ⟨top, below⟩ ⟨top, below⟩ := step_refl _ _
  cases action with
  | next =>
    cases hpeek : top.peek with
    | none => simpa [perform, TokenStream.next, hpeek] using hrefl
    | some token =>
      have hlt : top.cursor < top.tokens.length := (List.getElem?_eq_some_iff.mp hpeek).1
      simp only [perform, TokenStream.next, hpeek]
      exact .moved fun _ => ⟨by omega, by omega⟩
  | skipTrivia =>
    have hle : top.triviaLength ≤ top.tokens.length - top.cursor := by
      rw [← List.length_drop]
      exact (List.takeWhile_sublist _).length_le
    refine .moved fun _ => ⟨Nat.le_add_right _ _, ?_⟩
    dsimp only
    omega
  | moveTo index => exact .moved fun hmove => absurd rfl (hmove index)
  | child => exact .opened rfl
  | flush =>
    cases below with
    | nil => exact hrefl
    | cons parent below => exact .flushed rfl
  | discard =>
    cases below with
    | nil => exact hrefl
    | cons parent below => exact .discarded rfl
  | peekSignificant =>
    simp only [perform]
    cases top.peekSignificant <;> exact hrefl
  | _ => exact hrefl

namespace IsNested

/-- Moving the youngest stream forward, within the tokens, keeps the nesting. -/
theorem moveTop (h : IsNested tokens config origin ⟨top, below⟩) {cursor : Nat}
    (hforward : top.cursor ≤ cursor) (hlength : cursor ≤ tokens.length) :
    IsNested tokens config origin ⟨top.moveTo cursor, below⟩ := by
  cases h with
  | first _ => exact .first hlength
  | child hparent hcursor _ => exact .child hparent (hcursor.trans hforward) hlength

/-- Every stream is a view of the tokens, and its fragment lies within them. -/
theorem bounds (h : IsNested tokens config origin stack) :
    ∀ stream ∈ stack.streams, stream.tokens = tokens ∧
      stream.start ≤ stream.cursor ∧ stream.cursor ≤ tokens.length := by
  induction h with
  | first hlength => simpa [streams] using hlength
  | child _ hcursor hlength ih =>
    rw [streams_cons, List.forall_mem_append, List.forall_mem_singleton]
    exact ⟨ih, rfl, hcursor, hlength⟩

theorem top_bounds (h : IsNested tokens config origin stack) :
    stack.top.tokens = tokens ∧
      stack.top.start ≤ stack.top.cursor ∧ stack.top.cursor ≤ tokens.length :=
  h.bounds stack.top (by simp [streams])

/-- Each child starts at the cursor of its parent. -/
theorem isChain (h : IsNested tokens config origin stack) :
    stack.streams.IsChain fun parent child => child.start = parent.cursor := by
  induction h with
  | first _ => exact .singleton _
  | @child parent below cursor _ _ _ ih =>
    rw [streams_cons]
    refine ih.append (.singleton _) fun last hlast child hchild => ?_
    rw [getLast?_streams] at hlast
    cases hlast
    cases hchild
    rfl

/-- The fragments of the streams make up the tokens before the cursor of the youngest one. -/
theorem flatMap_fragment (h : IsNested tokens config origin stack) :
    stack.streams.flatMap fragment = tokens.take stack.top.cursor := by
  induction h with
  | first _ => simp [streams, fragment]
  | @child parent below cursor _ hcursor _ ih =>
    rw [streams_cons, List.flatMap_append, ih, List.flatMap_singleton]
    calc
      tokens.take parent.cursor ++ (tokens.take cursor).drop parent.cursor =
          (tokens.take cursor).take parent.cursor ++ (tokens.take cursor).drop parent.cursor := by
        rw [List.take_take, min_eq_left hcursor]
      _ = tokens.take cursor := List.take_append_drop _ _

/-- The consumed texts of the streams make up the text before the cursor of the youngest one. -/
theorem source_eq (h : IsNested tokens config origin stack) :
    stack.source = spelling (tokens.take stack.top.cursor) := by
  rw [← h.flatMap_fragment]
  exact List.flatMap_assoc.symm

/-- No operation but a move to a given index ends the nesting. -/
theorem step (h : IsNested tokens config origin stack) (hstep : Step action stack next)
    (hmove : ∀ index, action ≠ .moveTo index) : IsNested tokens config origin next := by
  cases hstep with
  | moved hcursor =>
    obtain ⟨hforward, hmax⟩ := hcursor hmove
    obtain ⟨htokens, -, hlength⟩ := h.top_bounds
    refine h.moveTop hforward (hmax.trans (max_le hlength ?_))
    rw [htokens]
  | @opened top below _ =>
    obtain ⟨htokens, -, hlength⟩ := h.top_bounds
    cases h with
    | first _ => exact .child (.first hlength) le_rfl hlength
    | child hparent hcursor _ => exact .child (.child hparent hcursor hlength) le_rfl hlength
  | flushed _ =>
    cases h with
    | child hparent hcursor hlength => exact hparent.moveTop hcursor hlength
  | discarded _ =>
    cases h with
    | child hparent _ _ => exact hparent

/-- Nor does a run of operations without such moves. -/
theorem after (h : IsNested tokens config origin stack)
    (hmoves : ∀ index, .moveTo index ∉ actions) :
    IsNested tokens config origin (stack.after actions) := by
  induction actions using List.reverseRecOn with
  | nil => exact h
  | append_singleton actions action ih =>
    simp only [List.mem_append, List.mem_singleton, not_or] at hmoves
    rw [after_concat]
    exact (ih fun index => (hmoves index).1).step (step_perform _ _)
      fun index heq => (hmoves index).2 heq.symm

end IsNested

/-- A step leaves alone the streams that lie under the youngest one before and after it. -/
theorem Step.suffix (hstep : Step action stack next) (hkept : kept <:+ stack.below)
    (hdepth : kept.length ≤ next.depth) : kept <:+ next.below := by
  cases hstep with
  | moved _ => exact hkept
  | opened _ => exact hkept.trans (List.suffix_cons _ _)
  | flushed _ | discarded _ =>
    exact List.suffix_of_suffix_length_le hkept (List.suffix_cons _ _) hdepth

/-- So does a run of operations if at least that many streams lie under the youngest one all the
time. -/
theorem suffix_after (hkept : kept <:+ stack.below)
    (hdepth : ∀ later, later <+: actions → kept.length ≤ (stack.after later).depth) :
    kept <:+ (stack.after actions).below := by
  induction actions using List.reverseRecOn with
  | nil => exact hkept
  | append_singleton actions action ih =>
    have hlast := hdepth _ (List.prefix_refl _)
    rw [after_concat] at hlast ⊢
    exact (step_perform _ _).suffix
      (ih fun later hlater => hdepth later (hlater.trans (List.prefix_append _ _))) hlast

/-- Only opening a child makes the stack higher, and only by one. -/
theorem Step.eq_child_of_depth_lt (hstep : Step action stack next)
    (hlt : stack.depth < next.depth) : action = .child ∧ next.depth = stack.depth + 1 := by
  cases hstep with
  | moved _ => exact absurd hlt (lt_irrefl _)
  | opened haction => exact ⟨haction, rfl⟩
  | flushed _ | discarded _ =>
    simp only [depth, List.length_cons] at hlt
    omega

/-- A child is open right after it was opened. -/
theorem staysOpen_child (stack : Stack) (actions : List Action) :
    stack.StaysOpen actions (actions ++ [.child]) := by
  refine ⟨List.prefix_refl _, fun {later} hopened hlater => ?_⟩
  rw [hlater.eq_of_length_le hopened.length_le, after_concat]
  exact Nat.lt_succ_self _

namespace StaysOpen

/-- A further operation that leaves the stack higher than it was before the child was opened does
not close it. -/
theorem concat (h : stack.StaysOpen before actions)
    (hlt : (stack.after before).depth < (stack.after (actions ++ [action])).depth) :
    stack.StaysOpen before (actions ++ [action]) := by
  refine ⟨h.isPrefix.trans (List.prefix_append _ _), fun {later} hopened hlater => ?_⟩
  rcases List.prefix_concat_iff.mp hlater with rfl | hearlier
  · exact hlt
  · exact h.depth_lt hopened hearlier

/-- Under an open child are the streams of the stack that it was opened on. -/
theorem suffix (h : stack.StaysOpen before actions) :
    (stack.after before).top :: (stack.after before).below <:+ (stack.after actions).below := by
  obtain ⟨inside, rfl⟩ := h.isPrefix
  rw [after_append]
  refine suffix_after ?_ fun later hlater => ?_
  · rw [after_concat]
    exact List.suffix_refl _
  · rw [← after_append]
    exact h.depth_lt (List.prefix_append _ _) ((List.prefix_append_right_inj _).mpr hlater)

/-- The streams of the stack that an open child was opened on are still there as they were. -/
theorem streams_prefix (h : stack.StaysOpen before actions) :
    (stack.after before).streams <+: (stack.after actions).streams :=
  List.reverse_prefix.mpr (h.suffix.trans (List.suffix_cons _ _))

/-- Under the youngest child is nothing but the stack that it was opened on. -/
theorem below_eq (h : stack.StaysOpen before actions)
    (hdepth : (stack.after actions).depth = (stack.after before).depth + 1) :
    (stack.after actions).below = (stack.after before).top :: (stack.after before).below :=
  (h.suffix.eq_of_length hdepth.symm).symm

end StaysOpen

/-- At every height from that of the first stack up to that of the last one a child was opened that
is still open. -/
theorem exists_staysOpen {level : Nat} (hfirst : stack.depth ≤ level)
    (hlevel : level < (stack.after actions).depth) :
    ∃ before, stack.StaysOpen before actions ∧ (stack.after before).depth = level := by
  induction actions using List.reverseRecOn with
  | nil => exact absurd hlevel (not_lt.mpr hfirst)
  | append_singleton actions action ih =>
    by_cases hearlier : level < (stack.after actions).depth
    · obtain ⟨before, hopen, hdepth⟩ := ih hearlier
      exact ⟨before, hopen.concat (by rwa [hdepth]), hdepth⟩
    -- only the last operation goes beyond this height, so it opens the child
    · rw [after_concat] at hlevel
      obtain ⟨rfl, hdepth⟩ :=
        (step_perform _ _).eq_child_of_depth_lt ((not_lt.mp hearlier).trans_lt hlevel)
      exact ⟨actions, staysOpen_child stack actions, by omega⟩

/-- After any operations but moves to given indices the streams of a stack lie within the tokens,
each child starts where its parent stands, and what they have consumed makes up the text before the
cursor of the youngest one. Flushing changes neither that text nor that cursor. For each open child
there is the moment at which it was opened; the streams of that moment are still there as they were,
discarding the youngest child brings them back, and flushing it does so except for the cursor. -/
theorem streams_partition_source (tokens : List Token) (config : LexerConfig) (origin : Position)
    (actions : List Action) (hmoves : ∀ index, .moveTo index ∉ actions) :
    let first : Stack := ⟨{ tokens, config, origin }, []⟩
    let stack := first.after actions
    let flushed := first.after (actions ++ [.flush])
    (∀ stream ∈ stack.streams, stream.tokens = tokens ∧
        stream.start ≤ stream.cursor ∧ stream.cursor ≤ tokens.length) ∧
      stack.streams.IsChain (fun parent child => child.start = parent.cursor) ∧
      stack.source = spelling (tokens.take stack.top.cursor) ∧
      flushed.source = stack.source ∧ flushed.top.cursor = stack.top.cursor ∧
      (∀ level < stack.depth, ∃ before, first.StaysOpen before actions ∧
        (first.after before).depth = level) ∧
      ∀ before, first.StaysOpen before actions →
        (first.after before).streams <+: stack.streams ∧
        (stack.depth = (first.after before).depth + 1 →
          first.after (actions ++ [.discard]) = first.after before ∧
          flushed = ⟨(first.after before).top.moveTo stack.top.cursor,
            (first.after before).below⟩) := by
  intro first stack flushed
  have hfirst : IsNested tokens config origin first := .first (Nat.zero_le _)
  have hstack : IsNested tokens config origin stack := hfirst.after hmoves
  have hflushed : IsNested tokens config origin flushed := hfirst.after (by simpa using hmoves)
  have hcursor : flushed.top.cursor = stack.top.cursor := by
    simp only [flushed, after_concat]
    exact top_cursor_perform_flush stack
  refine ⟨hstack.bounds, hstack.isChain, hstack.source_eq, ?_, hcursor, fun level hlevel => ?_,
    fun before hopen => ⟨hopen.streams_prefix, fun hdepth => ?_⟩⟩
  · rw [hflushed.source_eq, hstack.source_eq, hcursor]
  · exact exists_staysOpen (Nat.zero_le _) hlevel
  · simp only [flushed, after_concat]
    have hbelow := hopen.below_eq hdepth
    exact ⟨perform_discard hbelow, perform_flush hbelow⟩

/-- Two open children. Discarding the younger one forgets its word and keeps the space that its
parent has skipped. -/
theorem streams_partition_source_twoChildren :
    let tokens : List Token := [⟨.literal, ['a'], ⟨1, 1⟩⟩, ⟨.space, [' '], ⟨1, 2⟩⟩,
      ⟨.literal, ['b'], ⟨1, 3⟩⟩, ⟨.comma, [','], ⟨1, 4⟩⟩]
    let first : Stack := ⟨{ tokens, config := {}, origin := .start }, []⟩
    let before : List Action := [.next, .child, .skipTrivia]
    let actions : List Action := before ++ [.child] ++ [.next]
    let stack := first.after actions
    (∀ index, .moveTo index ∉ actions) ∧ stack.depth = 2 ∧ first.StaysOpen before actions ∧
      stack.source = "a b".toList ∧ (first.after (actions ++ [.flush])).source = "a b".toList ∧
      first.after (actions ++ [.discard]) = first.after before ∧
      (first.after before).source = "a ".toList := by
  intro tokens first before actions stack
  have hmoves : ∀ index, .moveTo index ∉ actions := by simp [actions, before]
  have hopen : first.StaysOpen before actions := (staysOpen_child first before).concat (by decide)
  obtain ⟨-, -, hsource, hflushed, -, -, hstays⟩ :=
    streams_partition_source tokens {} .start actions hmoves
  have hdiscarded := ((hstays before hopen).2 rfl).1
  exact ⟨hmoves, rfl, hopen, hsource, hflushed.trans hsource, hdiscarded, rfl⟩

end Stack

end TokenStream

end StyleSyntax
