import StyleSyntax.Proofs.Grammar.BodyDepth
import StyleSyntax.Proofs.Grammar.Keywords

/-!
# Statements without what stands behind them

A statement stops with braces or a semicolon, or before trivia at the end. Its parts are read before
that stop: none of them passes it or sees what stands behind it. The run on all the tokens is
compared with a run on those up to the stop alone, and the stop is barred in the comparison. Parsers
that end at a stop are cut: what they consume they read in the same way when nothing stands behind
it.
-/

namespace StyleSyntax

open StyleSyntax.Parser StyleSyntax.Grammar

variable {α β : Type}

/-- What a statement stops with in front of the tokens behind it: braces, a semicolon or, where it
may end without them, nothing if only trivia is behind. -/
inductive IsStop (next : List Token) : Bool → List Token → Prop
  | mark {mayEnd : Bool} {token : Token} (h : token.isBraces ∨ token.isSemicolon) :
      IsStop next mayEnd [token]
  | finish (h : AllTrivia next) : IsStop next true []

namespace IsStop

variable {next stop : List Token} {mayEnd : Bool} {token : Token}

/-- Stops are braces and semicolons. -/
theorem isMark (h : IsStop next mayEnd stop) (htoken : token ∈ stop) :
    token.isBraces ∨ token.isSemicolon := by
  cases h with
  | mark hmark =>
    obtain rfl := List.mem_singleton.mp htoken
    exact hmark
  | finish => cases htoken

/-- Braces and semicolons are significant. -/
theorem isSignificant_of_isMark (h : token.isBraces ∨ token.isSemicolon) :
    token.isSignificant := by
  rcases h with hbraces | hsemicolon
  · exact isSignificant_of_isBraces hbraces
  · exact isSignificant_of_isSymbol hsemicolon

/-- Braces and semicolons open no interpolation. -/
theorem opensInterpolation_of_isMark (h : token.isBraces ∨ token.isSemicolon) (region : Token) :
    token.opensInterpolation region = false := by
  obtain ⟨kind, value, position⟩ := token
  cases kind <;> first | rfl | rcases h with h | h <;> cases h

/-- A stop is one token or none. -/
theorem length_le (h : IsStop next mayEnd stop) : stop.length ≤ 1 := by
  cases h <;> simp

/-- Behind a stop that leaves only trivia there is only trivia. -/
theorem allTrivia_next (h : IsStop next mayEnd stop) {rest : List Token} (hrest : stop <:+ rest)
    (htrivia : AllTrivia rest) : AllTrivia next := by
  cases h with
  | mark hmark =>
    have hmem := htrivia _ (hrest.subset List.mem_cons_self)
    rw [isTrivia_eq_false_of_significant (isSignificant_of_isMark hmark)] at hmem
    cases hmem
  | finish hnext => exact hnext

/-- A stop, or the last token before trivia at the end, opens no interpolation. -/
theorem opensInterpolation_next (h : IsStop next mayEnd stop) (hlast : stop <:+ [token]) :
    next.head?.any token.opensInterpolation = false := by
  cases h with
  | mark hmark =>
    obtain rfl := List.singleton_inj.mp (hlast.eq_of_length rfl)
    cases next with
    | nil => rfl
    | cons region next => exact opensInterpolation_of_isMark hmark region
  | finish hnext =>
    exact any_head?_eq_false (fun _ hopens => (isSignificant_of_opensInterpolation hopens).2)
      fun region hregion => hnext region (List.mem_of_mem_head? hregion)

/-- A stop with a mark is one where statements may end without it, too. -/
theorem of_mark (h : IsStop next false stop) : IsStop next mayEnd stop := by
  cases h with
  | mark hmark => exact .mark hmark

end IsStop

/-- The regions of two runs, on tokens and on those up to a stop alone, and a number of characters
within which bodies are read alike. -/
structure Cut where
  left : Region
  right : Region
  config_eq : right.config = left.config
  bound : Nat

/-- Up to the stop the tokens of the two runs are the same, and the stop is barred. -/
def Cut.comparison (k : Cut) {next stop : List Token} {mayEnd : Bool}
    (hstop : IsStop next mayEnd stop) (front : List Token) : Comparison where
  left := k.left
  right := k.right
  view := .full
  leaves rest rest' := rest = rest' ++ next ∧ rest' <:+ front ++ stop ∧ stop <:+ rest'
  takes used used' := used' = used
  bars token := token ∈ stop
  config_eq := k.config_eq
  takes_nil := rfl
  takes_append := by
    rintro used _ more _ rfl rfl
    rfl
  nil_iff_of_takes := by
    rintro used _ rfl
    rfl
  trimmedSpelling_eq := by
    rintro used _ rfl -
    rfl
  excerpt_eq := by
    rintro used _ source source' rfl hsource hsource'
    exact congrArg View.full.excerpt (hsource.eq hsource')
  gap_eq := by
    rintro first first' more more' htokens -
    obtain ⟨rfl, rfl⟩ := List.cons.inj htokens
    rfl
  behind := by
    rintro _ rest ⟨rfl, hfront, hleft⟩
    obtain ⟨gap, hgap, htrivia⟩ := exists_gap rest
    cases hrest : dropTrivia rest with
    | nil =>
      rw [hrest, List.append_nil] at hgap
      subst hgap
      have hnext := hstop.allTrivia_next hleft htrivia
      refine .inl ⟨?_, rfl⟩
      rw [dropTrivia_append_of_allTrivia htrivia]
      exact List.dropWhile_eq_nil_iff.mpr hnext
    | cons token later =>
      have htoken := isSignificant_of_dropTrivia_eq_cons hrest
      rw [hrest] at hgap
      subst hgap
      have hleft' : stop <:+ token :: later := List.suffix_of_suffix_length_le hleft
        (List.suffix_append gap _) (hstop.length_le.trans (Nat.succ_pos _))
      refine .inr ⟨token, token, later ++ next, later, ?_, rfl, ⟨rfl, rfl, rfl⟩, ?_, rfl,
        (List.suffix_append gap _).trans hfront, hleft'⟩
      · rw [List.append_assoc, List.cons_append, dropTrivia_gap htrivia htoken]
      · rw [List.append_assoc, List.cons_append, takeWhile_gap htrivia htoken,
          takeWhile_gap htrivia htoken]
  here := by
    rintro _ rest ⟨rfl, -, hleft⟩
    cases rest with
    | nil =>
      have hnext := hstop.allTrivia_next hleft (List.forall_mem_nil _)
      exact .inr ⟨fun token htoken => hnext token (List.mem_of_mem_head? htoken), by simp⟩
    | cons token later =>
      by_cases htoken : token.isSignificant
      · exact .inl ⟨token, token, _, _, rfl, rfl, htoken, rfl, rfl, rfl⟩
      · have htrivia : token.isTrivia := by simpa [Token.isSignificant] using htoken
        exact .inr ⟨by simpa using htrivia, by simpa using htrivia⟩
  pass := by
    rintro token token' later later' ⟨hrest, hfront, hleft⟩ - hopen
    obtain ⟨rfl, rfl⟩ := List.cons.inj hrest
    refine ⟨rfl, rfl, (List.suffix_cons _ _).trans hfront, ?_⟩
    obtain rfl | hleft := List.suffix_cons_iff.mp hleft
    · exact absurd List.mem_cons_self hopen
    · exact hleft

namespace Cut

variable {k : Cut} {next stop front : List Token} {mayEnd : Bool}

/-- Of the tokens that make up phrases none is a stop. -/
theorem sparesPhrases (hstop : IsStop next mayEnd stop) (front : List Token) :
    (k.comparison hstop front).SparesPhrases := fun _ htoken =>
  (hstop.isMark htoken).imp_right Or.inl

/-- In front of a mark gaps stand in both runs at the same time. -/
theorem isEven (hstop : IsStop next false stop) (front : List Token) :
    (k.comparison hstop front).IsEven where
  finish := by
    rintro _ rest ⟨rfl, -, hleft⟩ hrest
    cases hstop with
    | mark hmark =>
      obtain ⟨back, rfl⟩ := hleft
      rw [List.append_assoc, List.singleton_append,
        dropTrivia_append_cons back (IsStop.isSignificant_of_isMark hmark)] at hrest
      simp at hrest

/-- Interpolations are passed in both runs when none of them has the stop for its braces. -/
theorem jumps (hstop : IsStop next mayEnd stop)
    (hfront : ∀ last ∈ front.getLast?, ∀ token ∈ stop, last.opensInterpolation token = false) :
    (k.comparison hstop front).Jumps where
  opens_eq := by
    rintro token token' later later' ⟨hrest, -, hleft⟩ - -
    obtain ⟨rfl, rfl⟩ := List.cons.inj hrest
    cases later' with
    | cons region later' => rfl
    | nil => exact (hstop.opensInterpolation_next hleft).symm
  pass := by
    rintro token token' region region' later later' ⟨hrest, hall, hleft⟩ hopens
    obtain ⟨rfl, hlater⟩ := List.cons.inj hrest
    obtain ⟨rfl, rfl⟩ := List.cons.inj hlater
    refine ⟨⟨rfl, rfl, rfl⟩, rfl, rfl,
      ((List.suffix_cons _ _).trans (List.suffix_cons _ _)).trans hall, ?_⟩
    obtain rfl | hleft := List.suffix_cons_iff.mp hleft
    · have hlength := hstop.length_le
      simp at hlength
    obtain rfl | hleft := List.suffix_cons_iff.mp hleft
    · obtain ⟨start, hall⟩ := hall
      have hboth : (start ++ [token]) ++ region :: later' = front ++ region :: later' := by
        simpa using hall
      have hsplit : start ++ [token] = front := List.append_cancel_right hboth
      rw [hfront token (by simp [← hsplit]) region List.mem_cons_self] at hopens
      cases hopens
    · exact hleft

/-- Interiors are read alike in both runs. -/
theorem agreesInside (hstop : IsStop next mayEnd stop) (front : List Token) (p : Parser α)
    (f : α → β) : p.AgreesInside (k.comparison hstop front) f p := by
  rintro token token' _ _ - hsame
  obtain rfl : token' = token := View.Same.token_eq_iff.mpr hsame
  dsimp only [Cut.comparison]
  rw [k.config_eq]
  exact Outcome.agrees_refl f _

end Cut

namespace Parser

variable {k : Cut} {mayEnd : Bool} {rest next stop : List Token} {p q : Parser α}

/-- Before the stop the second run reads what the first one does. -/
theorem Agrees.run_cut {hstop : IsStop next mayEnd stop} {used back : List Token} {value : α}
    (h : p.Agrees (k.comparison hstop (used ++ back)) id q)
    (hrun : p.run k.left (used ++ (back ++ (stop ++ next))) = ⟨.ok value, back ++ (stop ++ next)⟩) :
    q.run k.right (used ++ (back ++ stop)) = ⟨.ok value, back ++ stop⟩ := by
  have hreply := @h.reply (used ++ (back ++ (stop ++ next))) (used ++ (back ++ stop))
    ⟨by simp, by simp, (List.suffix_append back stop).trans (List.suffix_append used _)⟩
  dsimp only [Cut.comparison] at hreply
  rw [hrun] at hreply
  generalize q.run k.right (used ++ (back ++ stop)) = reply at hreply ⊢
  cases hreply with
  | ok hrest hrest' htakes hleaves hvalue =>
    have hleft := hleaves.1
    rw [← List.append_assoc] at hleft
    obtain rfl := List.append_cancel_right hleft
    exact congrArg (fun value => Reply.mk (.ok value) _) hvalue

/-- Where the first parser succeeds on tokens of a text it ends at a stop, and the second one reads
the same from the tokens up to there alone, if these are not too many for the bodies in them. -/
structure Cuts (k : Cut) (mayEnd : Bool) (p q : Parser α) : Prop where
  run {rest next : List Token} {value : α} : IsLexed k.left.config rest →
    p.run k.left rest = ⟨.ok value, next⟩ →
    ∃ front stop, rest = front ++ (stop ++ next) ∧ IsStop next mayEnd stop ∧
      ((spelling (front ++ stop)).length ≤ k.bound →
        q.run k.right (front ++ stop) = ⟨.ok value, []⟩)

/-- What ends with a mark is one of those parsers that end with a mark or without. -/
theorem Cuts.of_mark (h : p.Cuts k false q) : p.Cuts k mayEnd q := by
  refine ⟨fun hlexed hrun => ?_⟩
  obtain ⟨front, stop, hrest, hstop, hcut⟩ := h.run hlexed hrun
  exact ⟨front, stop, hrest, hstop.of_mark, hcut⟩

/-- The mark of a step changes no success. -/
theorem Cuts.step (h : p.Cuts k mayEnd q) (index : Nat) :
    (step index p).Cuts k mayEnd (step index q) := by
  refine ⟨fun hlexed hrun => ?_⟩
  simp only [step_run_eq_ok] at hrun ⊢
  exact h.run hlexed hrun

/-- Going back on failure changes no success. -/
theorem Cuts.attempt (h : p.Cuts k mayEnd q) : (attempt p).Cuts k mayEnd (attempt q) := by
  refine ⟨fun hlexed hrun => ?_⟩
  simp only [attempt_run_eq_ok] at hrun ⊢
  exact h.run hlexed hrun

/-- A test of the next token changes no run. -/
theorem Cuts.probe (h : p.Cuts k mayEnd q) (test : Token → Bool) :
    (probe test p).Cuts k mayEnd (probe test q) :=
  ⟨h.run⟩

/-- The value may be changed. -/
theorem Cuts.bind_pure (h : p.Cuts k mayEnd q) (build : α → β) :
    (p >>= fun value => pure (build value)).Cuts k mayEnd
      (q >>= fun value => pure (build value)) := by
  refine ⟨fun hlexed hrun => ?_⟩
  obtain ⟨value, middle, hvalue, hbuild⟩ := bind_run_eq_ok.mp hrun
  obtain ⟨rfl, rfl⟩ := pure_run_eq_ok.mp hbuild
  obtain ⟨front, stop, hrest, hstop, hcut⟩ := h.run hlexed hvalue
  exact ⟨front, stop, hrest, hstop, fun hbound => bind_run_eq_ok.mpr ⟨value, [], hcut hbound, rfl⟩⟩

/-- A part that agrees up to every stop may be read before what is cut. -/
theorem Agrees.bind_cuts {promise : Promise α} (hp : p.Keeps .any promise)
    (h : ∀ {next stop : List Token} (hstop : IsStop next mayEnd stop) (front : List Token),
      p.Agrees (k.comparison hstop front) id q)
    {following others : α → Parser β}
    (hfollowing : ∀ value, (following value).Cuts k mayEnd (others value)) :
    (p >>= following).Cuts k mayEnd (q >>= others) := by
  refine ⟨fun hlexed hrun => ?_⟩
  obtain ⟨value, middle, hrun, hlater⟩ := bind_run_eq_ok.mp hrun
  obtain ⟨used, rfl, -⟩ := hp.exists_used hrun
  obtain ⟨front, stop, rfl, hstop, hcut⟩ := (hfollowing value).run hlexed.of_append hlater
  refine ⟨used ++ front, stop, (List.append_assoc _ _ _).symm, hstop, fun hbound => ?_⟩
  rw [List.append_assoc] at hbound ⊢
  rw [spelling_append, List.length_append] at hbound
  exact bind_run_eq_ok.mpr ⟨value, front ++ stop, (h hstop (used ++ front)).run_cut hrun,
    hcut (by omega)⟩

/-- The value may be changed at once. -/
theorem Cuts.map (h : p.Cuts k mayEnd q) (build : α → β) :
    (p.map build).Cuts k mayEnd (q.map build) := by
  refine ⟨fun hlexed hrun => ?_⟩
  obtain ⟨value, hvalue, rfl⟩ := map_run_eq_ok.mp hrun
  obtain ⟨front, stop, hrest, hstop, hcut⟩ := h.run hlexed hvalue
  exact ⟨front, stop, hrest, hstop, fun hbound => map_run_eq_ok.mpr ⟨value, hcut hbound, rfl⟩⟩

/-- What is consumed up to the stop has one source. -/
theorem Cuts.capture (h : p.Cuts k mayEnd q)
    (hends : ∀ used next value, p.run k.left (used ++ next) = ⟨.ok value, next⟩ →
      EndsSignificant used) : (Parser.capture p).Cuts k mayEnd (Parser.capture q) := by
  refine ⟨fun {rest next captured} hlexed hrun => ?_⟩
  obtain ⟨hvalue, hsource⟩ := capture_run_eq_ok.mp hrun
  obtain ⟨front, stop, hrest, hstop, hcut⟩ := h.run hlexed hvalue
  refine ⟨front, stop, hrest, hstop, fun hbound => capture_run_eq_ok.mpr ⟨hcut hbound, ?_⟩⟩
  rw [← List.append_assoc] at hrest
  subst hrest
  have hused := hends _ _ _ hvalue
  have hall : consumed (front ++ stop) [] = front ++ stop := by
    simpa using consumed_append (front ++ stop) []
  rw [hsource, consumed_append, hall]
  exact (excerptOf_isOf hused _).eq (excerptOf_isOf hused _)

/-- A statement that is built from captured parts is cut where its parts are. -/
theorem Cuts.statement {build : α × Excerpt → Node} {dialect : Dialect} {place : Place}
    (h : p.Cuts k mayEnd q)
    (hp : (Parser.capture p >>= fun captured => pure (build captured)).Keeps .any
      (Promise.statement dialect place)) :
    (Parser.capture p >>= fun captured => pure (build captured)).Cuts k mayEnd
      (Parser.capture q >>= fun captured => pure (build captured)) := by
  refine (h.capture fun used next value hrun => ?_).bind_pure build
  have hnode : (Parser.capture p >>= fun captured => pure (build captured)).run k.left
      (used ++ next) = _ :=
    bind_run_eq_ok.mpr ⟨(value, _), next, capture_run_eq_ok.mpr ⟨hrun, rfl⟩, rfl⟩
  obtain ⟨used', hused, hpromise⟩ := hp.exists_used hnode
  obtain rfl := List.append_cancel_right hused
  exact hpromise.isOf.endsSignificant

/-! ## Stops -/

/-- A sign is one token. -/
theorem afterSymbols_of_isSymbol {sign : Token} {c : Char} (h : sign.isSymbol [c])
    (rest : List Token) : afterSymbols [c] (sign :: rest) = some rest := by
  rw [Token.isSymbol, Bool.and_eq_true, beq_iff_eq, beq_iff_eq] at h
  rw [afterSymbols_cons (List.cons_ne_nil _ _), h.1, h.2]
  simp [Text.startsWith, afterSymbols]

/-- In tokens of a text a sign is found where one stands behind a gap. -/
theorem symbol_run_eq_ok_of_isLexed {config : LexerConfig} {region : Region} {c : Char}
    {value : Text} (hlexed : IsLexed config rest) :
    (symbol [c]).run region rest = ⟨.ok value, next⟩ ↔
      value = [c] ∧ ∃ sign, dropTrivia rest = sign :: next ∧ sign.isSymbol [c] := by
  rw [symbol_run_eq_ok]
  refine and_congr_right fun _ => ⟨fun hafter => ?_, ?_⟩
  · exact (hlexed.of_isInfix (List.dropWhile_suffix _).isInfix).exists_sign hafter
  · rintro ⟨sign, hrest, hsign⟩
    rw [hrest]
    exact afterSymbols_of_isSymbol hsign next

/-- Behind a gap a single mark is found with nothing behind it. -/
theorem dropTrivia_gap_mark {gap : List Token} (hgap : AllTrivia gap) {mark : Token}
    (hmark : mark.isBraces ∨ mark.isSemicolon) : dropTrivia (gap ++ [mark]) = [mark] :=
  dropTrivia_gap hgap (IsStop.isSignificant_of_isMark hmark) []

/-- A semicolon is a stop. -/
theorem cuts_semicolon : (symbol [';']).Cuts k mayEnd (symbol [';']) := by
  refine ⟨fun {rest next value} hlexed hrun => ?_⟩
  obtain ⟨rfl, sign, hsign, hsemicolon⟩ := (symbol_run_eq_ok_of_isLexed hlexed).mp hrun
  obtain ⟨gap, hgap, htrivia⟩ := exists_gap rest
  rw [hsign] at hgap
  refine ⟨gap, [sign], hgap, .mark (.inr hsemicolon), fun _ => symbol_run_eq_ok.mpr ⟨rfl, ?_⟩⟩
  rw [dropTrivia_gap_mark htrivia (.inr hsemicolon)]
  exact afterSymbols_of_isSymbol hsemicolon []

/-- Bracketed tokens of no more characters than the bound are read alike inside. -/
def InteriorsAgree (k : Cut) (p q : Parser α) : Prop :=
  ∀ token : Token, token.value.length ≤ k.bound →
    Outcome.Agrees id (interior p k.left.config token) (interior q k.left.config token)

/-- What is read inside of a token is read there in the second run. -/
theorem InteriorsAgree.interior_eq_ok (h : InteriorsAgree k p q) {token : Token} {value : α}
    (hvalue : interior p k.left.config token = .ok value) (htoken : token.value.length ≤ k.bound) :
    interior q k.right.config token = .ok value := by
  have hagrees := h token htoken
  rw [hvalue] at hagrees
  rw [k.config_eq]
  generalize interior q k.left.config token = outcome at hagrees ⊢
  cases hagrees with
  | ok hsame => exact congrArg Outcome.ok hsame

/-- Braces are a stop when they are read alike inside. -/
theorem cuts_braces (h : InteriorsAgree k p q) :
    (block braces p).Cuts k mayEnd (block braces q) := by
  refine ⟨fun {rest next value} hlexed hrun => ?_⟩
  obtain ⟨token, htoken, hkind, hvalue⟩ := block_run_eq_ok.mp hrun
  have hmark : token.isBraces := (braces_contains token.kind).symm.trans hkind
  obtain ⟨gap, hgap, htrivia⟩ := exists_gap rest
  rw [htoken] at hgap
  refine ⟨gap, [token], hgap, .mark (.inl hmark), fun hbound => block_run_eq_ok.mpr
    ⟨token, dropTrivia_gap_mark htrivia (.inl hmark), hkind, h.interior_eq_ok hvalue ?_⟩⟩
  rw [spelling_append, List.length_append, spelling_cons, List.length_append] at hbound
  omega

/-- Behind braces a semicolon may be the stop instead of them. -/
theorem cuts_braces_semicolon (h : InteriorsAgree k p q) (first second : Nat) (build : α → β) :
    (do
      let value ← step first (block braces p)
      let _ ← step second (symbol [';']).optional
      return build value : Parser β).Cuts k mayEnd
      (do
        let value ← step first (block braces q)
        let _ ← step second (symbol [';']).optional
        return build value) := by
  refine ⟨fun {rest next result} hlexed hrun => ?_⟩
  obtain ⟨value, middle, hbody, hrun⟩ := bind_run_eq_ok.mp hrun
  obtain ⟨close, last, hclose, hresult⟩ := bind_run_eq_ok.mp hrun
  obtain ⟨rfl, rfl⟩ := pure_run_eq_ok.mp hresult
  rw [step_run_eq_ok] at hbody hclose
  rcases optional_run_eq_ok.mp hclose with ⟨sign, rfl, -, hsign⟩ | ⟨rfl, rfl, -⟩
  · obtain ⟨token, htoken, hkind, hvalue⟩ := block_run_eq_ok.mp hbody
    obtain ⟨gap, hgap, htrivia⟩ := exists_gap rest
    rw [htoken] at hgap
    subst hgap
    have hlater : IsLexed k.left.config middle := by
      rw [← List.singleton_append, ← List.append_assoc] at hlexed
      exact hlexed.of_append
    obtain ⟨front, stop, rfl, hstop, hcut⟩ := cuts_semicolon.run hlater hsign
    refine ⟨gap ++ token :: front, stop, ?_, hstop, fun hbound => ?_⟩
    · rw [List.append_assoc, List.cons_append]
    · rw [List.append_assoc, List.cons_append] at hbound ⊢
      rw [spelling_append, List.length_append, spelling_cons, List.length_append] at hbound
      have hdropped : dropTrivia (gap ++ token :: (front ++ stop)) = token :: (front ++ stop) :=
        dropTrivia_gap htrivia (isSignificant_of_dropTrivia_eq_cons htoken) _
      refine bind_run_eq_ok.mpr ⟨value, front ++ stop, step_run_eq_ok.mpr
        (block_run_eq_ok.mpr ⟨token, hdropped, hkind, h.interior_eq_ok hvalue (by omega)⟩), ?_⟩
      refine bind_run_eq_ok.mpr ⟨some sign, [], step_run_eq_ok.mpr (optional_run_eq_ok.mpr ?_), rfl⟩
      exact .inl ⟨sign, rfl, rfl, hcut (by omega)⟩
  · obtain ⟨front, stop, hrest, hstop, hcut⟩ := (cuts_braces h).run hlexed hbody
    refine ⟨front, stop, hrest, hstop, fun hbound => bind_run_eq_ok.mpr
      ⟨value, [], step_run_eq_ok.mpr (hcut hbound), bind_run_eq_ok.mpr ⟨none, [], ?_, rfl⟩⟩⟩
    rfl

end Parser

end StyleSyntax
