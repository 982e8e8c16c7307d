import StyleSyntax.Proofs.Grammar.Keywords
import StyleSyntax.Proofs.Grammar.Stylesheet
import StyleSyntax.Proofs.Parser.Success

/-!
# Successes that carry over

The success of one parser carries over to another when on the same tokens the other one succeeds
too, leaves as much, and has the value changed in a given way. It has to do so only on tokens of a
text, and only for values with a given property. Nothing is said of failures, so a choice is not
among the combinators here: what its earlier alternatives do has to be known as well.
-/

namespace StyleSyntax.Parser

variable {α β γ δ : Type}

/-- Where the first parser succeeds on tokens of a text, with a value that has the property, the
other one succeeds with the changed value and leaves the same tokens. -/
structure Carries (holds : α → Prop) (f : α → β) (p : Parser α) (q : Parser β) : Prop where
  run {region : Region} {rest next : List Token} {value : α} : IsLexed region.config rest →
    p.run region rest = ⟨.ok value, next⟩ → holds value → q.run region rest = ⟨.ok (f value), next⟩

variable {holds : α → Prop} {f : α → β} {p : Parser α} {q : Parser β}

/-- The property may be narrowed, and the change replaced by one that does the same there. -/
theorem Carries.mono {narrower : α → Prop} {g : α → β} (h : p.Carries holds f q)
    (hmono : ∀ value, narrower value → holds value ∧ f value = g value) :
    p.Carries narrower g q := by
  constructor
  intro region rest next value hlexed hrun hvalue
  obtain ⟨hholds, heq⟩ := hmono value hvalue
  rw [← heq]
  exact h.run hlexed hrun hholds

/-- A parser that does not succeed carries over to any other. -/
theorem carries_fail (error : Region → List Token → ParseError) :
    (fail error).Carries holds f q :=
  ⟨fun _ hrun => by cases hrun⟩

/-- A parser that is built late carries over as it does once it is built. -/
theorem Carries.delay (h : p.Carries holds f q) :
    (delay fun _ => p).Carries holds f (delay fun _ => q) :=
  ⟨h.run⟩

/-- Going back on failure changes no success. -/
theorem Carries.attempt (h : p.Carries holds f q) : (attempt p).Carries holds f (attempt q) :=
  ⟨fun hlexed hrun hvalue =>
    attempt_run_eq_ok.mpr (h.run hlexed (attempt_run_eq_ok.mp hrun) hvalue)⟩

/-- The mark of a step changes no success. -/
theorem Carries.step (h : p.Carries holds f q) (index : Nat) :
    (step index p).Carries holds f (step index q) :=
  ⟨fun hlexed hrun hvalue => step_run_eq_ok.mpr (h.run hlexed (step_run_eq_ok.mp hrun) hvalue)⟩

/-- A sequence carries over when its later part does, after one and the same first part. -/
theorem Carries.after {first : Parser γ} {promise : Promise γ} {following : γ → Parser α}
    {following' : γ → Parser β} (hfirst : first.Keeps .any promise)
    (h : ∀ value, (following value).Carries holds f (following' value)) :
    (first >>= following).Carries holds f (first >>= following') := by
  constructor
  intro region rest next value hlexed hrun hvalue
  obtain ⟨found, middle, hfound, hlater⟩ := bind_run_eq_ok.mp hrun
  obtain ⟨used, rfl, -⟩ := hfirst.exists_used hfound
  exact bind_run_eq_ok.mpr ⟨found, middle, hfound, (h found).run hlexed.of_append hlater hvalue⟩

/-- What is built from the value carries over when the value does. -/
theorem Carries.bind_pure {built : γ → Prop} {change : γ → δ} {make : α → γ} {make' : β → δ}
    (h : p.Carries holds f q)
    (hmake : ∀ value, built (make value) → holds value ∧ make' (f value) = change (make value)) :
    (p >>= fun value => pure (make value)).Carries built change
      (q >>= fun value => pure (make' value)) := by
  constructor
  intro region rest next result hlexed hrun hresult
  obtain ⟨value, middle, hfound, hpure⟩ := bind_run_eq_ok.mp hrun
  obtain ⟨rfl, rfl⟩ := pure_run_eq_ok.mp hpure
  obtain ⟨hvalue, heq⟩ := hmake value hresult
  exact bind_run_eq_ok.mpr ⟨f value, middle, h.run hlexed hfound hvalue,
    pure_run_eq_ok.mpr ⟨heq, rfl⟩⟩

/-- A value carries over together with what was found before it. -/
theorem Carries.paired (h : p.Carries holds f q) (found : γ) :
    (p >>= fun value => pure (found, value)).Carries (fun pair => holds pair.2) (Prod.map id f)
      (q >>= fun value => pure (found, value)) :=
  h.bind_pure fun _ hvalue => ⟨hvalue, rfl⟩

/-- A captured value carries over with the same source. -/
theorem Carries.capture (h : p.Carries holds f q) :
    (capture p).Carries (fun captured => holds captured.1) (Prod.map f id) (capture q) := by
  constructor
  intro region rest next captured hlexed hrun hvalue
  obtain ⟨hfound, hsource⟩ := capture_run_eq_ok.mp hrun
  exact capture_run_eq_ok.mpr ⟨h.run hlexed hfound hvalue, hsource⟩

/-- A body carries over when the parser of its interior does, since the interior is a text. -/
theorem Carries.block (h : p.Carries holds f q) (kinds : List TokenKind) :
    (block kinds p).Carries holds f (block kinds q) := by
  constructor
  intro region rest next value _ hrun hvalue
  obtain ⟨token, hrest, hkind, hinside⟩ := block_run_eq_ok.mp hrun
  obtain ⟨text, origin, tokens, hinterior, htokens, hwhole⟩ := interior_eq_ok.mp hinside
  obtain ⟨left, hfound, hleft⟩ := runWhole_eq_ok.mp hwhole
  have hlexed : IsLexed region.config (splitSymbolRuns tokens) :=
    ⟨text, origin, tokens, htokens, List.infix_rfl⟩
  have hcarried : runWhole q (.ofTokens region.config (splitSymbolRuns tokens) origin)
      (splitSymbolRuns tokens) = .ok (f value) :=
    runWhole_eq_ok.mpr ⟨left, h.run hlexed hfound hvalue, hleft⟩
  exact block_run_eq_ok.mpr ⟨token, hrest, hkind,
    interior_eq_ok.mpr ⟨text, origin, tokens, hinterior, htokens, hcarried⟩⟩

/-- Matches up to the end carry over when each of them does. -/
theorem Carries.all {promise : Promise α} (h : p.Carries holds f q)
    (hkeeps : p.Keeps .any promise) :
    (all p).Carries (fun values => ∀ value ∈ values, holds value) (List.map f) (all q) := by
  constructor
  intro region rest next values hlexed hrun hvalues
  change runAll p region rest = _ at hrun
  change runAll q region rest = _
  fun_induction runAll p region rest generalizing values next with
  | case1 rest hempty =>
    cases hrun
    rw [runAll, if_pos hempty]
    rfl
  | case2 rest hempty value middle hfound hlt ih =>
    rcases hothers : runAll p region middle with ⟨others | error | _, last⟩ <;>
      rw [hothers] at hrun <;> cases hrun
    rw [List.forall_mem_cons] at hvalues
    obtain ⟨used, rfl, -⟩ := hkeeps.exists_used hfound
    rw [runAll, if_neg hempty, h.run hlexed hfound hvalues.1]
    dsimp only
    rw [if_pos hlt, ih hlexed.of_append hvalues.2 hothers]
    rfl
  | case3 => cases hrun
  | case4 => cases hrun
  | case5 => cases hrun

end StyleSyntax.Parser
