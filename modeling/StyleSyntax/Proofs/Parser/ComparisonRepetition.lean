import StyleSyntax.Proofs.Parser.ComparisonMatching

/-!
# Repetitions in two runs

Two runs of a repetition stop after the same number of elements: an element is found in both or in
neither, and moves in both or in neither. A repetition that stops at the end of the tokens needs an
even comparison; lists and left recursion stop at what is no element and agree in all comparisons.
-/

namespace StyleSyntax

variable {α β γ σ : Type} {c : Comparison}

/-- What is consumed moves both runs or neither. -/
theorem Comparison.length_lt_iff {used used' : List Token} (h : c.takes used used')
    (next next' : List Token) :
    next'.length < (used' ++ next').length ↔ next.length < (used ++ next).length := by
  have hnil := c.nil_iff_of_takes h
  rw [List.length_append, List.length_append, Nat.lt_add_left_iff_pos, Nat.lt_add_left_iff_pos,
    List.length_pos_iff, List.length_pos_iff, not_iff_not]
  exact hnil.symm

/-- Parts that look the same are both left out or both there. -/
theorem Option.map_eq_map_cases {f : α → β} {found found' : Option α}
    (h : found'.map f = found.map f) :
    found = none ∧ found' = none ∨
      ∃ value value', found = some value ∧ found' = some value' ∧ f value' = f value := by
  cases found <;> cases found' <;> simp_all

namespace Parser

variable {p q : Parser α} {f : α → β}

/-- Zero or more matches agree. -/
theorem Agrees.many (hc : c.IsEven) (h : p.Agrees c f q) :
    (many p).Agrees c (List.map f) (many q) := by
  refine ⟨fun {rest rest'} hleaves => ?_, fun _ => rfl⟩
  change Reply.Agrees c _ rest rest' (runMany p c.left rest) (runMany q c.right rest')
  induction hlength : rest.length using Nat.strong_induction_on generalizing rest rest' with
  | _ length ih =>
    subst hlength
    have hreply := h.optional.reply hleaves
    rw [runMany, runMany, hc.isEmpty_eq hleaves]
    split_ifs
    · exact Reply.agrees_nothing hleaves rfl
    · generalize p.optional.run c.left rest = reply at hreply ⊢
      generalize q.optional.run c.right rest' = reply' at hreply ⊢
      cases hreply with
      | @ok _ _ _ _ next next' hrest hrest' htakes hnext hvalue =>
        subst hrest hrest'
        obtain ⟨rfl, rfl⟩ | ⟨found, found', rfl, rfl, hfound⟩ := Option.map_eq_map_cases hvalue
        · exact .ok rfl rfl htakes hnext rfl
        · simp only [Comparison.length_lt_iff htakes next next']
          split_ifs with hlt
          · refine ((ih _ hlt hnext rfl).map fun values values' hvalues => ?_).append htakes
            rw [List.map_cons, List.map_cons, hvalues, hfound]
          · exact .ok rfl rfl htakes hnext (by rw [List.map_cons, List.map_cons, hfound])
      | failed hblock => exact .failed hblock
      | endless => exact .endless

/-- Matches up to the end agree. -/
theorem Agrees.all (hc : c.IsEven) (h : p.Agrees c f q) :
    (all p).Agrees c (List.map f) (all q) := by
  refine ⟨fun {rest rest'} hleaves => ?_, fun _ => rfl⟩
  change Reply.Agrees c _ rest rest' (runAll p c.left rest) (runAll q c.right rest')
  induction hlength : rest.length using Nat.strong_induction_on generalizing rest rest' with
  | _ length ih =>
    subst hlength
    have hreply := h.reply hleaves
    rw [runAll, runAll, hc.isEmpty_eq hleaves]
    split_ifs
    · exact Reply.agrees_nothing hleaves rfl
    · generalize p.run c.left rest = reply at hreply ⊢
      generalize q.run c.right rest' = reply' at hreply ⊢
      cases hreply with
      | @ok _ _ _ _ next next' hrest hrest' htakes hnext hvalue =>
        subst hrest hrest'
        simp only [Comparison.length_lt_iff htakes next next']
        split_ifs with hlt
        · refine ((ih _ hlt hnext rfl).map fun values values' hvalues => ?_).append htakes
          rw [List.map_cons, List.map_cons, hvalues, hvalue]
        · exact .failed (by rw [isBlock_unexpected, isBlock_unexpected])
      | failed hblock => exact .failed hblock
      | endless => exact .endless

/-- Elements behind separators agree. -/
theorem Agrees.separated {separator separator' : Parser σ} {g : σ → γ}
    (hs : separator.Agrees c g separator') (h : p.Agrees c f q) :
    (separated separator p).Agrees c (List.map (Prod.map g f)) (separated separator' q) := by
  refine ⟨fun {rest rest'} hleaves => ?_, fun _ => rfl⟩
  change Reply.Agrees c _ rest rest' (runSeparated separator p c.left rest)
    (runSeparated separator' q c.right rest')
  induction hlength : rest.length using Nat.strong_induction_on generalizing rest rest' with
  | _ length ih =>
    subst hlength
    have hsign := hs.optional.reply hleaves
    rw [runSeparated, runSeparated]
    generalize separator.optional.run c.left rest = reply at hsign ⊢
    generalize separator'.optional.run c.right rest' = reply' at hsign ⊢
    cases hsign with
    | @ok _ _ _ _ middle middle' hrest hrest' htakes hmiddle hvalue =>
      obtain ⟨rfl, rfl⟩ | ⟨sign, sign', rfl, rfl, hsigns⟩ := Option.map_eq_map_cases hvalue
      · exact Reply.agrees_nothing hleaves rfl
      · have hreply := h.optional.reply hmiddle
        dsimp only
        generalize p.optional.run c.left middle = reply at hreply ⊢
        generalize q.optional.run c.right middle' = reply' at hreply ⊢
        cases hreply with
        | @ok _ _ _ _ next next' hmiddle hmiddle' hmore hnext hvalue =>
          subst hmiddle hmiddle'
          obtain ⟨rfl, rfl⟩ | ⟨found, found', rfl, rfl, hfound⟩ := Option.map_eq_map_cases hvalue
          · exact Reply.agrees_nothing hleaves rfl
          · rw [← List.append_assoc] at hrest hrest'
            subst hrest hrest'
            have hboth := c.takes_append htakes hmore
            simp only [Comparison.length_lt_iff hboth next next']
            split_ifs with hlt
            · refine ((ih _ hlt hnext rfl).map fun values values' hvalues => ?_).append hboth
              rw [List.map_cons, List.map_cons, hvalues, Prod.map_apply, Prod.map_apply, hsigns,
                hfound]
            · exact .endless
        | failed hblock => exact .failed hblock
        | endless => exact .endless
    | failed hblock => exact .failed hblock
    | endless => exact .endless

/-- Lists that must have elements agree. -/
theorem Agrees.list {separator separator' : Parser σ} {g : σ → γ}
    (hs : separator.Agrees c g separator') (h : p.Agrees c f q) :
    (list p separator false).Agrees c (List.map f) (list q separator' false) := by
  refine h.optional.bind fun value value' hvalue => ?_
  obtain ⟨rfl, rfl⟩ | ⟨first, first', rfl, rfl, hfirst⟩ := Option.map_eq_map_cases hvalue
  · exact agrees_fail (fun _ _ => rfl) fun _ _ => rfl
  · refine (hs.separated h).bind fun others others' hothers => agrees_pure ?_
    have hvalues := congrArg (List.map Prod.snd) hothers
    rw [List.map_map, List.map_map] at hvalues
    rw [List.map_cons, List.map_cons, hfirst, List.map_map, List.map_map]
    exact congrArg _ hvalues

/-- Lists with commas agree when no bar is a comma. -/
theorem Agrees.commaList (hbars : ∀ token, c.bars token → token.kind ≠ .comma)
    (h : p.Agrees c f q) : (commaList p).Agrees c (List.map f) (commaList q) :=
  Agrees.list (agrees_anyToken hbars) h

/-- A first match and further ones behind it agree. -/
theorem Agrees.leftRecursive {left left' right right' : Parser Text}
    (hleft : left.Agrees c (fun _ => ()) left') (hright : right.Agrees c (fun _ => ()) right') :
    (leftRecursive left right).Agrees c (fun _ => ()) (leftRecursive left' right') := by
  have hmore : ({ run := runTexts right } : Parser Text).Agrees c (fun _ => ())
      { run := runTexts right' } := by
    refine ⟨fun {rest rest'} hleaves => ?_, fun _ => rfl⟩
    dsimp only
    induction hlength : rest.length using Nat.strong_induction_on generalizing rest rest' with
    | _ length ih =>
      subst hlength
      have hreply := hright.optional.reply hleaves
      rw [runTexts, runTexts]
      generalize right.optional.run c.left rest = reply at hreply ⊢
      generalize right'.optional.run c.right rest' = reply' at hreply ⊢
      cases hreply with
      | @ok _ _ _ _ next next' hrest hrest' htakes hnext hvalue =>
        subst hrest hrest'
        obtain ⟨rfl, rfl⟩ | ⟨text, text', rfl, rfl, -⟩ := Option.map_eq_map_cases hvalue
        · exact .ok rfl rfl htakes hnext rfl
        · simp only [Comparison.length_lt_iff htakes next next']
          split_ifs with hlt
          · have hmore : Reply.Agrees c (fun _ => ()) next next'
                ((runTexts right c.left next).map (text ++ ·))
                ((runTexts right' c.right next').map (text' ++ ·)) :=
              (ih _ hlt hnext rfl).map fun _ _ _ => rfl
            exact hmore.append htakes
          · exact .ok rfl rfl htakes hnext rfl
      | failed hblock => exact .failed hblock
      | endless => exact .endless
  exact hleft.bind fun _ _ _ => hmore.bind fun _ _ _ => agrees_pure rfl

end Parser

end StyleSyntax
