import StyleSyntax.Parser.Repetition
import StyleSyntax.Proofs.Parser.Matching

/-!
# Contracts of repetitions

What a repetition promises is built up from its end: it holds of nothing, and putting one more
element in front preserves it. Elements behind separators have to move, since the list would never
end otherwise. A list that may not be empty ends with a significant token and has the promise of
each of its elements.
-/

namespace StyleSyntax

/-- The promise of a list for each of its elements: the list ends with a significant token, and
each element keeps the promise on neighbours among the consumed tokens. -/
def Promise.each {α : Type} (element : Promise α) : Promise (List α) :=
  fun region used _ values => EndsSignificant used ∧ values ≠ [] ∧
    ∀ value ∈ values, ∃ part next, part <:+: used ∧ element region part next value

namespace Parser

variable {α σ : Type} {setting : Setting}

/-- Zero or more matches keep a promise that holds of none and is preserved by one more in
front. -/
theorem Keeps.many {p : Parser α} {element : Promise α} {promise : Promise (List α)}
    (hp : p.Keeps setting element) (hnil : ∀ region next, promise region [] next [])
    (hcons : ∀ region used between next value values, element region used (between ++ next) value →
      promise region between next values →
      promise region (used ++ between) next (value :: values)) :
    (many p).Keeps setting promise := by
  constructor
  intro region rest hscope
  change (runMany p region rest).Keeps setting promise region rest
  fun_induction runMany p region rest with
  | case1 rest => exact ⟨[], rfl, hnil region rest⟩
  | case2 rest _ next hrun =>
    obtain ⟨used, rfl, rfl⟩ := hp.optional.of_run hscope hrun
    exact ⟨[], rfl, hnil region next⟩
  | case3 rest _ value next hrun hlt ih =>
    obtain ⟨used, rfl, hvalue⟩ := hp.optional.of_run hscope hrun
    refine (ih (setting.scope_append hscope)).map_append fun between last values hnext hvalues => ?_
    rw [hnext] at hvalue
    exact hcons region used between last value values hvalue hvalues
  | case4 rest _ value next hrun hlt =>
    obtain ⟨used, rfl, hvalue⟩ := hp.optional.of_run hscope hrun
    have hone := hcons region used [] next value [] hvalue (hnil region next)
    rw [List.append_nil] at hone
    exact ⟨used, rfl, hone⟩
  | case5 rest _ error next hrun => exact hp.optional.of_run hscope hrun
  | case6 rest _ next hrun => exact hp.optional.of_run hscope hrun

/-- Matches up to the end consume everything and keep a promise of such a kind. -/
theorem Keeps.all {p : Parser α} {element : Promise α}
    {promise : Region → List Token → List α → Prop}
    (hp : p.Keeps setting element) (hnil : ∀ region, promise region [] [])
    (hcons : ∀ region used rest value values, element region used rest value →
      promise region rest values → promise region (used ++ rest) (value :: values)) :
    (all p).Keeps setting fun region used next values =>
      next = [] ∧ promise region used values := by
  constructor
  intro region rest hscope
  change (runAll p region rest).Keeps setting _ region rest
  fun_induction runAll p region rest with
  | case1 rest hempty =>
    obtain rfl := List.isEmpty_iff.mp hempty
    exact ⟨[], rfl, rfl, hnil region⟩
  | case2 rest _ value next hrun hlt ih =>
    obtain ⟨used, rfl, hvalue⟩ := hp.of_run hscope hrun
    refine (ih (setting.scope_append hscope)).map_append fun between last values hnext hvalues => ?_
    obtain ⟨rfl, hvalues⟩ := hvalues
    rw [hnext, List.append_nil] at hvalue
    exact ⟨rfl, hcons region used between value values hvalue hvalues⟩
  | case3 rest _ value next hrun hlt =>
    obtain ⟨used, rfl, _⟩ := hp.of_run hscope hrun
    exact Setting.admits_unexpected (setting.scope_append hscope)
  | case4 rest _ error next hrun => exact hp.of_run hscope hrun
  | case5 rest _ next hrun => exact hp.of_run hscope hrun

/-- Elements behind separators keep a promise that holds of none and is preserved by one more pair
in front. The elements have to move, or the list would never end. -/
theorem Keeps.separated {separator : Parser σ} {element : Parser α} {joint : Promise σ}
    {piece : Promise α} {promise : Promise (List (σ × α))}
    (hseparator : separator.Keeps setting joint) (helement : element.Keeps setting piece)
    (hmoves : ∀ region used next value, piece region used next value → used ≠ [])
    (hnil : ∀ region next, promise region [] next [])
    (hcons : ∀ region before used between next sign value values,
      joint region before (used ++ (between ++ next)) sign →
      piece region used (between ++ next) value → promise region between next values →
      promise region (before ++ (used ++ between)) next ((sign, value) :: values)) :
    (separated separator element).Keeps setting promise := by
  constructor
  intro region rest hscope
  change (runSeparated separator element region rest).Keeps setting promise region rest
  fun_induction runSeparated separator element region rest with
  | case1 rest => exact ⟨[], rfl, hnil region rest⟩
  | case2 rest => exact ⟨[], rfl, hnil region rest⟩
  | case3 rest sign middle hsign value next hvalue hlt ih =>
    obtain ⟨before, rfl, hbefore⟩ := hseparator.optional.of_run hscope hsign
    obtain ⟨used, rfl, hused⟩ := helement.optional.of_run (setting.scope_append hscope) hvalue
    rw [← List.append_assoc]
    have hothers := ih (setting.scope_append (setting.scope_append hscope))
    refine hothers.map_append fun between last values hnext hvalues => ?_
    rw [hnext] at hbefore hused
    rw [List.append_assoc]
    exact hcons region before used between last sign value values hbefore hused hvalues
  | case4 rest sign middle hsign value next hvalue hlt =>
    obtain ⟨before, rfl, _⟩ := hseparator.optional.of_run hscope hsign
    obtain ⟨used, rfl, hused⟩ := helement.optional.of_run (setting.scope_append hscope) hvalue
    have hpos := List.length_pos_of_ne_nil (hmoves region used next value hused)
    simp only [List.length_append] at hlt
    omega
  | case5 rest sign middle hsign error next hvalue =>
    obtain ⟨before, rfl, _⟩ := hseparator.optional.of_run hscope hsign
    exact helement.optional.of_run (setting.scope_append hscope) hvalue
  | case6 rest sign middle hsign next hvalue =>
    obtain ⟨before, rfl, _⟩ := hseparator.optional.of_run hscope hsign
    exact helement.optional.of_run (setting.scope_append hscope) hvalue
  | case7 rest error next hsign => exact hseparator.optional.of_run hscope hsign
  | case8 rest next hsign => exact hseparator.optional.of_run hscope hsign

/-- A failure for an empty list is admitted. -/
theorem keeps_fail_emptyList {promise : Promise α} (wanted : Text) :
    (fail fun region rest => .leaf (.emptyList wanted) (significantPosition rest region.finish) :
      Parser α).Keeps setting promise := by
  refine keeps_fail fun region rest hscope => ?_
  have hdropped := Setting.scope_dropTrivia hscope
  rw [significantPosition, firstSignificant_eq_head?]
  cases hrest : dropTrivia rest with
  | nil => exact setting.admits_emptyList_finish wanted (Setting.scope_nil hscope)
  | cons token next =>
    rw [hrest] at hdropped
    exact setting.admits_emptyList wanted hdropped

/-- A list that must have elements keeps the promise of each of them. -/
theorem Keeps.list {element : Parser α} {separator : Parser σ} {piece : Promise α}
    {joint : Promise σ} (helement : element.Keeps setting piece)
    (hends : ∀ region used next value, piece region used next value → EndsSignificant used)
    (hseparator : separator.Keeps setting joint) :
    (list element separator false).Keeps setting (Promise.each piece) := by
  have hseparated : (Parser.separated separator element).Keeps setting
      fun region used next values => Promise.trimmed region used next values ∧
        ∀ value ∈ values.map Prod.snd,
          ∃ part next, part <:+: used ∧ piece region part next value := by
    refine hseparator.separated helement (fun region used next value h => (hends _ _ _ _ h).ne_nil)
      (fun region next => ⟨.inl rfl, by simp⟩) ?_
    intro region before used between next sign value values _ hvalue hvalues
    refine ⟨.inr (((hends _ _ _ _ hvalue).append_right hvalues.1).append_left before), ?_⟩
    rw [List.map_cons, List.forall_mem_cons]
    constructor
    · exact ⟨used, between ++ next, ⟨before, between, List.append_assoc _ _ _⟩, hvalue⟩
    · intro found hfound
      obtain ⟨part, later, hpart, hpiece⟩ := hvalues.2 found hfound
      exact ⟨part, later, hpart.trans ⟨before ++ used, [], by simp⟩, hpiece⟩
  unfold Parser.list
  refine Keeps.bind helement.optional fun value => ?_
  cases value with
  | none => exact keeps_fail_emptyList _
  | some first =>
    refine Keeps.bind hseparated fun others => keeps_pure ?_
    intro region next others' hothers before hbefore
    rw [List.append_nil] at hbefore ⊢
    refine ⟨(hends _ _ _ _ hbefore).append_right hothers.1, List.cons_ne_nil _ _, ?_⟩
    rw [List.forall_mem_cons]
    constructor
    · exact ⟨before, others' ++ next, ⟨[], others', rfl⟩, hbefore⟩
    · intro found hfound
      obtain ⟨part, later, hpart, hpiece⟩ := hothers.2 found hfound
      exact ⟨part, later, hpart.trans ⟨before, [], by simp⟩, hpiece⟩

/-- A list with commas keeps the promise of each of its elements. -/
theorem Keeps.commaList {element : Parser α} {piece : Promise α}
    (helement : element.Keeps setting piece)
    (hends : ∀ region used next value, piece region used next value → EndsSignificant used) :
    (commaList element).Keeps setting (Promise.each piece) :=
  helement.list hends (keeps_anyToken .comma)

/-- The texts of zero or more matches keep a promise that holds of no text and is preserved by one
more in front. -/
theorem Keeps.texts {p : Parser Text} {piece promise : Promise Text} (hp : p.Keeps setting piece)
    (hnil : ∀ region next, promise region [] next [])
    (hcons : ∀ region used between next text more, piece region used (between ++ next) text →
      promise region between next more → promise region (used ++ between) next (text ++ more)) :
    ({ run := runTexts p } : Parser Text).Keeps setting promise := by
  constructor
  intro region rest hscope
  change (runTexts p region rest).Keeps setting promise region rest
  fun_induction runTexts p region rest with
  | case1 rest next hrun =>
    obtain ⟨used, rfl, rfl⟩ := hp.optional.of_run hscope hrun
    exact ⟨[], rfl, hnil region next⟩
  | case2 rest text next hrun hlt ih =>
    obtain ⟨used, rfl, hused⟩ := hp.optional.of_run hscope hrun
    refine (ih (setting.scope_append hscope)).map_append fun between last more hnext hmore => ?_
    rw [hnext] at hused
    exact hcons region used between last text more hused hmore
  | case3 rest text next hrun hlt =>
    obtain ⟨used, rfl, hused⟩ := hp.optional.of_run hscope hrun
    have hone := hcons region used [] next text [] hused (hnil region next)
    rw [List.append_nil, List.append_nil] at hone
    exact ⟨used, rfl, hone⟩
  | case4 rest error next hrun => exact hp.optional.of_run hscope hrun
  | case5 rest next hrun => exact hp.optional.of_run hscope hrun

/-- A first match and further ones behind it end with a significant token. -/
theorem Keeps.leftRecursive {left right : Parser Text}
    (hleft : left.Keeps setting Promise.significant)
    (hright : right.Keeps setting Promise.significant) :
    (leftRecursive left right).Keeps setting Promise.significant := by
  have hmore : ({ run := runTexts right } : Parser Text).Keeps setting Promise.trimmed :=
    hright.texts (fun _ _ => .inl rfl) fun _ _ _ _ _ _ hused hbetween =>
      .inr (EndsSignificant.append_right hused hbetween)
  refine Keeps.bind hleft fun first => Keeps.bind hmore fun more => keeps_pure ?_
  intro region next used hused before hbefore
  rw [List.append_nil]
  exact EndsSignificant.append_right hbefore hused

end Parser

end StyleSyntax
