import StyleSyntax.Parser.Bracketed
import StyleSyntax.Parser.Repetition
import StyleSyntax.Proofs.Parser.RecastMatching

/-!
# Recast repetitions and brackets

A repetition goes on in the recast run exactly as long as in the other one, since both have the same
number of tokens left. Brackets are entered in both runs with the recast tokens of the interior; for
that the recasting has to agree with the splitting of the text between them.
-/

namespace StyleSyntax

/-- Brackets are entered in both runs alike: positions move with the text, and the split tokens of
an interior are recast, as is the error of an interior without tokens. -/
structure Recasting.Enters (r : Recasting) : Prop where
  scope_append {region : Region} {used next : List Token} :
    r.scope region (used ++ next) → r.scope region next
  position_advanceText {region : Region} {token : Token} {next : List Token} (text : Text) :
    r.scope region (token :: next) →
    r.position (token.position.advanceText text) = (r.position token.position).advanceText text
  scope_interior {region : Region} {token : Token} {next tokens : List Token} {text : Text}
    {origin : Position} :
    r.scope region (token :: next) → token.interior = some (text, origin) →
    tokensOf region.config text origin = .ok tokens →
    r.scope (.ofTokens region.config (splitSymbolRuns tokens) origin) (splitSymbolRuns tokens)
  tokens_interior {region : Region} {token : Token} {next tokens : List Token} {text : Text}
    {origin : Position} :
    r.scope region (token :: next) → token.interior = some (text, origin) →
    tokensOf region.config text origin = .ok tokens →
    ∃ others, tokensOf (r.config region.config) text (r.position origin) = .ok others ∧
      splitSymbolRuns others = (splitSymbolRuns tokens).map r.token
  error_interior {region : Region} {token : Token} {next : List Token} {text : Text}
    {origin : Position} {error : LexError} :
    r.scope region (token :: next) → token.interior = some (text, origin) →
    tokensOf region.config text origin = .error error →
    tokensOf (r.config region.config) text (r.position origin) =
      .error ⟨error.fault, r.position error.position⟩

/-- Braces are brackets. -/
theorem isBracketed_of_isBraces {kind : TokenKind} (h : kind.isBraces) : kind.isBracketed := by
  cases kind <;> first | rfl | cases h

variable {α β γ δ : Type} {r : Recasting}

namespace Recasting

/-- What is left behind some tokens is in scope. -/
theorem Enters.scope_drop (h : r.Enters) {region : Region} {rest : List Token}
    (hscope : r.scope region rest) (n : Nat) : r.scope region (rest.drop n) := by
  rw [← List.take_append_drop n rest] at hscope
  exact h.scope_append hscope

/-- The interior of a recast token is the same text at the recast position. -/
theorem Enters.interior_token (h : r.Enters) {region : Region} {token : Token} {next : List Token}
    (hscope : r.scope region (token :: next)) :
    (r.token token).interior =
      token.interior.map fun inside => (inside.1, r.position inside.2) := by
  have hbracketed : (r.kind token.kind).isBracketed = token.kind.isBracketed := by
    cases hbraces : token.kind.isBraces with
    | false => rw [r.kind_eq hbraces]
    | true =>
      rw [isBracketed_of_isBraces hbraces,
        isBracketed_of_isBraces (by rw [r.isBraces_kind, hbraces])]
  unfold Token.interior Recasting.token
  dsimp only
  rw [hbracketed]
  split_ifs
  · split
    · next opening last rest hvalue =>
      exact congrArg (fun position => some (_, position))
        (h.position_advanceText [opening] hscope).symm
    · rfl
  · rfl

/-- The recast tokens of an interior have the recast region. -/
theorem Enters.region_ofTokens (h : r.Enters) {config : LexerConfig} {tokens : List Token}
    {origin : Position} (hscope : r.scope (.ofTokens config tokens origin) tokens) :
    r.region (.ofTokens config tokens origin) =
      .ofTokens (r.config config) (tokens.map r.token) (r.position origin) := by
  unfold Region.ofTokens endPosition Recasting.region
  rw [List.getLast?_map]
  rcases List.eq_nil_or_concat tokens with rfl | ⟨front, last, rfl⟩
  · rfl
  · rw [List.concat_eq_append] at hscope ⊢
    rw [List.getLast?_concat]
    exact congrArg (Region.mk _) (h.position_advanceText last.value (h.scope_append hscope))

end Recasting

namespace Parser

/-- Zero or more matches are recast. -/
theorem Recasts.many {p : Parser α} {q : Parser β} {f : α → β} (h : p.Recasts r f q) :
    (many p).Recasts r (List.map f) (many q) := by
  refine ⟨fun region rest hscope => ?_, fun _ => rfl⟩
  change (runMany p region rest).Recasts r _ region (runMany q (r.region region) (rest.map r.token))
  fun_induction runMany p region rest with
  | case1 rest hempty =>
    rw [runMany, List.isEmpty_map, if_pos hempty]
    exact ⟨rfl, hscope⟩
  | case2 rest hempty next hrun =>
    obtain ⟨heq, hstays⟩ := h.optional.of_run hscope hrun
    rw [runMany, List.isEmpty_map, if_neg hempty, heq]
    exact ⟨rfl, hstays⟩
  | case3 rest hempty value next hrun hlt ih =>
    obtain ⟨heq, hstays⟩ := h.optional.of_run hscope hrun
    rw [runMany.eq_def q, List.isEmpty_map, if_neg hempty, heq]
    simp only [Reply.recast, Outcome.map, Outcome.mapError, Option.map_some, List.length_map, hlt,
      ↓reduceIte]
    exact (ih hstays).map fun values => rfl
  | case4 rest hempty value next hrun hlt =>
    obtain ⟨heq, hstays⟩ := h.optional.of_run hscope hrun
    rw [runMany, List.isEmpty_map, if_neg hempty, heq]
    simp only [Reply.recast, Outcome.map, Outcome.mapError, Option.map_some, List.length_map, hlt,
      ↓reduceIte]
    exact ⟨rfl, hstays⟩
  | case5 rest hempty error next hrun =>
    obtain ⟨heq, hstays⟩ := h.optional.of_run hscope hrun
    rw [runMany, List.isEmpty_map, if_neg hempty, heq]
    exact ⟨rfl, hstays⟩
  | case6 rest hempty next hrun =>
    obtain ⟨heq, hstays⟩ := h.optional.of_run hscope hrun
    rw [runMany, List.isEmpty_map, if_neg hempty, heq]
    exact ⟨rfl, hstays⟩

/-- Matches up to the end are recast. -/
theorem Recasts.all {p : Parser α} {q : Parser β} {f : α → β} (h : p.Recasts r f q) :
    (all p).Recasts r (List.map f) (all q) := by
  refine ⟨fun region rest hscope => ?_, fun _ => rfl⟩
  change (runAll p region rest).Recasts r _ region (runAll q (r.region region) (rest.map r.token))
  fun_induction runAll p region rest with
  | case1 rest hempty =>
    rw [runAll, List.isEmpty_map, if_pos hempty]
    exact ⟨rfl, hscope⟩
  | case2 rest hempty value next hrun hlt ih =>
    obtain ⟨heq, hstays⟩ := h.of_run hscope hrun
    rw [runAll.eq_def q, List.isEmpty_map, if_neg hempty, heq]
    simp only [Reply.recast, Outcome.map, Outcome.mapError, List.length_map, hlt, ↓reduceIte]
    exact (ih hstays).map fun values => rfl
  | case3 rest hempty value next hrun hlt =>
    obtain ⟨heq, hstays⟩ := h.of_run hscope hrun
    rw [runAll, List.isEmpty_map, if_neg hempty, heq]
    simp only [Reply.recast, Outcome.map, Outcome.mapError, List.length_map, hlt, ↓reduceIte,
      Recasting.unexpected_map]
    exact ⟨rfl, hstays⟩
  | case4 rest hempty error next hrun =>
    obtain ⟨heq, hstays⟩ := h.of_run hscope hrun
    rw [runAll, List.isEmpty_map, if_neg hempty, heq]
    exact ⟨rfl, hstays⟩
  | case5 rest hempty next hrun =>
    obtain ⟨heq, hstays⟩ := h.of_run hscope hrun
    rw [runAll, List.isEmpty_map, if_neg hempty, heq]
    exact ⟨rfl, hstays⟩

/-- Elements behind separators are recast. -/
theorem Recasts.separated {separator : Parser α} {separator' : Parser β} {element : Parser γ}
    {element' : Parser δ} {f : α → β} {g : γ → δ} (hs : separator.Recasts r f separator')
    (he : element.Recasts r g element') :
    (separated separator element).Recasts r (List.map (Prod.map f g))
      (separated separator' element') := by
  refine ⟨fun region rest hscope => ?_, fun _ => rfl⟩
  change (runSeparated separator element region rest).Recasts r _ region
    (runSeparated separator' element' (r.region region) (rest.map r.token))
  fun_induction runSeparated separator element region rest with
  | case1 rest next hsign =>
    rw [runSeparated, (hs.optional.of_run hscope hsign).1]
    exact ⟨rfl, hscope⟩
  | case2 rest joint middle hsign next hvalue =>
    obtain ⟨heq, hmiddle⟩ := hs.optional.of_run hscope hsign
    rw [runSeparated, heq]
    dsimp only [Reply.recast, Outcome.map, Outcome.mapError, Option.map_some]
    rw [(he.optional.of_run hmiddle hvalue).1]
    exact ⟨rfl, hscope⟩
  | case3 rest joint middle hsign value next hvalue hlt ih =>
    obtain ⟨heq, hmiddle⟩ := hs.optional.of_run hscope hsign
    obtain ⟨heq', hnext⟩ := he.optional.of_run hmiddle hvalue
    rw [runSeparated.eq_def separator', heq]
    dsimp only [Reply.recast, Outcome.map, Outcome.mapError, Option.map_some]
    rw [heq']
    simp only [Reply.recast, Outcome.map, Outcome.mapError, Option.map_some, List.length_map, hlt,
      ↓reduceIte]
    exact (ih hnext).map fun values => rfl
  | case4 rest joint middle hsign value next hvalue hlt =>
    obtain ⟨heq, hmiddle⟩ := hs.optional.of_run hscope hsign
    rw [runSeparated, heq]
    dsimp only [Reply.recast, Outcome.map, Outcome.mapError, Option.map_some]
    rw [(he.optional.of_run hmiddle hvalue).1]
    simp only [Reply.recast, Outcome.map, Outcome.mapError, Option.map_some, List.length_map, hlt,
      ↓reduceIte]
    exact ⟨rfl, hscope⟩
  | case5 rest joint middle hsign error next hvalue =>
    obtain ⟨heq, hmiddle⟩ := hs.optional.of_run hscope hsign
    rw [runSeparated, heq]
    dsimp only [Reply.recast, Outcome.map, Outcome.mapError, Option.map_some]
    rw [(he.optional.of_run hmiddle hvalue).1]
    exact ⟨rfl, hscope⟩
  | case6 rest joint middle hsign next hvalue =>
    obtain ⟨heq, hmiddle⟩ := hs.optional.of_run hscope hsign
    rw [runSeparated, heq]
    dsimp only [Reply.recast, Outcome.map, Outcome.mapError, Option.map_some]
    rw [(he.optional.of_run hmiddle hvalue).1]
    exact ⟨rfl, hscope⟩
  | case7 rest error next hsign =>
    rw [runSeparated, (hs.optional.of_run hscope hsign).1]
    exact ⟨rfl, hscope⟩
  | case8 rest next hsign =>
    rw [runSeparated, (hs.optional.of_run hscope hsign).1]
    exact ⟨rfl, hscope⟩

/-- A list is recast, with or without elements. -/
theorem Recasts.list {element : Parser α} {element' : Parser β} {separator : Parser γ}
    {separator' : Parser δ} {f : α → β} {g : γ → δ} (he : element.Recasts r f element')
    (hs : separator.Recasts r g separator') (allowEmpty : Bool) :
    (list element separator allowEmpty).Recasts r (List.map f)
      (list element' separator' allowEmpty) := by
  refine he.optional.bind fun value => ?_
  cases value with
  | none =>
    cases allowEmpty with
    | true => exact recasts_pure rfl
    | false =>
      refine recasts_fail fun region rest => ?_
      rw [Recasting.region_finish, Recasting.significantPosition_map]
      rfl
  | some first =>
    refine (hs.separated he).bind fun others => recasts_pure ?_
    simp [Function.comp_def]

/-- A list with commas is recast. -/
theorem Recasts.commaList {element : Parser α} {element' : Parser β} {f : α → β}
    (h : element.Recasts r f element') :
    (commaList element).Recasts r (List.map f) (commaList element') :=
  h.list (recasts_anyToken rfl) false

/-- A first text and those behind it are recast. -/
theorem Recasts.leftRecursive {left left' right right' : Parser Text}
    (hleft : left.Recasts r id left') (hright : right.Recasts r id right') :
    (leftRecursive left right).Recasts r id (leftRecursive left' right') := by
  have hmore : ({ run := runTexts right } : Parser Text).Recasts r id
      { run := runTexts right' } := by
    refine ⟨fun region rest hscope => ?_, fun _ => rfl⟩
    dsimp only
    fun_induction runTexts right region rest with
    | case1 rest next hrun =>
      obtain ⟨heq, hnext⟩ := hright.optional.of_run hscope hrun
      rw [runTexts, heq]
      exact ⟨rfl, hnext⟩
    | case2 rest text next hrun hlt ih =>
      obtain ⟨heq, hnext⟩ := hright.optional.of_run hscope hrun
      rw [runTexts.eq_def right', heq]
      simp only [Reply.recast, Outcome.map, Outcome.mapError, Option.map_some, List.length_map, hlt,
        ↓reduceIte]
      exact (ih hnext).map fun more => rfl
    | case3 rest text next hrun hlt =>
      obtain ⟨heq, hnext⟩ := hright.optional.of_run hscope hrun
      rw [runTexts, heq]
      simp only [Reply.recast, Outcome.map, Outcome.mapError, Option.map_some, List.length_map, hlt,
        ↓reduceIte]
      exact ⟨rfl, hnext⟩
    | case4 rest error next hrun =>
      obtain ⟨heq, hnext⟩ := hright.optional.of_run hscope hrun
      rw [runTexts, heq]
      exact ⟨rfl, hnext⟩
    | case5 rest next hrun =>
      obtain ⟨heq, hnext⟩ := hright.optional.of_run hscope hrun
      rw [runTexts, heq]
      exact ⟨rfl, hnext⟩
  exact hleft.bind fun first => hmore.bind fun more => recasts_pure rfl

/-- A whole list of tokens is recast, and so is an error about a token that is left over. -/
theorem Recasts.runWhole {p : Parser α} {q : Parser β} {f : α → β} (h : p.Recasts r f q)
    {region : Region} {tokens : List Token} (hscope : r.scope region tokens) :
    runWhole q (r.region region) (tokens.map r.token) =
      ((runWhole p region tokens).map f).mapError r.error := by
  unfold Parser.runWhole
  rw [(h.reply region tokens hscope).eq]
  generalize p.run region tokens = reply
  rcases reply with ⟨value | error | _, left⟩
  · simp only [Reply.recast, Outcome.map, Outcome.mapError, Recasting.firstSignificant_map]
    cases firstSignificant left <;> rfl
  · rfl
  · rfl

/-- The outcome of an interior is recast. -/
theorem Recasts.interior {p : Parser α} {q : Parser β} {f : α → β} (h : p.Recasts r f q)
    (hr : r.Enters) {region : Region} {token : Token} {next : List Token}
    (hscope : r.scope region (token :: next)) :
    interior q (r.config region.config) (r.token token) =
      ((interior p region.config token).map f).mapError r.error := by
  unfold Parser.interior runInside
  rw [hr.interior_token hscope]
  cases hinterior : token.interior with
  | none => rfl
  | some inside =>
    obtain ⟨text, origin⟩ := inside
    dsimp only [Option.map_some]
    cases htokens : tokensOf region.config text origin with
    | error error =>
      rw [hr.error_interior hscope hinterior htokens]
      rfl
    | ok tokens =>
      have hinner := hr.scope_interior hscope hinterior htokens
      obtain ⟨others, hothers, hsplit⟩ := hr.tokens_interior hscope hinterior htokens
      rw [hothers]
      dsimp only
      rw [hsplit, ← hr.region_ofTokens hinner, h.runWhole hinner]
      cases Parser.runWhole p _ (splitSymbolRuns tokens) with
      | ok value => rfl
      | failed error => exact congrArg Outcome.failed (Recasting.error_within .block error)
      | endless => rfl

/-- A bracketed token is recast with its interior, for kinds that the recasting keeps apart. -/
theorem Recasts.block {p : Parser α} {q : Parser β} {f : α → β} (h : p.Recasts r f q)
    (hr : r.Enters) {kinds : List TokenKind}
    (hkinds : ∀ kind, kinds.contains (r.kind kind) = kinds.contains kind) :
    (block kinds p).Recasts r f (block kinds q) := by
  refine ⟨fun region rest hscope => ?_, fun _ => rfl⟩
  have hdropped := Recasting.scope_dropTrivia hscope
  have hmatched : (bracketed kinds).Recasts r r.token (bracketed kinds) :=
    recasts_tokenWhere _ (fun token => hkinds token.kind) fun _ _ _ _ hscope =>
      hr.scope_drop hscope 1
  obtain ⟨heq, hstays⟩ := hmatched.reply region rest hscope
  unfold Parser.block
  rw [run_bind, run_bind, heq]
  unfold bracketed tokenWhere at hstays ⊢
  dsimp only at hstays ⊢
  cases hrest : dropTrivia rest with
  | nil =>
    exact ⟨rfl, hscope⟩
  | cons token next =>
    rw [hrest] at hdropped hstays
    dsimp only at hstays ⊢
    split_ifs at hstays ⊢
    · refine ⟨?_, hstays⟩
      exact congrArg (Reply.mk · _) (h.interior hr hdropped)
    · exact ⟨rfl, hscope⟩

end Parser

end StyleSyntax
