import StyleSyntax.Proofs.Document.Origins
import StyleSyntax.Proofs.Grammar.BodyDepth
import StyleSyntax.Proofs.Token.SameButTrivia

/-!
# What whitespace and comments say

Two lists of tokens that differ in their trivia alone are read alike. Both are stylesheets or
neither is, and the trees have the same outline: the same nodes with the same fragments, names,
paths, keywords and marks, and bodies that are the same up to positions. A body lies inside a token
that both lists have, if at different places, and is read by a grammar of a different depth in each,
as the texts differ in length; neither makes a difference.
-/

namespace StyleSyntax

open StyleSyntax.Parser StyleSyntax.Grammar

/-- Every position becomes the start of a document. -/
def Recasting.unplaced : Recasting where
  kind := id
  position _ := .start
  config := id
  scope _ _ := True
  kind_eq := @TokenKind.id_eq
  isBraces_kind := TokenKind.isBraces_id
  scope_tail _ _ := trivial

/-- The outline of a node: texts that may hold trivia are not seen, nor are positions, and of the
items of a body everything is seen but positions. -/
def View.outline : View :=
  ⟨fun _ => [], fun _ => .start, List.map Recasting.unplaced.node⟩

/-- Without positions a node does not change when it is moved. -/
theorem Recasting.unplaced_moved (m : Movement) (node : Node) :
    unplaced.node ((moved m).node node) = unplaced.node node := by
  refine Node.change_change ?_ ?_ (fun _ => rfl) node
  · intro l
    cases l <;> rfl
  · intro head
    cases head with
    | rule dialect selectors => exact congrArg (Head.rule dialect) List.map_map
    | _ => rfl

variable {dialect : Dialect}

/-- Two runs on lists that differ in their trivia, with bodies of so many levels. -/
def Comparison.butTrivia (dialect : Dialect) (config : LexerConfig) (finish finish' : Position)
    (depth depth' : Nat) : Comparison where
  left := ⟨config, finish⟩
  right := ⟨config, finish'⟩
  view := .outline
  leaves rest rest' := SameButTrivia dialect rest rest' ∧ (spelling rest).length ≤ depth ∧
    (spelling rest').length ≤ depth'
  takes := SameButTrivia dialect
  bars _ := False
  config_eq := rfl
  takes_nil := .nil
  takes_append := SameButTrivia.append
  nil_iff_of_takes := SameButTrivia.nil_iff
  trimmedSpelling_eq {used used'} htakes hall := by
    obtain ⟨-, ⟨hnil, hnil'⟩ | ⟨token, token', rest, rest', hused, hused', htoken, hkind, hvalue,
      hrest⟩⟩ := htakes.gap_cases
    · rw [trimmedSpelling, trimmedSpelling, hnil, hnil']
    · rw [hused] at hall
      rw [trimmedSpelling, trimmedSpelling, hused, hused']
      exact (hrest.cons htoken hkind hvalue).spelling_eq hall
  excerpt_eq _ _ _ := rfl
  gap_eq _ _ := rfl
  behind {rest rest'} := by
    rintro ⟨hrest, hdepth, hdepth'⟩
    have hall := takeWhile_append_dropTrivia rest
    have hall' := takeWhile_append_dropTrivia rest'
    obtain ⟨hgap, hends | ⟨token, token', next, next', hdrop, hdrop', htoken, hkind, hvalue,
      hnext⟩⟩ := hrest.gap_cases
    · exact .inl hends
    · rw [hdrop] at hall
      rw [hdrop'] at hall'
      rw [← hall, spelling_append, List.length_append] at hdepth
      rw [← hall', spelling_append, List.length_append] at hdepth'
      exact .inr ⟨token, token', next, next', hdrop, hdrop', ⟨hkind, hvalue, rfl⟩, .last hgap,
        hnext.cons htoken hkind hvalue, (Nat.le_add_left _ _).trans hdepth,
        (Nat.le_add_left _ _).trans hdepth'⟩
  here {rest rest'} := by
    rintro ⟨hrest, -, -⟩
    obtain ⟨token, token', next, next', hcons, hcons', htoken, hkind, hvalue, -⟩ | htrivia :=
      hrest.head_cases
    · exact .inl ⟨token, token', next, next', hcons, hcons', htoken, hkind, hvalue, rfl⟩
    · exact .inr htrivia
  pass := by
    rintro token token' next next' ⟨hrest, hdepth, hdepth'⟩ htoken -
    obtain ⟨hkind, hvalue, hnext⟩ := hrest.tail htoken
    rw [spelling_cons, List.length_append] at hdepth hdepth'
    exact ⟨SameButTrivia.nil.cons htoken hkind hvalue, hnext,
      (Nat.le_add_left _ _).trans hdepth, (Nat.le_add_left _ _).trans hdepth'⟩

variable {config : LexerConfig} {finish finish' : Position} {depth depth' : Nat}

/-- Runs on lists that differ in their trivia are runs on whole lists. -/
theorem Comparison.butTrivia_isWhole :
    (Comparison.butTrivia dialect config finish finish' depth depth').IsWhole dialect where
  finish {rest rest'} := by
    rintro ⟨hrest, -, -⟩ -
    exact ⟨hrest, .nil, Nat.zero_le _, Nat.zero_le _⟩
  not_bars _ := id
  breaks {rest rest'} := by
    rintro hdialect ⟨hrest, -, -⟩
    exact hrest.gap_cases.1.breaks hdialect

/-- A token is what stands at the start of a document, moved to where the token is. -/
theorem Recasting.moved_token (token : Token) :
    (moved (.toOrigin token.position)).token ⟨token.kind, token.value, .start⟩ = token := by
  obtain ⟨kind, value, line, col⟩ := token
  rfl

/-- The interior of a token does not depend on where the token stands, apart from positions. -/
theorem Parser.agrees_interior_of_value_eq {α β : Type} {p : Parser α} {f : Movement → α → α}
    {g : α → β} (h : ∀ m, p.Recasts (.moved m) (f m) p) (hg : ∀ m value, g (f m value) = g value)
    (config : LexerConfig) {token token' : Token} (hkind : token'.kind = token.kind)
    (hvalue : token'.value = token.value) :
    Outcome.Agrees g (interior p config token) (interior p config token') := by
  have hmoved (token : Token) : interior p config token =
      ((interior p config ⟨token.kind, token.value, .start⟩).map
        (f (.toOrigin token.position))).mapError
        (Recasting.moved (.toOrigin token.position)).error := by
    have hscope : (Recasting.moved (.toOrigin token.position)).scope ⟨config, .start⟩
        [⟨token.kind, token.value, .start⟩] := by
      intro first hfirst
      rw [List.mem_singleton.mp hfirst]
      exact ⟨Nat.le_refl 1, Nat.le_refl 1⟩
    have hinterior := (h (.toOrigin token.position)).interior (Recasting.moved_enters _) hscope
    rwa [Recasting.moved_token] at hinterior
  rw [hmoved token, hmoved token', hkind, hvalue]
  cases interior p config ⟨token.kind, token.value, .start⟩ with
  | ok value => exact .ok (by rw [hg, hg])
  | failed error => exact .failed (by rw [Recasting.isBlock_error, Recasting.isBlock_error])
  | endless => exact .endless

/-- Bodies of as many levels as the texts have characters are alike inside all tokens. -/
theorem Grammar.Bodies.within_agree :
    (Bodies.within depth).Agree
      (Comparison.butTrivia dialect config finish finish' depth depth') (Bodies.within depth') := by
  have hsame := within_sameWithin (Nat.min_le_left depth depth') (Nat.min_le_right depth depth')
  have hitems (m : Movement) (nodes : List Node) :
      View.outline.items (nodes.map (Recasting.moved m).node) = View.outline.items nodes := by
    refine (List.map_map.trans (List.map_congr_left fun node _ => ?_))
    exact Recasting.unplaced_moved m node
  -- The body is read by the deeper grammar where it stands, and then moved to the other place.
  have hinside {p q : Parser (List Node)}
      (hdepth : ∀ token : Token, token.value.length ≤ min depth depth' →
        Outcome.Agrees id (interior p config token) (interior q config token))
      (hrecasts : ∀ m, q.Recasts (.moved m) (List.map (Recasting.moved m).node) q) :
      p.AgreesInside (.butTrivia dialect config finish finish' depth depth') View.outline.items
        q := by
    rintro token token' next next' ⟨-, hlength, hlength'⟩ hboth
    rw [spelling_cons, List.length_append] at hlength hlength'
    have hvalue : token'.value = token.value := hboth.value
    rw [hvalue] at hlength'
    have hplace := agrees_interior_of_value_eq hrecasts hitems config hboth.kind hboth.value
    exact ((hdepth token (by omega)).mono fun _ _ hvalue => congrArg _ hvalue).trans hplace
  refine ⟨hsame.keeps, hsame.keeps', ?_, fun dialect => ?_, fun dialect => ?_, fun dialect => ?_⟩
  · rintro token token' next next' - hboth
    exact agrees_interior_of_value_eq (f := fun _ => id)
      (fun m => recasts_mediaFeature (Recasting.moved_enters m)) (fun _ _ => rfl) config hboth.kind
      hboth.value
  · exact hinside (fun _ => hsame.block dialect config)
      fun m => (within_recast (Recasting.moved_enters m) depth').block dialect
  · exact hinside (fun _ => hsame.media dialect config)
      fun m => (within_recast (Recasting.moved_enters m) depth').media dialect
  · exact hinside (fun _ => hsame.page dialect config)
      fun m => (within_recast (Recasting.moved_enters m) depth').page dialect

/-- Lists of tokens that differ in their trivia alone are stylesheets together, and then the trees
have the same outline. -/
theorem parseTokens_sameButTrivia {tokens tokens' : List Token}
    (h : SameButTrivia dialect tokens tokens') (config : LexerConfig) :
    (∃ sheet sheet', parseTokens tokens config dialect = .ok sheet ∧
      parseTokens tokens' config dialect = .ok sheet' ∧
      sheet'.map View.outline.node = sheet.map View.outline.node) ∨
    ∃ error error', parseTokens tokens config dialect = .failed error ∧
      parseTokens tokens' config dialect = .failed error' := by
  have hends := parseTokens_ne_endless tokens config dialect
  have hbodies : (Bodies.within (spelling (splitSymbolRuns tokens)).length).Agree
      (Comparison.butTrivia dialect config (endPosition (splitSymbolRuns tokens) .start)
        (endPosition (splitSymbolRuns tokens') .start) _ _)
      (Bodies.within (spelling (splitSymbolRuns tokens')).length) := Bodies.within_agree
  have hreply := (agrees_stylesheetItems (@Comparison.butTrivia_isWhole dialect _ _ _ _ _)
    hbodies).reply ⟨h.splitSymbolRuns, Nat.le_refl _, Nat.le_refl _⟩
  have hrun (tokens : List Token) : parseTokens tokens config dialect =
      ((stylesheetItems (.within (spelling (splitSymbolRuns tokens)).length) dialect).run
        ⟨config, endPosition (splitSymbolRuns tokens) .start⟩ (splitSymbolRuns tokens)).outcome :=
    rfl
  rw [hrun] at hends
  rw [hrun tokens, hrun tokens']
  dsimp only [Comparison.butTrivia] at hreply
  generalize Parser.run _ _ (splitSymbolRuns tokens) = reply at hends hreply ⊢
  generalize Parser.run _ _ (splitSymbolRuns tokens') = reply' at hreply ⊢
  cases hreply with
  | ok _ _ _ _ hsheets => exact .inl ⟨_, _, rfl, rfl, hsheets⟩
  | failed => exact .inr ⟨_, _, rfl, rfl⟩
  | endless => exact absurd rfl hends

/-- A comment may stand beside the space between two parts of a selector. -/
theorem parseTokens_sameButTrivia_comment :
    ∃ sheet sheet',
      parseTokens [⟨.literal, ['a'], .start⟩, ⟨.space, [' '], ⟨1, 2⟩⟩, ⟨.literal, ['b'], ⟨1, 3⟩⟩,
        ⟨.block, "\x7bc:d\x7d".toList, ⟨1, 4⟩⟩] {} .jss = .ok sheet ∧
      parseTokens [⟨.literal, ['a'], .start⟩, ⟨.multilineComment, "/**/".toList, ⟨1, 2⟩⟩,
        ⟨.space, [' '], ⟨1, 6⟩⟩, ⟨.literal, ['b'], ⟨1, 7⟩⟩,
        ⟨.block, "\x7bc:d\x7d".toList, ⟨1, 8⟩⟩] {} .jss = .ok sheet' ∧
      sheet'.map View.outline.node = sheet.map View.outline.node ∧ sheet.length = 1 := by
  have hgap : SameGap .jss [⟨.space, [' '], ⟨1, 2⟩⟩]
      [⟨.multilineComment, "/**/".toList, ⟨1, 2⟩⟩, ⟨.space, [' '], ⟨1, 6⟩⟩] :=
    ⟨by unfold AllTrivia; decide, by unfold AllTrivia; decide, by decide, fun _ => rfl⟩
  have htokens : SameButTrivia .jss
      [⟨.literal, ['a'], .start⟩, ⟨.space, [' '], ⟨1, 2⟩⟩, ⟨.literal, ['b'], ⟨1, 3⟩⟩,
        ⟨.block, "\x7bc:d\x7d".toList, ⟨1, 4⟩⟩]
      [⟨.literal, ['a'], .start⟩, ⟨.multilineComment, "/**/".toList, ⟨1, 2⟩⟩,
        ⟨.space, [' '], ⟨1, 6⟩⟩, ⟨.literal, ['b'], ⟨1, 7⟩⟩,
        ⟨.block, "\x7bc:d\x7d".toList, ⟨1, 8⟩⟩] :=
    .cons rfl rfl rfl (.gap_append hgap (.cons rfl rfl rfl (.cons rfl rfl rfl .nil)))
  have hparse : parseTokens [⟨.literal, ['a'], .start⟩, ⟨.space, [' '], ⟨1, 2⟩⟩,
      ⟨.literal, ['b'], ⟨1, 3⟩⟩, ⟨.block, "\x7bc:d\x7d".toList, ⟨1, 4⟩⟩] {} .jss =
      .ok [.block (.rule .jss [⟨.jss, [['a'], [' '], ['b']], "a b".toList, .start⟩])
        [.leaf (.declaration ⟨.jss, ⟨['c'], ⟨1, 5⟩⟩, ⟨['d'], ⟨1, 7⟩⟩, false, "c:d".toList⟩)]
        ⟨"a b\x7bc:d\x7d".toList, .start⟩] := by
    decide +kernel
  obtain ⟨sheet, sheet', hsheet, hsheet', hsame⟩ | ⟨error, _, hfailed, -⟩ :=
    parseTokens_sameButTrivia htokens {}
  · refine ⟨sheet, sheet', hsheet, hsheet', hsame, ?_⟩
    rw [hparse] at hsheet
    cases hsheet
    rfl
  · rw [hparse] at hfailed
    cases hfailed

end StyleSyntax
