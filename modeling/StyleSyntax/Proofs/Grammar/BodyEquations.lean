import StyleSyntax.Proofs.Grammar.Advance
import StyleSyntax.Proofs.Lexer.Lossless

/-!
# Bodies without a limit

The bodies between braces are item lists of the same grammar, so that their parsers have to satisfy
equations in themselves. These equations are well-founded: on the way through the interior of a
token a body is only ever asked for inside of tokens that are two characters shorter, since the
tokens of an interior spell its text, which lacks the two brackets. Hence they have a solution, and
any two solutions read every token alike. The solution needs no limit on the depth of blocks, and a
limit that the text cannot reach makes no difference.
-/

namespace StyleSyntax

open StyleSyntax.Parser StyleSyntax.Grammar

variable {α β : Type} {config : LexerConfig} {bound : Nat}

namespace Parser

variable {p p' : Parser α}

/-- In regions of the configuration the parsers give the same replies on tokens of at most `bound`
characters. -/
structure RunsAlike (config : LexerConfig) (bound : Nat) (p p' : Parser α) : Prop where
  run_eq {region : Region} {rest : List Token} : region.config = config →
    (spelling rest).length ≤ bound → p.run region rest = p'.run region rest
  accepts_eq : p.accepts = p'.accepts

/-- A parser runs like itself. -/
theorem RunsAlike.refl (p : Parser α) : RunsAlike config bound p p :=
  ⟨fun _ _ => rfl, rfl⟩

/-- Sequences run alike that differ in their first part alone. -/
theorem RunsAlike.bind_left (h : RunsAlike config bound p p') (following : α → Parser β) :
    RunsAlike config bound (p >>= following) (p' >>= following) :=
  ⟨fun hregion hrest => by rw [run_bind, run_bind, h.run_eq hregion hrest], rfl⟩

/-- What stands behind the first part is no longer than what it was given. -/
theorem RunsAlike.bind_right {following following' : α → Parser β} (hp : p.Advances)
    (h : ∀ value, RunsAlike config bound (following value) (following' value)) :
    RunsAlike config bound (p >>= following) (p >>= following') := by
  refine ⟨fun {region rest} hregion hrest => ?_, rfl⟩
  rw [run_bind, run_bind]
  rcases hrun : p.run region rest with ⟨value | error | _, middle⟩
  · obtain ⟨used, rfl⟩ := hp.suffix hrun
    rw [spelling_append, List.length_append] at hrest
    exact (h value).run_eq hregion (by omega)
  · rfl
  · rfl

/-- An attempt asks its parser once. -/
theorem RunsAlike.attempt (h : RunsAlike config bound p p') :
    RunsAlike config bound (attempt p) (attempt p') := by
  refine ⟨fun hregion hrest => ?_, rfl⟩
  unfold Parser.attempt
  dsimp only
  rw [h.run_eq hregion hrest]

/-- So does a capture. -/
theorem RunsAlike.capture (h : RunsAlike config bound p p') :
    RunsAlike config bound (capture p) (capture p') := by
  refine ⟨fun hregion hrest => ?_, rfl⟩
  unfold Parser.capture
  dsimp only
  rw [h.run_eq hregion hrest]

/-- So does a numbered step. -/
theorem RunsAlike.step (h : RunsAlike config bound p p') (index : Nat) :
    RunsAlike config bound (step index p) (step index p') := by
  refine ⟨fun hregion hrest => ?_, rfl⟩
  unfold Parser.step
  dsimp only
  rw [h.run_eq hregion hrest]

/-- The same check accepts the same tokens. -/
theorem RunsAlike.probe (h : RunsAlike config bound p p') (test : Token → Bool) :
    RunsAlike config bound (probe test p) (probe test p') :=
  ⟨h.run_eq, rfl⟩

/-- Alternatives that run alike one by one give the same choice. -/
theorem runsAlike_firstOf {alternatives alternatives' : List (Parser α)}
    (h : List.Forall₂ (RunsAlike config bound) alternatives alternatives') :
    RunsAlike config bound (firstOf alternatives) (firstOf alternatives') := by
  refine ⟨fun {region rest} hregion hrest => ?_, rfl⟩
  change runFirst region rest {} alternatives = runFirst region rest {} alternatives'
  generalize ({} : Failures) = failures
  induction h generalizing failures with
  | nil => rfl
  | cons hp _ ih => simp only [runFirst, hp.accepts_eq, hp.run_eq hregion hrest, ih]

/-- Later matches run on an end of the tokens. -/
theorem RunsAlike.all (h : RunsAlike config bound p p') (hp : p.Advances) :
    RunsAlike config bound (all p) (all p') := by
  refine ⟨fun {region rest} hregion hrest => ?_, rfl⟩
  change runAll p region rest = runAll p' region rest
  induction hlength : rest.length using Nat.strongRecOn generalizing rest with
  | ind length ih =>
    subst hlength
    rw [runAll.eq_def p, runAll.eq_def p', ← h.run_eq hregion hrest]
    split_ifs
    · rfl
    · rcases hrun : p.run region rest with ⟨value | error | _, next⟩
      · dsimp only
        split_ifs with hlt
        · obtain ⟨used, rfl⟩ := hp.suffix hrun
          rw [spelling_append, List.length_append] at hrest
          rw [ih next.length hlt (by omega) rfl]
        · rfl
      · rfl
      · rfl

/-- A block asks for the interior of one of the tokens that it is given. -/
theorem runsAlike_block {kinds : List TokenKind} {inner inner' : Parser α}
    (h : ∀ token : Token, token.value.length ≤ bound →
      interior inner config token = interior inner' config token) :
    RunsAlike config bound (block kinds inner) (block kinds inner') := by
  refine ⟨fun {region rest} hregion hrest => ?_, rfl⟩
  subst hregion
  unfold block
  rw [run_bind, run_bind]
  rcases hrun : (bracketed kinds).run region rest with ⟨token | error | _, next⟩
  · obtain ⟨hdropped, -⟩ := tokenWhere_run_eq_ok.mp hrun
    have hmem : token ∈ rest :=
      (dropTrivia_suffix rest).subset (hdropped ▸ List.mem_cons_self)
    dsimp only
    rw [h token ((length_value_le hmem).trans hrest)]
  · rfl
  · rfl

/-- A token is read alike inside by parsers that run alike on texts two characters shorter. -/
theorem interior_eq_of_runsAlike {token : Token}
    (h : ∀ bound, bound + 2 = token.value.length → RunsAlike config bound p p') :
    interior p config token = interior p' config token := by
  unfold interior runInside
  cases hinterior : token.interior with
  | none => rfl
  | some inside =>
    obtain ⟨text, origin⟩ := inside
    dsimp only
    cases htokens : tokensOf config text origin with
    | error error => rfl
    | ok tokens =>
      have halike := h _ (length_spelling_of_interior hinterior htokens)
      unfold runWhole
      dsimp only
      rw [halike.run_eq (by rfl) (Nat.le_refl _)]

end Parser

namespace Grammar

/-- The bodies read all tokens alike that are two or more characters shorter than a token of the
given length. -/
structure Bodies.MatchInside (config : LexerConfig) (length : Nat) (bodies bodies' : Bodies) :
    Prop where
  block (dialect : Dialect) {token : Token} : token.value.length + 2 ≤ length →
    interior (bodies.blockItems dialect) config token =
      interior (bodies'.blockItems dialect) config token
  media (dialect : Dialect) {token : Token} : token.value.length + 2 ≤ length →
    interior (bodies.mediaItems dialect) config token =
      interior (bodies'.mediaItems dialect) config token
  page (dialect : Dialect) {token : Token} : token.value.length + 2 ≤ length →
    interior (bodies.pageItems dialect) config token =
      interior (bodies'.pageItems dialect) config token

/-- The bodies satisfy the equations of the grammar: inside every token they are its item lists with
these bodies again. -/
structure Bodies.Solves (bodies : Bodies) : Prop where
  block (dialect : Dialect) (config : LexerConfig) (token : Token) :
    interior (bodies.blockItems dialect) config token =
      interior (Grammar.blockItems bodies dialect) config token
  media (dialect : Dialect) (config : LexerConfig) (token : Token) :
    interior (bodies.mediaItems dialect) config token =
      interior (Grammar.mediaItems bodies dialect) config token
  page (dialect : Dialect) (config : LexerConfig) (token : Token) :
    interior (bodies.pageItems dialect) config token =
      interior (declarationItems dialect) config token

/-- Bodies with as many levels as the text to be read has characters. -/
def Bodies.unlimited : Bodies :=
  ⟨fun dialect => withBodies fun bodies => Grammar.blockItems bodies dialect,
    fun dialect => withBodies fun bodies => Grammar.mediaItems bodies dialect, declarationItems⟩

variable {bodies bodies' bodies'' : Bodies} {dialect : Dialect}

/-- Matching is symmetric. -/
theorem Bodies.MatchInside.symm {length : Nat} (h : MatchInside config length bodies bodies') :
    MatchInside config length bodies' bodies :=
  ⟨fun dialect {_} hle => (h.block dialect hle).symm,
    fun dialect {_} hle => (h.media dialect hle).symm,
    fun dialect {_} hle => (h.page dialect hle).symm⟩

/-- Matching is transitive. -/
theorem Bodies.MatchInside.trans {length : Nat} (h : MatchInside config length bodies bodies')
    (h' : MatchInside config length bodies' bodies'') :
    MatchInside config length bodies bodies'' :=
  ⟨fun dialect {_} hle => (h.block dialect hle).trans (h'.block dialect hle),
    fun dialect {_} hle => (h.media dialect hle).trans (h'.media dialect hle),
    fun dialect {_} hle => (h.page dialect hle).trans (h'.page dialect hle)⟩

/-- Trivia is read without the statement. -/
theorem runsAlike_item {statement statement' : Parser Node}
    (h : RunsAlike config bound statement statement') :
    RunsAlike config bound (item statement) (item statement') := by
  refine ⟨fun hregion hrest => ?_, rfl⟩
  unfold item
  dsimp only
  rw [h.run_eq hregion hrest]

section Rules

variable (h : bodies.MatchInside config (bound + 2) bodies')
include h

/-- A rule asks for its body inside of a token that it was given. -/
theorem runsAlike_ruleBlock (dialect : Dialect) :
    RunsAlike config bound (ruleBlock bodies dialect) (ruleBlock bodies' dialect) := by
  have hbody : RunsAlike config bound (block braces (bodies.blockItems dialect))
      (block braces (bodies'.blockItems dialect)) :=
    runsAlike_block fun token hle => h.block dialect (by omega)
  exact (RunsAlike.capture <| RunsAlike.attempt <| .bind_right (advances_selectorList dialect)
    fun _ => (hbody.step 1).bind_left _).bind_left _

/-- So does a media rule. -/
theorem runsAlike_mediaRule (dialect : Dialect) :
    RunsAlike config bound (mediaRule bodies dialect) (mediaRule bodies' dialect) := by
  have hbody : RunsAlike config bound (block braces (bodies.mediaItems dialect))
      (block braces (bodies'.mediaItems dialect)) :=
    runsAlike_block fun token hle => h.media dialect (by omega)
  exact (RunsAlike.capture <| RunsAlike.attempt <| .bind_right (advances_symbol _) fun _ =>
    .bind_right ((advances_tokenWhere _ _).step 1) fun _ =>
      .bind_right (advances_mediaQueryList.step 2) fun _ => (hbody.step 3).bind_left _).bind_left _

/-- So does a page. -/
theorem runsAlike_pageRule (dialect : Dialect) :
    RunsAlike config bound (pageRule bodies dialect) (pageRule bodies' dialect) := by
  have hbody : RunsAlike config bound (block braces (bodies.pageItems dialect))
      (block braces (bodies'.pageItems dialect)) :=
    runsAlike_block fun token hle => h.page dialect (by omega)
  exact (RunsAlike.capture <| RunsAlike.attempt <| .bind_right (advances_symbol _) fun _ =>
    .bind_right ((advances_tokenWhere _ _).step 1) fun _ =>
      .bind_right (advances_pagePseudo.optional.step 2) fun _ =>
        (hbody.step 3).bind_left _).bind_left _

/-- So does a variable with a block. -/
theorem runsAlike_variableBlock :
    RunsAlike config bound (variableBlock bodies) (variableBlock bodies') := by
  have hbody : RunsAlike config bound (block braces (bodies.blockItems .jss))
      (block braces (bodies'.blockItems .jss)) :=
    runsAlike_block fun token hle => h.block .jss (by omega)
  exact (RunsAlike.capture <| RunsAlike.attempt <|
    .bind_right (advances_tokenWhere _ _).optional fun _ =>
      .bind_right (advances_varKeyword.step 1) fun _ =>
        .bind_right ((advances_tokenWhere _ _).step 2) fun _ =>
          .bind_right ((advances_symbol _).step 3) fun _ =>
            (hbody.step 4).bind_left _).bind_left _

/-- Of the rules behind a sign only media and pages have bodies. -/
theorem runsAlike_namedRule (dialect : Dialect) (name : Token) :
    RunsAlike config bound (namedRule bodies dialect name) (namedRule bodies' dialect name) := by
  unfold namedRule
  split_ifs
  · exact .refl _
  · exact .refl _
  · exact runsAlike_mediaRule h dialect
  · exact runsAlike_pageRule h dialect
  · exact .refl _

/-- An at-rule is the rule that is named behind its sign. -/
theorem runsAlike_atRule (dialect : Dialect) :
    RunsAlike config bound (atRule bodies dialect) (atRule bodies' dialect) := by
  refine ⟨fun {region rest} hregion hrest => ?_, rfl⟩
  unfold atRule
  dsimp only
  cases dropTrivia rest with
  | nil => rfl
  | cons sign following =>
    cases following with
    | nil => rfl
    | cons name later =>
      dsimp only
      rw [(runsAlike_namedRule h dialect name).run_eq hregion hrest]

/-- Statements at every place ask for bodies only inside of tokens that are short enough. -/
theorem runsAlike_statementsAt (dialect : Dialect) (place : Place) :
    RunsAlike config bound (firstOf (statementsAt bodies dialect place))
      (firstOf (statementsAt bodies' dialect place)) := by
  have hrule (dialect : Dialect) := (runsAlike_atRule h dialect).probe Token.isAt
  have hvariable := (runsAlike_variableBlock h).probe isVariableStart
  have hblock (dialect : Dialect) := runsAlike_ruleBlock h dialect
  refine runsAlike_firstOf ?_
  cases place <;> cases dialect <;> simp only [statementsAt, sheetStatements, ruleStatements,
    mediaStatements, declarationStatements, List.forall₂_cons]
  case sheet.css => exact ⟨.refl _, hrule .css, hblock .css, .nil⟩
  case sheet.jss => exact ⟨.refl _, hrule .jss, hvariable, .refl _, hblock .jss, .refl _, .nil⟩
  case block.css => exact ⟨.refl _, .refl _, .nil⟩
  case block.jss =>
    exact ⟨.refl _, hrule .jss, hvariable, .refl _, .refl _, .refl _, hblock .jss, .nil⟩
  case media.css => exact ⟨.refl _, hrule .css, hblock .css, .nil⟩
  case media.jss => exact ⟨.refl _, hrule .jss, hblock .jss, .nil⟩
  case page.css => exact ⟨.refl _, .refl _, .nil⟩
  case page.jss => exact ⟨.refl _, .refl _, .nil⟩

/-- So do the items at every place. -/
theorem runsAlike_itemsAt (dialect : Dialect) (place : Place) :
    RunsAlike config bound (itemsAt bodies dialect place) (itemsAt bodies' dialect place) :=
  (runsAlike_item (runsAlike_statementsAt h dialect place)).all
    (advances_item (advances_statementsAt bodies dialect place))

end Rules

/-- A token that is too short for two brackets has no interior to be read. -/
theorem interior_eq_of_length_lt {token : Token} (h : token.value.length < 2) (p p' : Parser α)
    (config : LexerConfig) : interior p config token = interior p' config token :=
  interior_eq_of_runsAlike fun _ hbound => absurd hbound (by omega)

/-- On the way through the interior of a token the items of a block ask for bodies only inside of
tokens that are two characters shorter. -/
theorem interior_blockItems_eq {token : Token}
    (h : bodies.MatchInside config token.value.length bodies') (dialect : Dialect) :
    interior (blockItems bodies dialect) config token =
      interior (blockItems bodies' dialect) config token := by
  rw [blockItems_eq, blockItems_eq]
  exact interior_eq_of_runsAlike fun _ hbound => runsAlike_itemsAt (hbound ▸ h) dialect .block

/-- So do the items of a media rule. -/
theorem interior_mediaItems_eq {token : Token}
    (h : bodies.MatchInside config token.value.length bodies') (dialect : Dialect) :
    interior (mediaItems bodies dialect) config token =
      interior (mediaItems bodies' dialect) config token :=
  interior_eq_of_runsAlike fun _ hbound => runsAlike_itemsAt (hbound ▸ h) dialect .media

/-- Inside a token a parser runs with bodies of as many levels as there are characters between the
brackets. -/
theorem interior_withBodies (p : Bodies → Parser α) (config : LexerConfig) (token : Token) :
    interior (withBodies p) config token =
      interior (p (.within (token.value.length - 2))) config token := by
  unfold Parser.interior runInside
  cases hinterior : token.interior with
  | none => rfl
  | some inside =>
    obtain ⟨text, origin⟩ := inside
    dsimp only
    cases htokens : tokensOf config text origin with
    | error error => rfl
    | ok tokens =>
      have hlength := length_spelling_of_interior hinterior htokens
      have hdepth : token.value.length - 2 = (spelling (splitSymbolRuns tokens)).length := by omega
      rw [hdepth]
      rfl

namespace Bodies

/-- A limit that a token of the length cannot reach makes no difference inside of it. -/
theorem within_matchInside {length depth : Nat} (h : length ≤ depth + 2) :
    MatchInside config length (within depth) unlimited := by
  induction length using Nat.strong_induction_on generalizing depth with
  | _ length ih =>
    -- Both limits are out of reach inside the token, so both bodies are those without a limit.
    have hbody {p : Bodies → Parser (List Node)} {token : Token} {d : Nat}
        (hp : ∀ {bodies bodies' : Bodies}, MatchInside config token.value.length bodies bodies' →
          interior (p bodies) config token = interior (p bodies') config token)
        (htoken : token.value.length + 2 ≤ length) (hd : token.value.length ≤ d + 2) :
        interior (p (within d)) config token = interior (withBodies p) config token := by
      have hown := ih token.value.length (by omega) hd
      have hbetween := ih token.value.length (by omega)
        (by omega : token.value.length ≤ token.value.length - 2 + 2)
      rw [interior_withBodies]
      exact hp (hown.trans hbetween.symm)
    cases depth with
    | zero =>
      exact ⟨fun _ {token} htoken => interior_eq_of_length_lt (by omega) _ _ _,
        fun _ {token} htoken => interior_eq_of_length_lt (by omega) _ _ _,
        fun _ {token} htoken => interior_eq_of_length_lt (by omega) _ _ _⟩
    | succ depth =>
      exact ⟨fun dialect {token} htoken =>
          hbody (fun hbodies => interior_blockItems_eq hbodies dialect) htoken (by omega),
        fun dialect {token} htoken =>
          hbody (fun hbodies => interior_mediaItems_eq hbodies dialect) htoken (by omega),
        fun dialect {token} htoken => rfl⟩

/-- Bodies without a limit satisfy the equations. -/
theorem unlimited_solves : unlimited.Solves := by
  refine ⟨fun dialect config token => ?_, fun dialect config token => ?_, fun _ _ _ => rfl⟩
  · rw [unlimited, interior_withBodies]
    exact interior_blockItems_eq (within_matchInside (by omega)) dialect
  · rw [unlimited, interior_withBodies]
    exact interior_mediaItems_eq (within_matchInside (by omega)) dialect

/-- Any two solutions read every token alike: what is asked for inside of it is asked inside of
shorter ones. -/
theorem Solves.matchInside (h : bodies.Solves) (h' : bodies'.Solves) (config : LexerConfig)
    (length : Nat) : MatchInside config length bodies bodies' := by
  induction length using Nat.strong_induction_on with
  | _ length ih =>
    refine ⟨fun dialect {token} htoken => ?_, fun dialect {token} htoken => ?_,
      fun dialect {token} htoken => ?_⟩
    · rw [h.block, h'.block]
      exact interior_blockItems_eq (ih token.value.length (by omega)) dialect
    · rw [h.media, h'.media]
      exact interior_mediaItems_eq (ih token.value.length (by omega)) dialect
    · rw [h.page, h'.page]

/-- A limit that the text cannot reach makes no difference to any solution. -/
theorem Solves.within_matchInside (h : bodies.Solves) {length depth : Nat}
    (hdepth : length ≤ depth + 2) : MatchInside config length (within depth) bodies :=
  (Bodies.within_matchInside hdepth).trans (unlimited_solves.matchInside h config length)

/-- With any solution an item at any place runs as with bodies of as many levels as the text has
characters. -/
theorem Solves.item_run_eq (h : bodies.Solves) (dialect : Dialect) (place : Place)
    (region : Region) (rest : List Token) :
    (item (firstOf (statementsAt (within (spelling rest).length) dialect place))).run region rest =
      (item (firstOf (statementsAt bodies dialect place))).run region rest :=
  (runsAlike_item (runsAlike_statementsAt (h.within_matchInside (Nat.le_refl _)) dialect
    place)).run_eq rfl (Nat.le_refl _)

/-- So do all items of a list. -/
theorem Solves.itemsAt_run_eq (h : bodies.Solves) (dialect : Dialect) (place : Place)
    (region : Region) (rest : List Token) :
    (itemsAt (within (spelling rest).length) dialect place).run region rest =
      (itemsAt bodies dialect place).run region rest :=
  (runsAlike_itemsAt (h.within_matchInside (Nat.le_refl _)) dialect place).run_eq rfl
    (Nat.le_refl _)

/-- A stylesheet is read by any solution. -/
theorem Solves.stylesheet_run_eq (h : bodies.Solves) (dialect : Dialect) (region : Region)
    (rest : List Token) :
    (stylesheet dialect).run region rest = (stylesheetItems bodies dialect).run region rest := by
  change (stylesheetItems (within (spelling rest).length) dialect).run region rest = _
  rw [stylesheetItems_eq, stylesheetItems_eq]
  exact h.itemsAt_run_eq dialect .sheet region rest

end Bodies

end Grammar

end StyleSyntax
