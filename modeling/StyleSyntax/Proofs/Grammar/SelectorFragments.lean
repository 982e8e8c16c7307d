import Mathlib.Data.List.Chain
import StyleSyntax.Proofs.Grammar.Keywords
import StyleSyntax.Proofs.Grammar.PlainSelectors
import StyleSyntax.Proofs.Grammar.SolidPhrases
import StyleSyntax.Proofs.Lexer.Lexemes
import StyleSyntax.Proofs.Parser.Success

/-!
# The fragments of a selector

The fragments of a selector are the pieces of its compound selectors, each written without a gap,
and what joins two of these: a combinator sign without the gaps around it, or one space for a whole
gap. So the fragments together are the text of the selector with its gaps condensed, and behind what
joins stands a piece. No piece looks like what joins, since it begins with a literal, a bracket or
a sign of its own.
-/

namespace StyleSyntax

/-- Runs on the split tokens of a text, with any errors. -/
def Setting.lexed : Setting where
  scope _ rest := ∃ config, IsLexed config rest
  admits _ := True
  scope_append := fun ⟨config, h⟩ => ⟨config, h.of_append⟩
  scope_interior _ _ hinner := ⟨_, _, _, _, hinner, List.infix_rfl⟩
  admits_within _ := trivial
  admits_expectedAt _ _ := trivial
  admits_unexpectedAt _ := trivial
  admits_emptyList _ _ := trivial
  admits_emptyList_finish _ _ := trivial
  admits_unexpectedEnd _ _ := trivial
  admits_lexical _ _ _ := trivial

namespace Grammar

open StyleSyntax.Parser

variable {setting : Setting} {config : LexerConfig} {tokens block between gap : List Token}
  {text : Text} {fragments : List Text}

/-- A sign that joins compound selectors. -/
def isCombinatorSign (token : Token) : Bool :=
  token.isSymbol ['>'] || token.isSymbol ['+'] || token.isSymbol ['~']

/-- The text of the tokens with their gaps condensed: next to a combinator sign nothing is left of a
gap, and elsewhere one space. What the gap is next to is known at its last token, from the
significant token before it. -/
def condensed (previous : Option Token) : List Token → Text
  | [] => []
  | token :: rest =>
    if token.isTrivia then
      if previous.any isCombinatorSign ||
          rest.head?.any (fun next => next.isTrivia || isCombinatorSign next) then
        condensed previous rest
      else ' ' :: condensed previous rest
    else token.value ++ condensed (some token) rest

/-- The characters of the signs in pieces of compound selectors. -/
def pieceSigns : Text := ['#', '.', ':', '*', '&', '-']

/-- A token that may stand in a piece of a compound selector: a literal, brackets or a sign that is
no combinator. -/
def isPieceToken (token : Token) : Bool :=
  token.kind == .literal || token.kind.isBracketed ||
    token.kind == .symbol && token.value.all (pieceSigns.contains ·)

/-- The tokens of one piece of a compound selector. -/
structure IsPiece (tokens : List Token) : Prop where
  ne_nil : tokens ≠ []
  forall_mem : ∀ token ∈ tokens, isPieceToken token

/-- The tokens between two compound selectors, with the fragment that stands for them. -/
inductive IsJoint : List Token → Text → Prop
  | sign {before after : List Token} {token : Token} (hbefore : AllTrivia before)
      (htoken : isCombinatorSign token) (hafter : AllTrivia after) :
      IsJoint (before ++ token :: after) token.value
  | descent {gap : List Token} (hne : gap ≠ []) (hgap : AllTrivia gap) : IsJoint gap [' ']

/-- The tokens of pieces with their fragments, where what joins stands right before a piece. -/
inductive HasFragments : List Token → List Text → Prop
  | nil : HasFragments [] []
  | piece {block tokens : List Token} {fragments : List Text} (hblock : IsPiece block)
      (hmore : HasFragments tokens fragments) :
      HasFragments (block ++ tokens) (spelling block :: fragments)
  | joint {between block tokens : List Token} {text : Text} {fragments : List Text}
      (hbetween : IsJoint between text) (hblock : IsPiece block)
      (hmore : HasFragments tokens fragments) :
      HasFragments (between ++ (block ++ tokens)) (text :: spelling block :: fragments)

/-! ## Pieces and joints -/

/-- Tokens of pieces are significant and no combinators. -/
theorem isSignificant_of_isPieceToken {token : Token} (h : isPieceToken token) :
    token.isSignificant ∧ isCombinatorSign token = false := by
  obtain ⟨kind, value, position⟩ := token
  rw [← Bool.not_eq_true]
  refine ⟨?_, fun hsign => ?_⟩
  · cases kind <;> first | rfl | cases h
  · simp only [isCombinatorSign, Token.isSymbol, Bool.or_eq_true, Bool.and_eq_true,
      beq_iff_eq] at hsign
    rcases hsign with (⟨rfl, rfl⟩ | ⟨rfl, rfl⟩) | ⟨rfl, rfl⟩ <;> cases h

/-- Combinator signs are significant. -/
theorem isSignificant_of_isCombinatorSign {token : Token} (h : isCombinatorSign token) :
    token.isSignificant := by
  rw [isCombinatorSign, Bool.or_eq_true, Bool.or_eq_true] at h
  rcases h with (h | h) | h <;> exact isSignificant_of_isSymbol h

/-- A piece begins with one of its tokens. -/
theorem IsPiece.exists_cons (h : IsPiece block) :
    ∃ first more, block = first :: more ∧ isPieceToken first := by
  obtain ⟨first, more, rfl⟩ := List.exists_cons_of_ne_nil h.ne_nil
  exact ⟨first, more, rfl, h.forall_mem first List.mem_cons_self⟩

/-- A piece has no trivia. -/
theorem IsPiece.isSignificant (h : IsPiece block) : ∀ token ∈ block, token.isSignificant :=
  fun token htoken => (isSignificant_of_isPieceToken (h.forall_mem token htoken)).1

/-- The gap before a compound selector belongs to what joins it. -/
theorem IsJoint.append (h : IsJoint between text) (hgap : AllTrivia gap) :
    IsJoint (between ++ gap) text := by
  cases h with
  | sign hbefore htoken hafter =>
    rw [List.append_assoc, List.cons_append]
    exact .sign hbefore htoken (List.forall_mem_append.mpr ⟨hafter, hgap⟩)
  | descent hne hbetween =>
    exact .descent (by simp [hne]) (List.forall_mem_append.mpr ⟨hbetween, hgap⟩)

/-- Pieces may be put before what has fragments. -/
theorem HasFragments.pieces (h : HasFragments tokens fragments) {blocks : List (List Token)}
    (hblocks : ∀ block ∈ blocks, IsPiece block) :
    HasFragments (blocks.flatten ++ tokens) (blocks.map spelling ++ fragments) := by
  induction blocks with
  | nil => exact h
  | cons block blocks ih =>
    rw [List.forall_mem_cons] at hblocks
    rw [List.flatten_cons, List.append_assoc]
    exact .piece hblocks.1 (ih hblocks.2)

/-! ## The condensed text -/

/-- A significant token stands as it is. -/
theorem condensed_cons {token : Token} (h : token.isSignificant) (previous : Option Token)
    (rest : List Token) :
    condensed previous (token :: rest) = token.value ++ condensed (some token) rest := by
  rw [condensed, isTrivia_eq_false_of_significant h]
  rfl

/-- Before a significant token a gap leaves one space, or nothing next to a combinator sign. -/
theorem condensed_gap (hgap : AllTrivia gap) {next : Token} (hnext : next.isSignificant)
    (previous : Option Token) (rest : List Token) :
    condensed previous (gap ++ next :: rest) =
      (if gap = [] ∨ previous.any isCombinatorSign ∨ isCombinatorSign next then [] else [' ']) ++
        condensed previous (next :: rest) := by
  induction gap with
  | nil => simp
  | cons token gap ih =>
    obtain ⟨htoken, hgap⟩ := List.forall_mem_cons.mp hgap
    rw [List.cons_append, condensed, if_pos htoken, ih hgap]
    -- Only the last token of the gap sees the significant token behind it.
    cases gap with
    | nil =>
      simp only [List.nil_append, List.head?_cons, Option.any_some, List.cons_ne_nil, false_or,
        isTrivia_eq_false_of_significant hnext, Bool.false_or, Bool.or_eq_true, true_or, if_true]
      split_ifs <;> rfl
    | cons other gap =>
      have hother : other.isTrivia := hgap other List.mem_cons_self
      simp [hother]

/-- A piece stands as it is, and what stands before it does not matter behind it. -/
theorem condensed_piece (h : IsPiece block) (previous : Option Token) (rest : List Token) :
    ∃ last : Option Token, last.any isCombinatorSign = false ∧
      condensed previous (block ++ rest) = spelling block ++ condensed last rest := by
  obtain ⟨hne, hall⟩ := h
  induction block generalizing previous with
  | nil => exact absurd rfl hne
  | cons token block ih =>
    obtain ⟨htoken, hblock⟩ := List.forall_mem_cons.mp hall
    obtain ⟨hsignificant, hsign⟩ := isSignificant_of_isPieceToken htoken
    rw [List.cons_append, condensed_cons hsignificant, spelling_cons]
    cases block with
    | nil => exact ⟨some token, hsign, by simp⟩
    | cons _ _ =>
      obtain ⟨last, hlast, heq⟩ := ih (some token) (List.cons_ne_nil _ _) hblock
      exact ⟨last, hlast, by rw [heq, List.append_assoc]⟩

/-- What joins two compound selectors is condensed to its fragment. -/
theorem IsJoint.exists_condensed (h : IsJoint between text) (hblock : IsPiece block)
    {previous : Option Token} (hprevious : previous.any isCombinatorSign = false)
    (rest : List Token) :
    ∃ before, condensed previous (between ++ (block ++ rest)) =
      text ++ condensed before (block ++ rest) := by
  obtain ⟨first, more, rfl, hfirst⟩ := hblock.exists_cons
  obtain ⟨hsignificant, hsign⟩ := isSignificant_of_isPieceToken hfirst
  cases h with
  | @sign before after token hbefore htoken hafter =>
    refine ⟨some token, ?_⟩
    have htokenSignificant := isSignificant_of_isCombinatorSign htoken
    rw [List.append_assoc, List.cons_append, condensed_gap hbefore htokenSignificant,
      if_pos (.inr (.inr htoken)), List.nil_append, condensed_cons htokenSignificant,
      List.cons_append, condensed_gap hafter hsignificant, if_pos (.inr (.inl htoken)),
      List.nil_append]
  | descent hne hgap =>
    refine ⟨previous, ?_⟩
    rw [List.cons_append, condensed_gap hgap hsignificant, if_neg (by simp [hne, hprevious, hsign])]

/-- Behind anything but a combinator sign the condensed text is that of the fragments. -/
theorem HasFragments.condensed_eq (h : HasFragments tokens fragments) {previous : Option Token}
    (hprevious : previous.any isCombinatorSign = false) :
    condensed previous tokens = fragments.flatten := by
  induction h generalizing previous with
  | nil => rfl
  | @piece block tokens fragments hblock _ ih =>
    obtain ⟨last, hlast, heq⟩ := condensed_piece hblock previous tokens
    rw [heq, ih hlast, List.flatten_cons]
  | @joint between block tokens text fragments hbetween hblock _ ih =>
    -- What joins may be a sign, but the piece behind it hides it from what is left.
    obtain ⟨before, hjoint⟩ := hbetween.exists_condensed hblock hprevious tokens
    obtain ⟨last, hlast, hpiece⟩ := condensed_piece hblock before tokens
    rw [hjoint, hpiece, ih hlast, List.flatten_cons, List.flatten_cons]

/-! ## What joins among the fragments -/

/-- The texts of what joins compound selectors. -/
def jointTexts : List Text := [['>'], ['+'], ['~'], [' ']]

/-- A token of a piece begins with another character than what joins. -/
theorem exists_first_of_isPieceToken {token : Token} (hlexed : IsLexed config tokens)
    (htoken : token ∈ tokens) (h : isPieceToken token) :
    ∃ c more, token.value = c :: more ∧ c ∉ [' ', '>', '+', '~'] := by
  by_cases hkind : token.kind = .symbol
  · obtain ⟨c, hvalue⟩ := hlexed.exists_value_eq htoken hkind
    have hsign : c ∈ pieceSigns := by
      simpa [isPieceToken, hkind, hvalue, TokenKind.isBracketed] using h
    have hsigns : ∀ d ∈ pieceSigns, d ∉ [' ', '>', '+', '~'] := by simp [pieceSigns]
    exact ⟨c, [], hvalue, hsigns c hsign⟩
  · obtain ⟨_, _, lexed, htokens, hpart⟩ := hlexed
    obtain ⟨hne, rest, hscan⟩ := exists_scan_of_mem_tokensOf htokens
      (mem_of_mem_splitSymbolRuns (hpart.subset htoken) hkind)
    obtain ⟨c, more, hvalue⟩ := List.exists_cons_of_ne_nil hne
    rw [hvalue, List.cons_append] at hscan
    have hbegins := TokenKind.begins_of_scan_of_ne hkind hscan
    refine ⟨c, more, hvalue, fun hc => ?_⟩
    have hnone : ∀ d ∈ [' ', '>', '+', '~'], ∀ kind : TokenKind,
        kind = .literal ∨ kind.isBracketed → kind.begins d = false := by
      simp only [List.forall_mem_cons]
      refine ⟨?_, ?_, ?_, ?_, by simp⟩ <;> rintro (_ | _) <;> decide
    have hpiece : token.kind = .literal ∨ token.kind.isBracketed := by
      simpa [isPieceToken, hkind] using h
    rw [hnone c hc token.kind hpiece] at hbegins
    cases hbegins

/-- The text of a piece is no text of what joins. -/
theorem IsPiece.notMem_jointTexts (h : IsPiece block) (hlexed : IsLexed config block) :
    spelling block ∉ jointTexts := by
  obtain ⟨first, later, rfl, hfirst⟩ := h.exists_cons
  obtain ⟨c, more, hvalue, hc⟩ := exists_first_of_isPieceToken hlexed List.mem_cons_self hfirst
  have hbegins : ∀ text ∈ jointTexts, ∀ d ∈ text.head?, d ∈ [' ', '>', '+', '~'] := by
    simp [jointTexts]
  intro hmem
  exact hc (hbegins _ hmem c (by simp [hvalue]))

/-- Two of what joins are never neighbours, and none is last. -/
structure JointsApart (fragments : List Text) : Prop where
  isChain : fragments.IsChain fun text next => text ∈ jointTexts → next ∉ jointTexts
  last : ∀ text ∈ fragments.getLast?, text ∉ jointTexts

/-- A fragment that does not join may stand first. -/
theorem JointsApart.cons (h : JointsApart fragments) (htext : text ∉ jointTexts) :
    JointsApart (text :: fragments) := by
  refine ⟨h.isChain.cons fun _ _ hjoint => absurd hjoint htext, ?_⟩
  rw [List.getLast?_cons]
  rintro _ ⟨rfl⟩
  cases hlast : fragments.getLast? with
  | none => exact htext
  | some last => exact h.last last hlast

/-- Any fragment may stand before one that does not join. -/
theorem JointsApart.cons_cons (h : JointsApart (text :: fragments)) (htext : text ∉ jointTexts)
    (first : Text) : JointsApart (first :: text :: fragments) := by
  refine ⟨h.isChain.cons ?_, ?_⟩
  · rintro _ ⟨rfl⟩ _
    exact htext
  · rw [List.getLast?_cons_cons]
    exact h.last

/-- Behind what joins stands a piece. -/
theorem HasFragments.jointsApart (h : HasFragments tokens fragments)
    (hlexed : IsLexed config tokens) : JointsApart fragments := by
  induction h with
  | nil => exact ⟨.nil, by simp⟩
  | piece hblock _ ih =>
    have hnot := hblock.notMem_jointTexts (hlexed.of_isInfix (List.prefix_append _ _).isInfix)
    exact (ih hlexed.of_append).cons hnot
  | joint _ hblock _ ih =>
    have hpiece := hlexed.of_append
    have hnot := hblock.notMem_jointTexts (hpiece.of_isInfix (List.prefix_append _ _).isInfix)
    exact ((ih hpiece.of_append).cons hnot).cons_cons hnot _

/-- Every fragment is one space, or the text of neighbours among the tokens without any trivia. -/
theorem HasFragments.exists_block (h : HasFragments tokens fragments) (htext : text ∈ fragments) :
    text = [' '] ∨ ∃ block, block <:+: tokens ∧ (∀ token ∈ block, token.isSignificant) ∧
      text = spelling block := by
  induction h with
  | nil => cases htext
  | @piece block tokens fragments hblock _ ih =>
    rcases List.mem_cons.mp htext with rfl | htext
    · exact .inr ⟨block, (List.prefix_append _ _).isInfix, hblock.isSignificant, rfl⟩
    · refine (ih htext).imp_right fun ⟨found, hfound, hsignificant⟩ => ?_
      exact ⟨found, hfound.trans (List.suffix_append _ _).isInfix, hsignificant⟩
  | @joint between block tokens text' fragments hbetween hblock _ ih =>
    rcases List.mem_cons.mp htext with rfl | htext
    · cases hbetween with
      | @sign before after token _ htoken _ =>
        refine .inr ⟨[token], ⟨before, after ++ (block ++ tokens), by simp⟩, ?_, by simp⟩
        simpa using isSignificant_of_isCombinatorSign htoken
      | descent => exact .inl rfl
    rcases List.mem_cons.mp htext with rfl | htext
    · exact .inr ⟨block, ⟨between, tokens, by simp⟩, hblock.isSignificant, rfl⟩
    · refine (ih htext).imp_right fun ⟨found, hfound, hsignificant⟩ => ?_
      exact ⟨found, hfound.trans ⟨between ++ block, [], by simp⟩, hsignificant⟩

/-! ## What the parsers consume -/

/-- Signs of pieces may stand in pieces. -/
theorem isPieceToken_of_subset (htext : text ⊆ pieceSigns) {token : Token}
    (hkind : token.kind = .symbol) (hvalue : token.value ⊆ text) : isPieceToken token := by
  rw [isPieceToken, hkind, all_contains_of_subset htext hvalue]
  rfl

/-- Units of identifiers may stand in pieces. -/
theorem isPieceToken_of_isUnit {token : Token} (h : isUnit token) : isPieceToken token := by
  rcases unit_cases h with ⟨hkind, -⟩ | ⟨hkind, hvalue⟩
  · simp [isPieceToken, hkind]
  · exact isPieceToken_of_subset (by simp [pieceSigns]) hkind hvalue

/-- Tokens of pieces are what stands in id, class, attribute and pseudo selectors. -/
theorem passesPieces_isPieceToken (dialect : Dialect) :
    PassesPieces dialect fun token => token.isTrivia || isPieceToken token where
  trivia token h := by simp [h]
  name token h := by
    have hpiece : isPieceToken token := by
      rcases isIdentifierToken_cases h with hunit | hkind | hbraces
      · exact isPieceToken_of_isUnit hunit
      · simp [isPieceToken, hkind]
      · obtain ⟨kind, value, position⟩ := token
        cases kind <;> first | rfl | cases hbraces
    simp [hpiece]
  sign token hkind hvalue := by
    simp [isPieceToken_of_subset (by simp [subclassSigns, pieceSigns]) hkind hvalue]
  brackets token hkind := by
    rcases hkind with hkind | hkind <;> simp [isPieceToken, hkind, TokenKind.isBracketed]

/-- What has no gap but the one before it, and only tokens of pieces, is a piece. -/
theorem isPiece_of_isSolid {used : List Token} (hends : EndsSignificant used)
    (hsolid : IsSolid used) (hall : ∀ token ∈ used, token.isTrivia || isPieceToken token) :
    IsPiece (dropTrivia used) := by
  refine ⟨hends.dropTrivia.ne_nil, fun token htoken => ?_⟩
  have htest := hall token ((List.dropWhile_sublist _).subset htoken)
  rwa [isTrivia_eq_false_of_significant (hsolid token htoken), Bool.false_or] at htest

/-- An element name is a piece behind a gap. -/
theorem keeps_elementName_piece (dialect : Dialect) :
    (elementName dialect).Keeps setting fun _ used _ text =>
      ∃ gap block, used = gap ++ block ∧ AllTrivia gap ∧ IsPiece block ∧ text = spelling block := by
  have hname : ((identifier dialect).map Excerpt.text).Keeps setting fun _ used _ text =>
      ∃ gap block, used = gap ++ block ∧ AllTrivia gap ∧ IsPiece block ∧
        text = spelling block := by
    have hpasses := passesPieces_isPieceToken dialect
    refine Keeps.map ((((keeps_identifier dialect).and (keeps_identifier_solid dialect)).and
      (keeps_identifier_tokens hpasses.trivia hpasses.name)).mono ?_)
    rintro region used next name ⟨⟨hname, hsolid⟩, hall⟩
    obtain ⟨gap, hused, hgap⟩ := exists_gap used
    obtain ⟨first, more, hfirst, -, rfl⟩ := hname.begins
    exact ⟨gap, dropTrivia used, hused, hgap,
      isPiece_of_isSolid (Excerpt.IsOf.endsSignificant hname) hsolid hall, rfl⟩
  have hsign {c : Char} (hc : c ∈ pieceSigns) : (symbol [c]).Keeps setting fun _ used _ text =>
      ∃ gap block, used = gap ++ block ∧ AllTrivia gap ∧ IsPiece block ∧
        text = spelling block := by
    refine (keeps_symbol [c]).mono ?_
    rintro region used next text ⟨rfl, gap, signs, rfl, hgap, hspelling, hkinds⟩
    refine ⟨gap, signs, rfl, hgap, ⟨?_, fun sign hmem => ?_⟩, hspelling.symm⟩
    · rintro rfl
      cases hspelling
    · have hsubset : [c] ⊆ pieceSigns := by simpa using hc
      refine isPieceToken_of_subset hsubset (hkinds sign hmem) fun d hd => ?_
      rw [← hspelling]
      exact List.mem_flatMap.mpr ⟨sign, hmem, hd⟩
  cases dialect with
  | css =>
    refine keeps_firstOf ?_
    simp only [List.forall_mem_cons]
    exact ⟨hname, hsign (by decide), by simp⟩
  | jss =>
    refine keeps_firstOf ?_
    simp only [List.forall_mem_cons]
    exact ⟨hname, hsign (by decide), hsign (by decide), by simp⟩

/-- Where whitespace is ruled out, an id, class, attribute or pseudo selector is a piece. -/
theorem keeps_subclassSelector_piece (dialect : Dialect) :
    (do noSpacesHere; subclassSelector dialect : Parser Text).Keeps setting fun _ used _ text =>
      IsPiece used ∧ text = spelling used := by
  refine keeps_noSpacesHere_touching.bind fun _ =>
    (((keeps_subclassSelector_solid dialect).and (keeps_subclassSelector dialect)).and
      (keeps_subclassSelector_tokens (passesPieces_isPieceToken dialect))).mono ?_
  rintro region used next text ⟨⟨⟨hsolid, rfl⟩, hends⟩, hall⟩ before ⟨rfl, hhead⟩
  have hpiece := isPiece_of_isSolid hends hsolid hall
  have hsignificant : ∀ token ∈ used, token.isSignificant :=
    hsolid.forall fun token htoken => hhead token (by
      obtain ⟨more, rfl⟩ := List.head?_eq_some_iff.mp htoken
      rfl)
  rw [dropTrivia_of_forall hsignificant] at hpiece
  exact ⟨hpiece, rfl⟩

/-- A compound selector is a gap and then pieces, of which there is one at least. -/
theorem keeps_compoundSelector_pieces (dialect : Dialect) :
    (compoundSelector dialect).Keeps setting fun _ used _ pieces =>
      ∃ gap block blocks, used = gap ++ (block ++ List.flatten blocks) ∧ AllTrivia gap ∧
        (∀ part ∈ block :: blocks, IsPiece part) ∧ pieces = (block :: blocks).map spelling := by
  have hothers : (many (do noSpacesHere; subclassSelector dialect)).Keeps setting
      fun _ used _ pieces => ∃ blocks, used = List.flatten blocks ∧
        (∀ part ∈ blocks, IsPiece part) ∧ pieces = blocks.map spelling := by
    refine (keeps_subclassSelector_piece dialect).many (fun _ _ => ⟨[], rfl, by simp, rfl⟩) ?_
    rintro region used between next text texts ⟨hpiece, rfl⟩ ⟨blocks, rfl, hblocks, rfl⟩
    exact ⟨used :: blocks, rfl, List.forall_mem_cons.mpr ⟨hpiece, hblocks⟩, rfl⟩
  refine Keeps.attempt (keeps_skipTrivia.bind fun _ =>
    (keeps_elementName_piece dialect).optional.bind fun element => hothers.bind fun others => ?_)
  dsimp only
  split_ifs with hempty
  · exact keeps_expected _
  refine keeps_pure ?_
  rintro region next after ⟨blocks, rfl, hblocks, rfl⟩ name hname gap hgap
  rw [List.append_nil]
  cases element with
  | none =>
    obtain rfl : name = [] := hname
    cases blocks with
    | nil => exact absurd rfl hempty
    | cons block blocks => exact ⟨gap, block, blocks, rfl, hgap, hblocks, rfl⟩
  | some text =>
    obtain ⟨more, block, rfl, hmore, hblock, rfl⟩ := hname
    exact ⟨gap ++ more, block, blocks, by simp, List.forall_mem_append.mpr ⟨hgap, hmore⟩,
      List.forall_mem_cons.mpr ⟨hblock, hblocks⟩, rfl⟩

/-- In the tokens of a text a combinator is one sign behind a gap. -/
theorem keeps_combinator_sign :
    combinator.Keeps .lexed fun _ used _ text =>
      ∃ gap sign, used = gap ++ [sign] ∧ AllTrivia gap ∧ isCombinatorSign sign ∧
        text = sign.value := by
  constructor
  rintro region rest ⟨config, hlexed⟩
  rcases oneOfSymbols_run_cases region rest [['>'], ['+'], ['~']] with
    ⟨text, htext, next, hafter, hrun⟩ | ⟨error, next, hrun, -⟩
  · obtain ⟨gap, hrest, hgap⟩ := exists_gap rest
    obtain ⟨c, rfl, hsign⟩ : ∃ c, text = [c] ∧
        ∀ sign : Token, sign.isSymbol [c] → isCombinatorSign sign := by
      simp only [List.mem_cons, List.not_mem_nil, or_false] at htext
      rcases htext with rfl | rfl | rfl
      · exact ⟨'>', rfl, fun sign hsign => by simp [isCombinatorSign, hsign]⟩
      · exact ⟨'+', rfl, fun sign hsign => by simp [isCombinatorSign, hsign]⟩
      · exact ⟨'~', rfl, fun sign hsign => by simp [isCombinatorSign, hsign]⟩
    obtain ⟨sign, hbehind, hsymbol⟩ :=
      (hlexed.of_isInfix (List.dropWhile_suffix _).isInfix).exists_sign hafter
    rw [combinator, hrun]
    refine ⟨gap ++ [sign], ?_, gap, sign, rfl, hgap, hsign sign hsymbol, ?_⟩
    · rw [List.append_assoc, List.singleton_append, ← hbehind]
      exact hrest
    · rw [Token.isSymbol, Bool.and_eq_true, beq_iff_eq, beq_iff_eq] at hsymbol
      exact hsymbol.2.symm
  · rw [combinator, hrun]
    trivial

/-- What joins two compound selectors is read with its fragment. -/
theorem keeps_joint_isJoint :
    joint.Keeps .lexed fun _ used _ text => IsJoint used text := by
  refine keeps_firstOf ?_
  simp only [List.forall_mem_cons]
  refine ⟨keeps_combinator_sign.mono ?_, Keeps.map (keeps_trivia.mono ?_), by simp⟩
  · rintro region used next text ⟨gap, sign, rfl, hgap, hsign, rfl⟩
    exact .sign hgap hsign (by simp [AllTrivia])
  · rintro region used next excerpt ⟨hgap, -, first, more, rfl, -⟩
    exact .descent (List.cons_ne_nil _ _) hgap

/-- Further compound selectors have the fragments of their tokens, each behind what joins it. -/
theorem keeps_further_hasFragments (dialect : Dialect) :
    (separated joint (compoundSelector dialect)).Keeps .lexed fun _ used _ others =>
      HasFragments used (others.flatMap fun (sign, pieces) => sign :: pieces) := by
  refine keeps_joint_isJoint.separated (keeps_compoundSelector_pieces dialect) ?_
    (fun _ _ => .nil) ?_
  · rintro region used next pieces ⟨gap, block, blocks, rfl, -, hblocks, -⟩
    simp [(hblocks block List.mem_cons_self).ne_nil]
  · rintro region before used between next sign pieces others hjoint
      ⟨gap, block, blocks, rfl, hgap, hparts, rfl⟩ hmore
    obtain ⟨hblock, hblocks⟩ := List.forall_mem_cons.mp hparts
    have hall := HasFragments.joint (hjoint.append hgap) hblock (hmore.pieces hblocks)
    simpa using hall

/-- In the extended language one combinator sign may lead. -/
theorem keeps_leadingCombinator_sign (dialect : Dialect) :
    (leadingCombinator dialect).Keeps .lexed fun _ used _ leading =>
      used = [] ∧ leading = [] ∨ dialect = .jss ∧ ∃ gap sign, used = gap ++ [sign] ∧
        AllTrivia gap ∧ isCombinatorSign sign ∧ leading = [sign.value] := by
  cases dialect with
  | css => exact keeps_pure fun _ _ => .inl ⟨rfl, rfl⟩
  | jss =>
    refine keeps_combinator_sign.optional.bind fun found => keeps_pure ?_
    intro region next used hused
    rw [List.append_nil]
    cases found with
    | none => exact .inl ⟨hused, rfl⟩
    | some text =>
      obtain ⟨gap, sign, rfl, hgap, hsign, rfl⟩ := hused
      exact .inr ⟨rfl, gap, sign, rfl, hgap, hsign, rfl⟩

/-- A selector has the fragments of its tokens behind the gap, and in the plain language a piece is
first. -/
theorem keeps_selectorFragments_hasFragments (dialect : Dialect) :
    (selectorFragments dialect).Keeps .lexed fun _ used _ fragments =>
      HasFragments (dropTrivia used) fragments ∧
        (dialect = .css → ∃ block more, IsPiece block ∧ block <+: dropTrivia used ∧
          fragments = spelling block :: more) := by
  refine (keeps_leadingCombinator_sign dialect).bind fun leading =>
    (keeps_compoundSelector_pieces dialect).bind fun first =>
      (keeps_further_hasFragments dialect).bind fun others => keeps_pure ?_
  rintro region next after hmore _ ⟨gap, block, blocks, rfl, hgap, hparts, rfl⟩ before hleading
  obtain ⟨hblock, hblocks⟩ := List.forall_mem_cons.mp hparts
  rw [List.append_nil]
  -- The gap at the front is dropped. Behind a leading sign the gap belongs to what joins.
  rcases hleading with ⟨rfl, rfl⟩ | ⟨rfl, behind, sign, rfl, hbehind, hsign, rfl⟩
  · obtain ⟨start, later, rfl, hstart⟩ := hblock.exists_cons
    have hused : dropTrivia ([] ++ (gap ++ (start :: later ++ blocks.flatten) ++ after)) =
        (start :: later) ++ (blocks.flatten ++ after) := by
      simpa using dropTrivia_gap hgap (isSignificant_of_isPieceToken hstart).1 _
    rw [hused]
    have hall := HasFragments.piece hblock (hmore.pieces hblocks)
    exact ⟨by simpa using hall, fun _ => ⟨start :: later, _, hblock, List.prefix_append _ _, rfl⟩⟩
  · have hused : dropTrivia (behind ++ [sign] ++ (gap ++ (block ++ blocks.flatten) ++ after)) =
        ([] ++ sign :: gap) ++ (block ++ (blocks.flatten ++ after)) := by
      simpa using dropTrivia_gap hbehind (isSignificant_of_isCombinatorSign hsign) _
    rw [hused]
    have hjoint : IsJoint ([] ++ sign :: gap) sign.value := .sign (by simp [AllTrivia]) hsign hgap
    have hall := HasFragments.joint hjoint hblock (hmore.pieces hblocks)
    exact ⟨by simpa using hall, by simp⟩

/-- A selector has fragments. Together they are the text of its tokens, from the first significant
one on, with the gaps condensed, and its source is that text as it stands. A fragment is one space
or the text of neighbours without trivia. What joins has a piece behind it, and is first in the
extended language alone. -/
theorem selector_run_fragments {dialect : Dialect} {region : Region} {rest next : List Token}
    {found : Selector} (hlexed : IsLexed config rest)
    (h : (selector dialect).run region rest = ⟨.ok found, next⟩) :
    ∃ used, rest = used ++ next ∧ found.fragments ≠ [] ∧
      condensed none (dropTrivia used) = found.fragments.flatten ∧
      found.source.text = spelling (dropTrivia used) ∧
      (∀ text ∈ found.fragments, text = [' '] ∨ ∃ block, block <:+: dropTrivia used ∧
        (∀ token ∈ block, token.isSignificant) ∧ text = spelling block) ∧
      JointsApart found.fragments ∧
      ∀ text ∈ found.fragments.head?, text ∈ jointTexts → dialect = .jss := by
  have hkeeps : (selector dialect).Keeps .lexed fun _ used _ found =>
      (HasFragments (dropTrivia used) found.fragments ∧
        (dialect = .css → ∃ block more, IsPiece block ∧ block <+: dropTrivia used ∧
          found.fragments = spelling block :: more)) ∧
      found.fragments ≠ [] ∧ found.source.IsOf (dropTrivia used) :=
    Keeps.bind_capture _
      ((keeps_selectorFragments_hasFragments dialect).and (keeps_selectorFragments dialect))
      (fun _ _ _ _ h => h.2.2) fun _ _ _ _ _ hparts hsource => ⟨hparts.1, hparts.2.1, hsource⟩
  obtain ⟨used, rfl, ⟨hfragments, hplain⟩, hne, hsource⟩ :=
    hkeeps.exists_used_of_scope ⟨config, hlexed⟩ h
  have hused : IsLexed config (dropTrivia used) := hlexed.of_isInfix <|
    (List.dropWhile_suffix _).isInfix.trans (List.prefix_append used next).isInfix
  refine ⟨used, rfl, hne, hfragments.condensed_eq rfl, ?_, fun _ => hfragments.exists_block,
    hfragments.jointsApart hused, ?_⟩
  · obtain ⟨_, _, -, -, hsource⟩ := hsource.begins
    rw [hsource]
  · intro text htext hjoint
    cases dialect with
    | jss => rfl
    | css =>
      obtain ⟨block, more, hblock, hbegins, hmore⟩ := hplain rfl
      rw [hmore] at htext
      obtain rfl := Option.some.inj htext
      exact absurd hjoint (hblock.notMem_jointTexts (hused.of_isInfix hbegins.isInfix))

/-- A combinator that leads, a comment between two spaces, brackets with a gap inside, and an
interpolation right behind a combinator; the last space is left. -/
theorem selector_run_fragments_led :
    let text := "/**/ > a.b /*,*/\n[c d] ~$\x7be\x7d ".toList
    let source := "> a.b /*,*/\n[c d] ~$\x7be\x7d".toList
    let fragments := [">", "a", ".b", " ", "[c d]", "~", "$\x7be\x7d"].map String.toList
    ∃ tokens used next, tokensOf {} text .start = .ok tokens ∧
      (selector .jss).run ⟨{}, .start⟩ (splitSymbolRuns tokens) =
        ⟨.ok ⟨.jss, fragments, source, ⟨1, 6⟩⟩, next⟩ ∧
      splitSymbolRuns tokens = used ++ next ∧
      condensed none (dropTrivia used) = ">a.b [c d]~$\x7be\x7d".toList ∧
      source = spelling (dropTrivia used) ∧ JointsApart fragments := by
  intro text source fragments
  have hread : (tokensOf {} text .start).map (fun tokens => ((selector .jss).run
      ⟨{}, .start⟩ (splitSymbolRuns tokens)).outcome) =
      .ok (.ok ⟨.jss, fragments, source, ⟨1, 6⟩⟩) := by
    decide +kernel
  obtain ⟨tokens, next, htokens, hlexed, hrun⟩ := IsLexed.exists_run_of_map hread
  obtain ⟨used, hused, -, hcondensed, hsource, -, hapart, -⟩ := selector_run_fragments hlexed hrun
  exact ⟨tokens, used, next, htokens, hrun, hused, hcondensed.trans (by decide), hsource, hapart⟩

end Grammar

end StyleSyntax
