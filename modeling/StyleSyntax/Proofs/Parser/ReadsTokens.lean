import StyleSyntax.Proofs.Grammar.SharedSelectors
import StyleSyntax.Proofs.Lexer.DeepLexing
import StyleSyntax.Proofs.Parser.Reads

/-!
# Matchers that read a given text

A sign, a comma, a gap and a name are read where they stand, behind a gap or without one, and a
matcher refuses a text that begins, behind its gap, with a character that it does not look for.
-/

namespace StyleSyntax.Parser

variable {gap text next value : Text} {tokens : List Token} {kind : TokenKind} {c : Char}

/-- Behind a gap a lexeme is the first significant token. -/
theorem exists_lexeme (hgap : IsGapText gap) (hlexeme : IsLexeme kind value next)
    (hkind : kind.isTrivia = false) (h : Lexes (gap ++ value ++ next) tokens) :
    ∃ front position later, tokens = front ++ ⟨kind, value, position⟩ :: later ∧
      dropTrivia tokens = ⟨kind, value, position⟩ :: later ∧ Lexes next later := by
  rw [List.append_assoc] at h
  obtain ⟨following, hfollowing, hdrop⟩ := hgap h
  obtain ⟨position, later, rfl, hlater⟩ := hlexeme.exists_of_lexes hfollowing
  rw [dropTrivia_cons (isSignificant_of_kind hkind)] at hdrop
  obtain ⟨front, htokens, _⟩ := exists_gap tokens
  rw [hdrop] at htokens
  exact ⟨front, position, later, htokens, hdrop, hlater⟩

/-- A token of a test is read behind a gap. -/
theorem reads_tokenWhere (hgap : IsGapText gap) (hlexeme : IsLexeme kind value next)
    (hkind : kind.isTrivia = false) {test : Token → Bool}
    (htest : ∀ position, test ⟨kind, value, position⟩) (wanted : Text) :
    (tokenWhere wanted test).Reads (gap ++ value) next
      fun token => token.kind = kind ∧ token.value = value := by
  intro region tokens _ htokens
  obtain ⟨front, position, later, rfl, hdrop, hlater⟩ := exists_lexeme hgap hlexeme hkind htokens
  exact ⟨_, front ++ [⟨kind, value, position⟩], later, by simp, hlater,
    tokenWhere_run_eq_ok.mpr ⟨hdrop, htest position⟩, rfl, rfl⟩

/-- Behind one sign the others have to be spelled. -/
theorem afterSymbols_sign (c : Char) (more : Text) (position : Position) (later : List Token) :
    afterSymbols (c :: more) (⟨.symbol, [c], position⟩ :: later) = afterSymbols more later := by
  rw [afterSymbols_cons (List.cons_ne_nil _ _)]
  simp [Text.startsWith]

/-- A sign is read behind a gap. -/
theorem reads_symbol (hgap : IsGapText gap) (hc : ({} : LexerConfig).isSymbol c)
    (hsolid : isSolid c) (next : Text) :
    (symbol [c]).Reads (gap ++ [c]) next (· = [c]) := by
  intro region tokens _ htokens
  obtain ⟨front, position, later, rfl, hdrop, hlater⟩ :=
    exists_lexeme hgap (.sign hc hsolid next) rfl htokens
  refine ⟨[c], front ++ [⟨.symbol, [c], position⟩], later, by simp, hlater,
    symbol_run_eq_ok.mpr ⟨rfl, ?_⟩, rfl⟩
  rw [hdrop, afterSymbols_sign, afterSymbols]

/-- A comma is read behind a gap. -/
theorem reads_comma (hgap : IsGapText gap) (next : Text) :
    comma.Reads (gap ++ [',']) next fun _ => True :=
  (reads_tokenWhere hgap (.comma next) rfl (fun _ => rfl) _).mono fun _ _ => trivial

/-- A gap is skipped in front of a significant token. -/
theorem reads_skipTrivia (hgap : IsGapText gap) (hnext : BeginsWith (isSolid ·) next) :
    skipTrivia.Reads gap next fun _ => True := by
  intro region tokens _ htokens
  obtain ⟨front, token, later, hused, _, hdrop, hlater, _⟩ := hgap.exists_significant hnext htokens
  refine ⟨(), front, token :: later, hused, hlater, ?_, trivial⟩
  unfold skipTrivia
  dsimp only
  rw [hdrop]

/-- A space in front of a significant token is read as trivia. -/
theorem reads_trivia (hnext : BeginsWith (isSolid ·) next) :
    trivia.Reads [' '] next fun _ => True := by
  intro region tokens _ htokens
  obtain ⟨c, rest, rfl, hsolid⟩ := hnext.exists_cons
  have hlexeme : IsLexeme .space [' '] (c :: rest) := by
    refine .spaces (by simp) (List.all_iff_forall_prop.mp (by decide)) ?_
    rintro d ⟨rfl⟩
    simp only [isSolid, Bool.and_eq_true, Bool.not_eq_true'] at hsolid
    exact hsolid.1.1
  obtain ⟨position, later, rfl, hlater⟩ := hlexeme.exists_of_lexes htokens
  obtain ⟨token, more, rfl, hsignificant, _⟩ := hlater.exists_significant hsolid
  have htrivia := isTrivia_eq_false_of_significant hsignificant
  have htake : (⟨.space, [' '], position⟩ :: token :: more : List Token).takeWhile Token.isTrivia =
      [⟨.space, [' '], position⟩] := by
    rw [List.takeWhile_cons_of_pos rfl, List.takeWhile_cons_of_neg (by simp [htrivia])]
  have hdrop : dropTrivia (⟨.space, [' '], position⟩ :: token :: more) = token :: more :=
    dropTrivia_cons hsignificant more
  refine ⟨⟨[' '], position⟩, [⟨.space, [' '], position⟩], token :: more, rfl, hlater, ?_, trivial⟩
  unfold trivia
  simp only [htake, hdrop]
  rfl

/-- Trivia is read up to the next significant token, or it is refused. -/
theorem trivia_run_cases (region : Region) (tokens : List Token) :
    (∃ found, trivia.run region tokens = ⟨.ok found, dropTrivia tokens⟩) ∨
      trivia.Refuses region tokens := by
  unfold Refuses trivia
  dsimp only
  cases tokens.takeWhile Token.isTrivia with
  | nil => exact .inr ⟨_, _, rfl, isBlock_expected region _ tokens⟩
  | cons first more => exact .inl ⟨_, rfl⟩

/-- Nothing is consumed where no whitespace may stand. -/
theorem reads_noSpacesHere (hnext : BeginsWith (isSolid ·) next) :
    noSpacesHere.Reads [] next fun _ => True := by
  intro region tokens _ htokens
  obtain ⟨c, rest, rfl, hsolid⟩ := hnext.exists_cons
  obtain ⟨token, later, rfl, hsignificant, _⟩ := Lexes.exists_significant htokens hsolid
  have htrivia := isTrivia_eq_false_of_significant hsignificant
  refine ⟨(), [], token :: later, rfl, htokens, ?_, trivial⟩
  unfold noSpacesHere
  simp [htrivia]

/-- A space is refused where no whitespace may stand. -/
theorem noSpacesHere_refuses : noSpacesHere.RefusesText (' ' :: text) := by
  intro region tokens _ htokens
  obtain ⟨token, later, rfl, _, hbegins⟩ := htokens.exists_first
  have hkinds : ∀ kind : TokenKind, kind.begins ' ' → kind.isTrivia := by
    intro kind
    cases kind <;> decide
  have htrivia : token.isTrivia := hkinds _ hbegins
  refine ⟨.expectedAt "no whitespace".toList token, token :: later, ?_, rfl⟩
  unfold noSpacesHere
  simp [htrivia]

/-- Where no whitespace may stand either none stands or the tokens are refused. -/
theorem noSpacesHere_run_cases (region : Region) (tokens : List Token) :
    noSpacesHere.run region tokens = ⟨.ok (), tokens⟩ ∧ dropTrivia tokens = tokens ∨
      noSpacesHere.Refuses region tokens := by
  cases tokens with
  | nil => exact .inl ⟨rfl, rfl⟩
  | cons token later =>
    cases htrivia : token.isTrivia with
    | true =>
      refine .inr ⟨.expectedAt "no whitespace".toList token, token :: later, ?_, rfl⟩
      unfold noSpacesHere
      simp [htrivia]
    | false =>
      refine .inl ⟨?_, dropTrivia_cons (by simp [Token.isSignificant, htrivia]) later⟩
      unfold noSpacesHere
      simp [htrivia]

/-- What is refused where it stands without trivia is refused where no whitespace may stand. -/
theorem refusesText_after_noSpacesHere {α : Type} {p : Parser α}
    (h : ∀ ⦃region tokens⦄, region.config = {} → Lexes text tokens → dropTrivia tokens = tokens →
      p.Refuses region tokens) :
    (do noSpacesHere; p : Parser α).RefusesText text := by
  intro region tokens hregion htokens
  rcases noSpacesHere_run_cases region tokens with ⟨hrun, hdrop⟩ | hrefuses
  · exact Refuses.bind_of_run hrun (h hregion htokens hdrop)
  · exact hrefuses.bind _

/-- A token is refused when no kind that begins with its first character passes the test. -/
theorem tokenWhere_refusesText (hgap : IsGapText gap) {test : Token → Bool}
    (htext : BeginsWith
      (fun c => isSolid c ∧ ∀ token : Token, token.kind.begins c → test token = false) text)
    (wanted : Text) : (tokenWhere wanted test).RefusesText (gap ++ text) := by
  intro region tokens _ htokens
  obtain ⟨c, hc, hsolid, htest⟩ := htext
  obtain ⟨_, token, later, _, _, hdrop, _, hfirst⟩ :=
    hgap.exists_significant ⟨c, hc, hsolid⟩ htokens
  exact tokenWhere_refuses hdrop (htest token (hfirst c hc).2) wanted region

/-- A run of symbols is not spelled by a token that begins with another character. -/
theorem afterSymbols_of_head {token : Token} {d : Char} (hvalue : token.value.head? = some d)
    (hne : c ≠ d) (more : Text) (later : List Token) :
    afterSymbols (c :: more) (token :: later) = none := by
  obtain ⟨rest, hrest⟩ := List.head?_eq_some_iff.mp hvalue
  rw [afterSymbols_cons (List.cons_ne_nil _ _), hrest]
  simp [Text.startsWith, Ne.symm hne]

/-- A run of symbols is refused where it is not spelled. -/
theorem symbol_refuses_of_afterSymbols (h : afterSymbols text (dropTrivia tokens) = none)
    (region : Region) : (symbol text).Refuses region tokens := by
  refine ⟨region.expected (quotedName text) tokens, tokens, ?_, isBlock_expected region _ _⟩
  unfold symbol
  dsimp only
  rw [h]

/-- A run of symbols is read or refused. -/
theorem symbol_run_cases (region : Region) (tokens : List Token) (text : Text) :
    (∃ next, (symbol text).run region tokens = ⟨.ok text, next⟩) ∨
      (symbol text).Refuses region tokens := by
  cases hafter : afterSymbols text (dropTrivia tokens) with
  | none => exact .inr (symbol_refuses_of_afterSymbols hafter region)
  | some next => exact .inl ⟨next, symbol_run_eq_ok.mpr ⟨rfl, hafter⟩⟩

/-- A sign is refused where another character stands behind the gap. -/
theorem symbol_refuses (hgap : IsGapText gap) (htext : BeginsWith (fun d => isSolid d ∧ c ≠ d) text)
    (more : Text) : (symbol (c :: more)).RefusesText (gap ++ text) := by
  intro region tokens _ htokens
  obtain ⟨d, hd, hsolid, hne⟩ := htext
  obtain ⟨_, token, later, _, _, hdrop, _, hfirst⟩ :=
    hgap.exists_significant ⟨d, hd, hsolid⟩ htokens
  refine symbol_refuses_of_afterSymbols ?_ region
  rw [hdrop, afterSymbols_of_head (hfirst d hd).1 hne]

/-- Several signs are refused where another character stands behind the first of them. -/
theorem symbol_refuses_second {d : Char} (hc : ({} : LexerConfig).isSymbol c) (hsolid : isSolid c)
    (htext : BeginsWith (fun e => isSolid e ∧ d ≠ e) text) (more : Text) :
    (symbol (c :: d :: more)).RefusesText (c :: text) := by
  intro region tokens _ htokens
  obtain ⟨e, rest, rfl, he, hne⟩ := htext.exists_cons
  have hsign : IsLexeme .symbol [c] (e :: rest) := .sign hc hsolid _
  obtain ⟨position, later, rfl, hlater⟩ := hsign.exists_of_lexes htokens
  obtain ⟨second, others, rfl, _, hvalue, _⟩ := hlater.exists_significant he
  refine symbol_refuses_of_afterSymbols ?_ region
  rw [dropTrivia_cons (isSignificant_of_kind rfl), afterSymbols_sign,
    afterSymbols_of_head hvalue hne]

/-- A sign is refused where nothing but a gap is left. -/
theorem symbol_refuses_gap (hgap : IsGapText gap) (more : Text) :
    (symbol (c :: more)).RefusesText gap := by
  intro region tokens _ htokens
  have hnone : dropTrivia tokens = [] := List.dropWhile_eq_nil_iff.mpr (hgap.allTrivia htokens)
  refine symbol_refuses_of_afterSymbols ?_ region
  rw [hnone, afterSymbols]

/-- Several signs are refused where another character stands behind the gap. -/
theorem oneOfSymbols_refuses (hgap : IsGapText gap) {candidates : List Text}
    (htext : BeginsWith (fun d => isSolid d ∧
      ∀ candidate ∈ candidates, ∃ c more, candidate = c :: more ∧ c ≠ d) text) :
    (oneOfSymbols candidates).RefusesText (gap ++ text) := by
  intro region tokens _ htokens
  obtain ⟨d, hd, hsolid, hne⟩ := htext
  obtain ⟨_, token, later, _, _, hdrop, _, hfirst⟩ :=
    hgap.exists_significant ⟨d, hd, hsolid⟩ htokens
  refine (oneOfSymbols_run_cases region _ candidates).resolve_left ?_
  rintro ⟨candidate, hcandidate, next, hafter, -⟩
  obtain ⟨c, more, rfl, hc⟩ := hne candidate hcandidate
  rw [hdrop, afterSymbols_of_head (hfirst d hd).1 hc] at hafter
  cases hafter

/-- One of several signs that is spelled here is found. -/
theorem not_refuses_oneOfSymbols {candidates : List Text} {region : Region} {later : List Token}
    (hmem : text ∈ candidates) (hafter : afterSymbols text (dropTrivia tokens) = some later) :
    ¬ (oneOfSymbols candidates).Refuses region tokens := by
  rintro ⟨error, left, hrun, -⟩
  unfold oneOfSymbols at hrun
  dsimp only at hrun
  have hlongest : text ∈ longestFirst candidates := mem_longestFirst.mpr hmem
  generalize longestFirst candidates = texts at hrun hlongest
  induction texts with
  | nil => cases hlongest
  | cons first texts ih =>
    rw [runSymbols] at hrun
    rcases hfirst : (symbol first).run region tokens with ⟨found | cause | _, middle⟩
    · rw [hfirst] at hrun
      cases hrun
    all_goals
      rw [hfirst] at hrun
      rcases List.mem_cons.mp hlongest with rfl | hlater
      · rw [symbol_run_eq_ok.mpr ⟨rfl, hafter⟩] at hfirst
        cases hfirst
      · exact ih hrun hlater

/-- One of several signs is read where the next character continues none of the longer ones. -/
theorem reads_oneOfSymbols (hgap : IsGapText gap) (hc : ({} : LexerConfig).isSymbol c)
    (hsolid : isSolid c) {candidates : List Text} (hmem : [c] ∈ candidates)
    (hne : [] ∉ candidates)
    (hnext : ∀ d more, c :: d :: more ∈ candidates →
      BeginsWith (fun e => isSolid e ∧ d ≠ e) next) :
    (oneOfSymbols candidates).Reads (gap ++ [c]) next fun _ => True := by
  intro region tokens _ htokens
  obtain ⟨front, position, later, rfl, hdrop, hlater⟩ :=
    exists_lexeme hgap (.sign hc hsolid next) rfl htokens
  have hsign : afterSymbols [c] (⟨.symbol, [c], position⟩ :: later) = some later := by
    rw [afterSymbols_sign, afterSymbols]
  rcases oneOfSymbols_run_cases region _ candidates with
    ⟨found, hfound, left, hafter, hrun⟩ | hrefuses
  · obtain ⟨e, others, rfl⟩ := List.exists_cons_of_ne_nil fun h => hne (h ▸ hfound)
    rw [hdrop] at hafter
    obtain rfl : e = c := by
      by_contra hother
      rw [afterSymbols_of_head rfl hother] at hafter
      cases hafter
    obtain rfl : others = [] := by
      cases others with
      | nil => rfl
      | cons d others =>
        obtain ⟨c', rest, rfl, hc', hd⟩ := (hnext d others hfound).exists_cons
        obtain ⟨second, more, rfl, _, hvalue, _⟩ := hlater.exists_significant hc'
        rw [afterSymbols_sign, afterSymbols_of_head hvalue hd] at hafter
        cases hafter
    rw [hsign] at hafter
    cases hafter
    exact ⟨[e], front ++ [⟨.symbol, [e], position⟩], _, by simp, hlater, hrun, trivial⟩
  · exact absurd hrefuses (not_refuses_oneOfSymbols hmem (hdrop ▸ hsign))

/-- A body is read from between the braces behind a gap. -/
theorem Reads.block {α : Type} {p : Parser α} {holds : α → Prop} (hgap : IsGapText gap)
    (htext : IsRegular text) (h : p.Reads text [] holds) (next : Text) :
    (block Grammar.braces p).Reads (gap ++ ('\x7b' :: text ++ ['\x7d'])) next holds := by
  intro region tokens hregion htokens
  obtain ⟨front, position, later, rfl, hdrop, hlater⟩ :=
    exists_lexeme hgap (.braces (htext.passesOver _)) rfl htokens
  generalize htoken : (⟨.lazyBlock, '\x7b' :: text ++ ['\x7d'], position⟩ : Token) = token at hdrop
  obtain ⟨pieces, hpieces⟩ := htext.exists_tokensOf (position.advance '\x7b')
  have hlexes : Lexes (text ++ []) pieces := ⟨_, by rwa [List.append_nil]⟩
  obtain ⟨value, used, left, hused, hleft, hrun, hvalue⟩ :=
    @h (.ofTokens {} pieces (position.advance '\x7b')) pieces rfl hlexes
  obtain rfl := Lexes.nil_iff.mp hleft
  have hinterior : token.interior = some (text, position.advance '\x7b') := by
    rw [← htoken]
    exact interior_eq_some rfl rfl
  refine ⟨value, front ++ [token], later, by simp, hlater, block_run_eq_ok.mpr ⟨token, hdrop,
    by rw [← htoken]; rfl, interior_eq_ok.mpr ⟨text, _, pieces, hinterior, ?_, ?_⟩⟩, hvalue⟩
  · rw [hregion]
    exact hpieces
  · rw [hlexes.splitSymbolRuns_eq, hregion]
    exact runWhole_eq_ok.mpr ⟨[], hrun, rfl⟩

end StyleSyntax.Parser
