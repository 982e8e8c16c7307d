import Mathlib.Order.Nat
import StyleSyntax.Proofs.Grammar.Statement

/-!
# Where script ends

A script statement begins with a significant token and may end at four places: with the first
semicolon, with the first brace region and a semicolon right behind it, with the last significant
token before the first trivia that holds a line feed, or with the last significant token of all. It
ends at the earliest of them. The parser counts tokens in one pass and knows none of these places
beforehand, so the count is told first by what the pass has and has not met where it ends.
-/

namespace StyleSyntax

/-- The places of the tokens that pass a test, counted from zero. -/
def placesOf (test : Token → Bool) (tokens : List Token) : Set Nat :=
  {i | tokens[i]?.any test}

/-- Whitespace or a comment with a line feed in it. -/
def Token.breaksGap (token : Token) : Bool :=
  token.isTrivia && Parser.breaksLine token

/-- The places of the last token of script, of which the earliest counts. The first of the tokens
is the one that the script begins with. -/
inductive IsScriptEnd (tokens : List Token) : Nat → Prop
  | semicolon {last : Nat} : IsLeast (placesOf Token.isSemicolon tokens) last →
      IsScriptEnd tokens last
  | braces {last : Nat} : IsLeast (placesOf Token.isBraces tokens) last →
      last + 1 ∉ placesOf Token.isSemicolon tokens → IsScriptEnd tokens last
  | closedBraces {place : Nat} : IsLeast (placesOf Token.isBraces tokens) place →
      place + 1 ∈ placesOf Token.isSemicolon tokens → IsScriptEnd tokens (place + 1)
  | lineEnd {last place : Nat} : IsLeast (placesOf Token.breaksGap tokens) place →
      IsGreatest {i ∈ placesOf Token.isSignificant tokens | i < place} last →
      IsScriptEnd tokens last
  | lastToken {last : Nat} : IsGreatest (placesOf Token.isSignificant tokens) last →
      IsScriptEnd tokens last

/-- What the count has met where it ends. It has passed no line feed, no semicolon, and no brace
region unless a semicolon right behind it is the last token, and there is a reason not to go on. -/
structure IsScriptExtent (tokens : List Token) (last : Nat) : Prop where
  isSignificant : last ∈ placesOf Token.isSignificant tokens
  noBreak : ∀ i ∈ placesOf Token.breaksGap tokens, last < i
  noSemicolon : ∀ i ∈ placesOf Token.isSemicolon tokens, last ≤ i
  noBraces : ∀ i ∈ placesOf Token.isBraces tokens,
    last ≤ i ∨ last = i + 1 ∧ last ∈ placesOf Token.isSemicolon tokens
  ends : last ∈ placesOf Token.isSemicolon tokens ∨
    last ∈ placesOf Token.isBraces tokens ∧ last + 1 ∉ placesOf Token.isSemicolon tokens ∨
    ∀ i ∈ placesOf Token.isSignificant tokens, last < i →
      ∃ place ∈ placesOf Token.breaksGap tokens, place < i

variable {test other : Token → Bool} {token : Token} {tokens : List Token} {last i : Nat}

/-! ## Places -/

/-- A place is one of those where the token that stands there passes the test. -/
theorem mem_placesOf : i ∈ placesOf test tokens ↔ tokens[i]?.any test :=
  Iff.rfl

instance : DecidablePred (· ∈ placesOf test tokens) :=
  fun _ => decidable_of_iff _ mem_placesOf.symm

/-- The first token passes the test or not. -/
@[simp] theorem zero_mem_placesOf : 0 ∈ placesOf test (token :: tokens) ↔ test token :=
  Iff.rfl

/-- The places behind the first token are counted on from it. -/
@[simp] theorem succ_mem_placesOf :
    i + 1 ∈ placesOf test (token :: tokens) ↔ i ∈ placesOf test tokens :=
  Iff.rfl

/-- Every place is the first or behind it. -/
theorem forall_placesOf_cons {p : Nat → Prop} :
    (∀ i ∈ placesOf test (token :: tokens), p i) ↔
      (test token → p 0) ∧ ∀ i ∈ placesOf test tokens, p (i + 1) := by
  constructor
  · intro h
    exact ⟨h 0, fun i hi => h (i + 1) hi⟩
  · rintro ⟨hzero, hsucc⟩ i hi
    cases i with
    | zero => exact hzero hi
    | succ i => exact hsucc i hi

/-- A token does not pass two tests that exclude each other. -/
theorem notMem_placesOf (h : ∀ token, test token → other token = false)
    (hi : i ∈ placesOf test tokens) : i ∉ placesOf other tokens := by
  intro hother
  obtain ⟨token, htoken, htest⟩ := (Option.any_eq_true _ _).mp hi
  have hnot := h token htest
  rw [mem_placesOf, htoken, Option.any_some, hnot] at hother
  cases hother

/-- A semicolon is no brace region. -/
theorem isBraces_of_isSemicolon (h : token.isSemicolon) : token.isBraces = false := by
  rw [Token.isSemicolon, Token.isSymbol, Bool.and_eq_true, beq_iff_eq] at h
  rw [Token.isBraces, h.1]
  rfl

/-- No significant token is trivia with a line feed. -/
theorem breaksGap_of_isSignificant (h : token.isSignificant) : token.breaksGap = false := by
  rw [Token.breaksGap, isTrivia_eq_false_of_significant h, Bool.false_and]

/-! ## What the count has met -/

namespace IsScriptExtent

/-- Script of one significant token. -/
theorem single (htoken : token.isSignificant)
    (hends : token.isSemicolon ∨ token.isBraces ∧ 0 ∉ placesOf Token.isSemicolon tokens ∨
      ∀ i ∈ placesOf Token.isSignificant tokens, ∃ place ∈ placesOf Token.breaksGap tokens,
        place < i) :
    IsScriptExtent (token :: tokens) 0 where
  isSignificant := htoken
  noBreak := by
    rw [forall_placesOf_cons, breaksGap_of_isSignificant htoken]
    exact ⟨nofun, fun i _ => Nat.succ_pos i⟩
  noSemicolon i _ := Nat.zero_le i
  noBraces i _ := .inl (Nat.zero_le i)
  ends := by
    refine hends.imp id (Or.imp id fun hlater => ?_)
    rw [forall_placesOf_cons]
    refine ⟨nofun, fun i hi _ => ?_⟩
    obtain ⟨place, hplace, hlt⟩ := hlater i hi
    exact ⟨place + 1, hplace, Nat.succ_lt_succ hlt⟩

/-- A brace region and the semicolon right behind it. -/
theorem closedBraces {sign : Token} (htoken : token.isBraces) (hsign : sign.isSemicolon) :
    IsScriptExtent (token :: sign :: tokens) 1 where
  isSignificant := isSignificant_of_isSymbol hsign
  noBreak := by
    rw [forall_placesOf_cons, forall_placesOf_cons,
      breaksGap_of_isSignificant (isSignificant_of_isBraces htoken),
      breaksGap_of_isSignificant (isSignificant_of_isSymbol hsign)]
    exact ⟨nofun, nofun, fun i _ => by omega⟩
  noSemicolon := by
    rw [forall_placesOf_cons]
    refine ⟨fun hsemicolon => ?_, fun i _ => Nat.succ_le_succ (Nat.zero_le i)⟩
    rw [isBraces_of_isSemicolon hsemicolon] at htoken
    cases htoken
  noBraces := by
    rw [forall_placesOf_cons]
    exact ⟨fun _ => .inr ⟨rfl, hsign⟩, fun i _ => .inl (Nat.succ_le_succ (Nat.zero_le i))⟩
  ends := .inl hsign

/-- One more token in front, with which script cannot end. -/
theorem cons (h : IsScriptExtent tokens last) (hbreaks : token.breaksGap = false)
    (hsemicolon : token.isSemicolon = false) (hbraces : token.isBraces = false) :
    IsScriptExtent (token :: tokens) (last + 1) where
  isSignificant := h.isSignificant
  noBreak := by
    rw [forall_placesOf_cons, hbreaks]
    exact ⟨nofun, fun i hi => Nat.succ_lt_succ (h.noBreak i hi)⟩
  noSemicolon := by
    rw [forall_placesOf_cons, hsemicolon]
    exact ⟨nofun, fun i hi => Nat.succ_le_succ (h.noSemicolon i hi)⟩
  noBraces := by
    rw [forall_placesOf_cons, hbraces]
    refine ⟨nofun, fun i hi => (h.noBraces i hi).imp Nat.succ_le_succ ?_⟩
    exact fun hclosed => ⟨congrArg Nat.succ hclosed.1, hclosed.2⟩
  ends := by
    refine h.ends.imp id (Or.imp id fun hlater => ?_)
    rw [forall_placesOf_cons]
    refine ⟨fun _ hlt => absurd hlt (Nat.not_lt_zero _), fun i hi hlt => ?_⟩
    obtain ⟨place, hplace, hbefore⟩ := hlater i hi (Nat.lt_of_succ_lt_succ hlt)
    exact ⟨place + 1, hplace, Nat.succ_lt_succ hbefore⟩

end IsScriptExtent

namespace Grammar

/-- Where nothing is counted a line feed stands before every significant token. -/
theorem exists_breaksGap_of_scriptLength (h : scriptLength tokens = 0) :
    ∀ i ∈ placesOf Token.isSignificant tokens,
      ∃ place ∈ placesOf Token.breaksGap tokens, place < i := by
  induction tokens with
  | nil =>
    intro i hi
    cases hi
  | cons token tokens ih =>
    have htrivia : token.isTrivia := by
      by_contra hsignificant
      exact scriptLength_ne_zero (by simpa [Token.isSignificant] using hsignificant) tokens h
    rw [forall_placesOf_cons, Token.isSignificant, htrivia]
    refine ⟨by simp, fun i hi => ?_⟩
    by_cases hbreaks : Parser.breaksLine token
    · exact ⟨0, by simp [Token.breaksGap, htrivia, hbreaks], Nat.succ_pos i⟩
    · have hrest : scriptLength tokens = 0 := by
        rw [scriptLength, if_pos htrivia, if_neg hbreaks] at h
        split at h
        · assumption
        · cases h
      obtain ⟨place, hplace, hlt⟩ := ih hrest i hi
      exact ⟨place + 1, hplace, Nat.succ_lt_succ hlt⟩

/-- What the count of the tokens of script has met where it ends. -/
theorem isScriptExtent_of_scriptLength (h : scriptLength tokens = last + 1) :
    IsScriptExtent tokens last := by
  fun_induction scriptLength tokens generalizing last with
  | case1 => cases h
  | case2 => cases h
  | case3 => cases h
  | case4 token rest htrivia hbreaks length hlength ih =>
    obtain rfl : length + 1 = last := Nat.succ.inj h
    have hkind : token.isSemicolon = false ∧ token.isBraces = false := by
      obtain ⟨kind, value, position⟩ := token
      cases kind <;> first | exact ⟨rfl, rfl⟩ | cases htrivia
    exact (ih hlength).cons (by simp [Token.breaksGap, hbreaks]) hkind.1 hkind.2
  | case5 token rest htrivia hsemicolon =>
    obtain rfl : 0 = last := Nat.succ.inj h
    exact .single (isSignificant_of_isSymbol hsemicolon) (.inl hsemicolon)
  | case6 token rest htrivia _ hbraces hnext =>
    obtain rfl : 1 = last := Nat.succ.inj h
    obtain ⟨sign, hhead, hsign⟩ := (Option.any_eq_true _ _).mp hnext
    obtain ⟨more, rfl⟩ := List.head?_eq_some_iff.mp hhead
    exact .closedBraces hbraces hsign
  | case7 token rest htrivia _ hbraces hnext =>
    obtain rfl : 0 = last := Nat.succ.inj h
    refine .single (isSignificant_of_isBraces hbraces) (.inr (.inl ⟨hbraces, ?_⟩))
    rwa [mem_placesOf, ← List.head?_eq_getElem?]
  | case8 token rest htrivia hsemicolon hbraces ih =>
    have htoken : token.isSignificant := by simpa [Token.isSignificant] using htrivia
    obtain rfl : scriptLength rest = last := Nat.succ.inj h
    cases hlength : scriptLength rest with
    | zero => exact .single htoken (.inr (.inr (exists_breaksGap_of_scriptLength hlength)))
    | succ length =>
      exact (ih hlength).cons (breaksGap_of_isSignificant htoken) (by simpa using hsemicolon)
        (by simpa using hbraces)

end Grammar

/-! ## The earliest end -/

namespace IsScriptExtent

/-- Where the count ends script may end. -/
theorem isScriptEnd (h : IsScriptExtent tokens last) : IsScriptEnd tokens last := by
  rcases h.ends with hsemicolon | ⟨hbraces, hopen⟩ | hlater
  · exact .semicolon ⟨hsemicolon, h.noSemicolon⟩
  · refine .braces ⟨hbraces, fun i hi => ?_⟩ hopen
    rcases h.noBraces i hi with hle | ⟨-, hsemicolon⟩
    · exact hle
    · exact absurd hbraces (notMem_placesOf (fun _ => isBraces_of_isSemicolon) hsemicolon)
  by_cases hall : ∀ i ∈ placesOf Token.isSignificant tokens, i ≤ last
  · exact .lastToken ⟨h.isSignificant, hall⟩
  · -- Some significant token is left, so there is a line feed, and a first one.
    push Not at hall
    obtain ⟨i, hi, hlt⟩ := hall
    obtain ⟨place, hplace, -⟩ := hlater i hi hlt
    have hfirst := Nat.isLeast_find ⟨place, hplace⟩
    refine .lineEnd hfirst ⟨⟨h.isSignificant, h.noBreak _ hfirst.1⟩, ?_⟩
    rintro i ⟨hi, hbefore⟩
    by_contra hnot
    obtain ⟨place, hplace, hbetween⟩ := hlater i hi (Nat.lt_of_not_le hnot)
    exact absurd (hfirst.2 hplace) (Nat.not_le.mpr (hbetween.trans hbefore))

/-- Script may not end anywhere before. -/
theorem le_of_isScriptEnd (h : IsScriptExtent tokens last) (hend : IsScriptEnd tokens i) :
    last ≤ i := by
  cases hend with
  | semicolon hfirst => exact h.noSemicolon i hfirst.1
  | braces hfirst hopen =>
    rcases h.noBraces i hfirst.1 with hle | ⟨rfl, hsemicolon⟩
    · exact hle
    · exact absurd hsemicolon hopen
  | closedBraces hfirst =>
    rcases h.noBraces _ hfirst.1 with hle | ⟨rfl, -⟩
    · exact Nat.le_succ_of_le hle
    · exact Nat.le_refl _
  | lineEnd hfirst hlast => exact hlast.2 ⟨h.isSignificant, h.noBreak _ hfirst.1⟩
  | lastToken hlast => exact hlast.2 h.isSignificant

/-- The count ends at the earliest place where script may end. -/
theorem isLeast (h : IsScriptExtent tokens last) : IsLeast {i | IsScriptEnd tokens i} last :=
  ⟨h.isScriptEnd, fun _ => h.le_of_isScriptEnd⟩

end IsScriptExtent

namespace Grammar

/-- Behind a gap script is read from the tokens through the earliest place where it may end. -/
theorem exists_script_run {gap following : List Token} {token : Token} (hgap : AllTrivia gap)
    (htoken : token.isSignificant) (region : Region) :
    ∃ last, IsLeast {i | IsScriptEnd (token :: following) i} last ∧
      script.run region (gap ++ token :: following) =
        ⟨.ok (.leaf (.script ⟨spelling ((token :: following).take (last + 1)), token.position⟩)),
          (token :: following).drop (last + 1)⟩ := by
  obtain ⟨last, hlast⟩ := Nat.exists_eq_succ_of_ne_zero (scriptLength_ne_zero htoken following)
  refine ⟨last, (isScriptExtent_of_scriptLength hlast).isLeast, ?_⟩
  unfold script
  dsimp only
  rw [dropTrivia_gap hgap htoken]
  dsimp only
  rw [hlast]

/-- Where there is only trivia there is no script. -/
theorem script_run_of_allTrivia {rest : List Token} (h : AllTrivia rest) (region : Region) :
    script.run region rest = ⟨.failed (region.expected "statement".toList rest), rest⟩ := by
  unfold script
  dsimp only
  rw [dropTrivia, List.dropWhile_eq_nil_iff.mpr h]

/-- Script is read exactly where a significant token is left. It takes the gap before that token and
the tokens from there through the earliest place where it may end. Its text is that of the tokens
behind the gap and its position that of the first of them. Where there is only trivia it fails, and
nothing is consumed. -/
theorem script_run_extent (region : Region) (rest : List Token) :
    ((∃ node next, script.run region rest = ⟨.ok node, next⟩) ↔
        ∃ token ∈ rest, token.isSignificant) ∧
      (∀ gap token following, rest = gap ++ token :: following → AllTrivia gap →
        token.isSignificant → ∃ last, IsLeast {i | IsScriptEnd (token :: following) i} last ∧
          script.run region rest =
            ⟨.ok (.leaf (.script
              ⟨spelling ((token :: following).take (last + 1)), token.position⟩)),
              (token :: following).drop (last + 1)⟩) ∧
      (AllTrivia rest →
        script.run region rest = ⟨.failed (region.expected "statement".toList rest), rest⟩) := by
  refine ⟨⟨?_, ?_⟩, ?_, fun h => script_run_of_allTrivia h region⟩
  · rintro ⟨node, next, hrun⟩
    by_contra hsignificant
    have htrivia : AllTrivia rest := by
      intro token htoken
      by_contra hnot
      exact hsignificant ⟨token, htoken, by simpa [Token.isSignificant] using hnot⟩
    cases hrun.symm.trans (script_run_of_allTrivia htrivia region)
  · rintro ⟨token, htoken, hsignificant⟩
    obtain ⟨gap, hrest, hgap⟩ := exists_gap rest
    cases hdropped : dropTrivia rest with
    | nil =>
      have htrivia := List.dropWhile_eq_nil_iff.mp hdropped token htoken
      rw [isTrivia_eq_false_of_significant hsignificant] at htrivia
      cases htrivia
    | cons first following =>
      rw [hrest, hdropped]
      obtain ⟨last, -, hrun⟩ :=
        exists_script_run hgap (isSignificant_of_dropTrivia_eq_cons hdropped) region
      exact ⟨_, _, hrun⟩
  · rintro gap token following rfl hgap htoken
    exact exists_script_run hgap htoken region

/-- A line feed before the statement and one inside its braces do not end it, and the semicolon
behind the braces belongs to it. -/
theorem script_run_extent_braces :
    let gap : List Token := [⟨.space, ['\n'], ⟨1, 1⟩⟩]
    let first : Token := ⟨.literal, ['f'], ⟨2, 1⟩⟩
    let following : List Token := [⟨.space, [' '], ⟨2, 2⟩⟩,
      ⟨.lazyBlock, "\x7b\n\x7d".toList, ⟨2, 3⟩⟩, ⟨.symbol, [';'], ⟨3, 2⟩⟩,
      ⟨.symbol, [';'], ⟨3, 3⟩⟩]
    AllTrivia gap ∧ first.isSignificant ∧ IsLeast {i | IsScriptEnd (first :: following) i} 3 ∧
      script.run ⟨{}, ⟨3, 4⟩⟩ (gap ++ first :: following) =
        ⟨.ok (.leaf (.script ⟨"f \x7b\n\x7d;".toList, ⟨2, 1⟩⟩)), [⟨.symbol, [';'], ⟨3, 3⟩⟩]⟩ := by
  intro gap first following
  have hgap : AllTrivia gap := List.forall_mem_singleton.mpr rfl
  obtain ⟨last, hleast, hrun⟩ :=
    (script_run_extent ⟨{}, ⟨3, 4⟩⟩ (gap ++ first :: following)).2.1 gap first following rfl hgap
      rfl
  obtain rfl : last = 3 := by
    have hlength : 1 = ((first :: following).drop (last + 1)).length :=
      congrArg (fun reply => reply.rest.length) hrun
    rw [List.length_drop] at hlength
    simp only [following, List.length_cons, List.length_nil] at hlength
    omega
  exact ⟨hgap, rfl, hleast, hrun⟩

end Grammar

end StyleSyntax
