import StyleSyntax.Proofs.Parser.Footing
import StyleSyntax.Proofs.Parser.FurthestSuccess

/-!
# The longest symbol

Two texts that are spelled by symbols at one place are spelled by two beginnings of the same tokens.
So one of them is a beginning of the other, and it is the shorter one in characters, in bytes and in
tokens alike. Hence the candidate that is tried first among those that are spelled, which is longest
in bytes, is also the one that consumes the most tokens.
-/

namespace StyleSyntax

namespace Text

variable {a b : Text}

/-- A beginning of a text takes no more bytes. -/
theorem byteLength_le_of_isPrefix (h : a <+: b) : a.byteLength ≤ b.byteLength := by
  obtain ⟨more, rfl⟩ := h
  rw [byteLength_append]
  exact Nat.le_add_right _ _

/-- A text without bytes has no characters. -/
theorem eq_nil_of_byteLength_eq_zero (h : a.byteLength = 0) : a = [] := by
  cases a with
  | nil => rfl
  | cons c more =>
    rw [byteLength] at h
    have hpos := c.utf8Size_pos
    omega

/-- A beginning of a text that takes no fewer bytes is the whole text. -/
theorem eq_of_isPrefix_of_byteLength_le (h : a <+: b) (hle : b.byteLength ≤ a.byteLength) :
    a = b := by
  obtain ⟨more, rfl⟩ := h
  rw [byteLength_append] at hle
  rw [eq_nil_of_byteLength_eq_zero (by omega : byteLength more = 0), List.append_nil]

end Text

namespace Parser

variable {region : Region} {rest next : List Token} {text : Text}

/-- No text is tried after one with fewer bytes. -/
theorem pairwise_longestFirst (candidates : List Text) :
    (longestFirst candidates).Pairwise fun a b => b.byteLength ≤ a.byteLength := by
  have htotal : Std.Total fun a b : Text => b.byteLength ≤ a.byteLength :=
    ⟨fun a b => Nat.le_total b.byteLength a.byteLength⟩
  have htrans : IsTrans Text fun a b => b.byteLength ≤ a.byteLength :=
    ⟨fun _ _ _ hab hbc => Nat.le_trans hbc hab⟩
  rw [longestFirst_eq_insertionSort]
  exact List.pairwise_insertionSort _ _

/-- Whether the text is spelled by symbols behind the gap. -/
def isSpelled (rest : List Token) (text : Text) : Bool :=
  (afterSymbols text (dropTrivia rest)).isSome

/-- What is spelled is what is matched. -/
theorem isSpelled_iff :
    isSpelled rest text ↔ ∃ value next, (symbol text).run region rest = ⟨.ok value, next⟩ := by
  simp only [isSpelled, Option.isSome_iff_exists, symbol_run_eq_ok]
  exact ⟨fun ⟨next, hnext⟩ => ⟨text, next, rfl, hnext⟩, fun ⟨_, next, _, hnext⟩ => ⟨next, hnext⟩⟩

/-- The first of the texts that is spelled is matched. -/
theorem runSymbols_eq (region : Region) (rest : List Token) (error : ParseError)
    (texts : List Text) :
    runSymbols region rest error texts =
      match texts.find? (isSpelled rest) with
      | some text => (symbol text).run region rest
      | none => ⟨.failed error, rest⟩ := by
  induction texts with
  | nil => rfl
  | cons text texts ih =>
    rw [runSymbols, ih]
    cases hafter : afterSymbols text (dropTrivia rest) with
    | none =>
      have hspelled : isSpelled rest text = false := by simp [isSpelled, hafter]
      simp [hspelled, symbol, hafter]
    | some next =>
      have hspelled : isSpelled rest text = true := by simp [isSpelled, hafter]
      simp [hspelled, symbol, hafter]

/-- What is matched among several candidates is a candidate that is spelled, and it has the most
bytes of all that are. -/
theorem byteLength_le_of_oneOfSymbols_run {candidates : List Text}
    (h : (oneOfSymbols candidates).run region rest = ⟨.ok text, next⟩) :
    text ∈ candidates ∧ afterSymbols text (dropTrivia rest) = some next ∧
      ∀ c ∈ candidates, isSpelled rest c → c.byteLength ≤ text.byteLength := by
  unfold oneOfSymbols at h
  dsimp only at h
  rw [runSymbols_eq] at h
  cases hfirst : (longestFirst candidates).find? (isSpelled rest) with
  | none =>
    rw [hfirst] at h
    cases h
  | some found =>
    rw [hfirst] at h
    obtain ⟨rfl, hafter⟩ := symbol_run_eq_ok.mp h
    refine ⟨mem_longestFirst.mp (List.mem_of_find?_eq_some hfirst), hafter, fun c hc hspelled => ?_⟩
    obtain ⟨-, front, back, hsplit, hfront⟩ := List.find?_eq_some_iff_append.mp hfirst
    have hmem := mem_longestFirst.mpr hc
    have hsorted := pairwise_longestFirst candidates
    rw [hsplit] at hmem hsorted
    rcases List.mem_append.mp hmem with hmem | hmem
    · have hnot := hfront c hmem
      rw [hspelled] at hnot
      cases hnot
    · rcases List.mem_cons.mp hmem with rfl | hmem
      · exact Nat.le_refl _
      · exact List.rel_of_pairwise_cons (List.pairwise_append.mp hsorted).2.1 hmem

/-- If a candidate is spelled one is matched, and otherwise all tokens are left. -/
theorem oneOfSymbols_run_cases_of_spelled (candidates : List Text) (region : Region)
    (rest : List Token) :
    (∃ c ∈ candidates, isSpelled rest c) ∧
        (∃ text next, (oneOfSymbols candidates).run region rest = ⟨.ok text, next⟩) ∨
      (∀ c ∈ candidates, isSpelled rest c = false) ∧
        ∃ error, (oneOfSymbols candidates).run region rest = ⟨.failed error, rest⟩ := by
  unfold oneOfSymbols
  dsimp only
  rw [runSymbols_eq]
  cases hfirst : (longestFirst candidates).find? (isSpelled rest) with
  | none =>
    refine .inr ⟨fun c hc => ?_, _, rfl⟩
    simpa using List.find?_eq_none.mp hfirst c (mem_longestFirst.mpr hc)
  | some text =>
    have hspelled := List.find?_some hfirst
    refine .inl ⟨⟨text, mem_longestFirst.mp (List.mem_of_find?_eq_some hfirst), hspelled⟩, ?_⟩
    exact isSpelled_iff.mp hspelled

/-- Of two texts that are spelled at one place one is a beginning of the other, and what is left
behind the longer one is an end of what is left behind the shorter one. -/
theorem isPrefix_of_afterSymbols {a b : Text} {tokens left right : List Token}
    (ha : afterSymbols a tokens = some left) (hb : afterSymbols b tokens = some right) :
    a <+: b ∧ right <:+ left ∨ b <+: a ∧ left <:+ right := by
  obtain ⟨signs, hsigns, rfl, -⟩ := exists_of_afterSymbols ha
  obtain ⟨signs', hsigns', rfl, -⟩ := exists_of_afterSymbols hb
  subst hsigns
  rcases List.append_eq_append_iff.mp hsigns' with ⟨more, rfl, rfl⟩ | ⟨more, rfl, rfl⟩
  · exact .inl ⟨⟨spelling more, (spelling_append signs more).symm⟩, more, rfl⟩
  · exact .inr ⟨⟨spelling more, (spelling_append signs' more).symm⟩, more, rfl⟩

/-- Texts that are spelled by the same tokens are the same. -/
theorem eq_of_afterSymbols {a b : Text} {tokens : List Token}
    (ha : afterSymbols a tokens = some next) (hb : afterSymbols b tokens = some next) : a = b := by
  obtain ⟨signs, hsigns, rfl, -⟩ := exists_of_afterSymbols ha
  obtain ⟨signs', hsigns', rfl, -⟩ := exists_of_afterSymbols hb
  rw [List.append_cancel_right (hsigns.symm.trans hsigns')]

/-- Every candidate that is spelled is a beginning of the one that is matched. -/
theorem isPrefix_of_oneOfSymbols_run {candidates : List Text}
    (h : (oneOfSymbols candidates).run region rest = ⟨.ok text, next⟩) {c : Text}
    (hc : c ∈ candidates) (hspelled : isSpelled rest c) : c <+: text := by
  obtain ⟨-, hafter, hlongest⟩ := byteLength_le_of_oneOfSymbols_run h
  obtain ⟨left, hleft⟩ := Option.isSome_iff_exists.mp hspelled
  rcases isPrefix_of_afterSymbols hleft hafter with ⟨hbegins, -⟩ | ⟨hbegins, -⟩
  · exact hbegins
  · obtain rfl := Text.eq_of_isPrefix_of_byteLength_le hbegins (hlongest c hc hspelled)
    exact List.prefix_rfl

/-- A symbol never aborts a search. -/
theorem aborts_symbol (region : Region) (rest : List Token) (text : Text) :
    aborts region rest (symbol text) = false := by
  unfold aborts symbol
  dsimp only
  cases afterSymbols text (dropTrivia rest) with
  | none => exact isBlock_expected region _ rest
  | some next => rfl

/-- Symbols are always tried. -/
theorem triedOf_map_symbol (rest : List Token) (candidates : List Text) :
    triedOf rest (candidates.map symbol) = candidates.map symbol :=
  List.filter_eq_self.mpr fun p hp => by
    obtain ⟨text, -, rfl⟩ := List.mem_map.mp hp
    rfl

/-- The successes of symbols are the candidates that are spelled, with what is left behind them. -/
theorem mem_successesOf_map_symbol {candidates : List Text} :
    (text, next) ∈ successesOf region rest (candidates.map symbol) ↔
      text ∈ candidates ∧ afterSymbols text (dropTrivia rest) = some next := by
  have hsuccess (c : Text) : success? region rest (symbol c) =
      (afterSymbols c (dropTrivia rest)).map fun left => (c, left) := by
    unfold success? symbol
    dsimp only
    cases afterSymbols c (dropTrivia rest) <;> rfl
  simp only [successesOf, List.filterMap_map, List.mem_filterMap, Function.comp_apply, hsuccess,
    Option.map_eq_some_iff, Prod.mk.injEq]
  constructor
  · rintro ⟨c, hc, left, hleft, rfl, rfl⟩
    exact ⟨hc, hleft⟩
  · rintro ⟨hc, hleft⟩
    exact ⟨text, hc, next, hleft, rfl, rfl⟩

/-- No choice between symbols is aborted. -/
theorem not_aborts_of_mem_map_symbol {candidates : List Text} {p : Parser Text}
    (hp : p ∈ triedOf rest (candidates.map symbol)) : aborts region rest p = false := by
  rw [triedOf_map_symbol] at hp
  obtain ⟨c, -, rfl⟩ := List.mem_map.mp hp
  exact aborts_symbol region rest c

/-- The candidate that is matched is the one that a choice of the longest takes. -/
theorem longestOf_run_of_oneOfSymbols_run {candidates : List Text}
    (h : (oneOfSymbols candidates).run region rest = ⟨.ok text, next⟩) :
    (longestOf (candidates.map symbol)).run region rest = ⟨.ok text, next⟩ := by
  obtain ⟨hmem, hafter, -⟩ := byteLength_le_of_oneOfSymbols_run h
  have hsuccess : (text, next) ∈
      successesOf region rest (triedOf rest (candidates.map symbol)) := by
    rw [triedOf_map_symbol]
    exact mem_successesOf_map_symbol.mpr ⟨hmem, hafter⟩
  obtain ⟨value, left, hfurthest, hrun⟩ := exists_longestOf_run
    (fun p hp => not_aborts_of_mem_map_symbol hp) (List.ne_nil_of_mem hsuccess)
  have hle : left.length ≤ next.length := hfurthest.length_le hsuccess
  have htaken := hfurthest.mem
  rw [triedOf_map_symbol] at htaken
  obtain ⟨hvalue, hleft⟩ := mem_successesOf_map_symbol.mp htaken
  -- The furthest success leaves no more than the match, and as a candidate it spells no more.
  have hsame : next = left := by
    rcases isPrefix_of_afterSymbols hleft hafter with ⟨-, hsuffix⟩ | ⟨hbegins, hsuffix⟩
    · exact hsuffix.eq_of_length (Nat.le_antisymm hsuffix.length_le hle)
    · have hspelled : isSpelled rest value := by simp [isSpelled, hleft]
      have hbegins' := isPrefix_of_oneOfSymbols_run h hvalue hspelled
      obtain rfl := hbegins.eq_of_length_le hbegins'.length_le
      exact Option.some.inj (hafter.symm.trans hleft)
  subst hsame
  rw [hrun, eq_of_afterSymbols hleft hafter]

/-- Without a candidate that is spelled a choice of the longest fails back at the start. -/
theorem longestOf_run_of_not_isSpelled {candidates : List Text}
    (h : ∀ c ∈ candidates, isSpelled rest c = false) :
    ∃ error, (longestOf (candidates.map symbol)).run region rest = ⟨.failed error, rest⟩ := by
  have hsuccesses : successesOf region rest (triedOf rest (candidates.map symbol)) = [] := by
    rw [triedOf_map_symbol, List.eq_nil_iff_forall_not_mem]
    rintro ⟨text, next⟩ hmem
    obtain ⟨hc, hafter⟩ := mem_successesOf_map_symbol.mp hmem
    have hspelled := h text hc
    simp [isSpelled, hafter] at hspelled
  obtain ⟨error, hrun, -⟩ := longestOf_run_of_successesOf_eq_nil
    (fun p hp => not_aborts_of_mem_map_symbol hp) hsuccesses
  exact ⟨error, hrun⟩

/-- A choice between symbols. It succeeds exactly if some candidate alone would. Its value is then
a candidate that is spelled by the adjacent symbols behind the gap, and it stands behind them; every
candidate that would match there is a beginning of it, so none has more characters or bytes. A
choice of the longest between the candidates in their order gives the same value with the same
tokens left. Where no candidate would match both choices are back at the start. -/
theorem oneOfSymbols_run_eq_longest (candidates : List Text) (region : Region)
    (rest : List Token) :
    let matched (c : Text) := ∃ value next, (symbol c).run region rest = ⟨.ok value, next⟩
    let reply := (oneOfSymbols candidates).run region rest
    let longest := (longestOf (candidates.map symbol)).run region rest
    ((∃ text next, reply = ⟨.ok text, next⟩) ↔ ∃ c ∈ candidates, matched c) ∧
      (∀ text next, reply = ⟨.ok text, next⟩ →
        text ∈ candidates ∧ matched text ∧
        (∀ c ∈ candidates, matched c →
          c <+: text ∧ c.length ≤ text.length ∧ c.byteLength ≤ text.byteLength) ∧
        (∃ signs, rest = rest.takeWhile Token.isTrivia ++ signs ++ next ∧
          (∀ sign ∈ signs, sign.kind = .symbol) ∧ spelling signs = text) ∧
        longest = reply) ∧
      ((∀ c ∈ candidates, ¬matched c) →
        (∃ error, reply = ⟨.failed error, rest⟩) ∧ ∃ error, longest = ⟨.failed error, rest⟩) := by
  intro matched reply longest
  have hmatched (c : Text) : matched c ↔ isSpelled rest c := isSpelled_iff.symm
  have hcases := oneOfSymbols_run_cases_of_spelled candidates region rest
  refine ⟨⟨?_, ?_⟩, ?_, ?_⟩
  · rintro ⟨text, next, hrun⟩
    obtain ⟨hmem, hafter, -⟩ := byteLength_le_of_oneOfSymbols_run hrun
    exact ⟨text, hmem, text, next, symbol_run_eq_ok.mpr ⟨rfl, hafter⟩⟩
  · rintro ⟨c, hc, hspelled⟩
    rcases hcases with ⟨-, hrun⟩ | ⟨hnone, -⟩
    · exact hrun
    · rw [hmatched, hnone c hc] at hspelled
      cases hspelled
  · intro text next hrun
    obtain ⟨hmem, hafter, -⟩ := byteLength_le_of_oneOfSymbols_run hrun
    refine ⟨hmem, ⟨text, next, symbol_run_eq_ok.mpr ⟨rfl, hafter⟩⟩, fun c hc hspelled => ?_, ?_, ?_⟩
    · have hbegins := isPrefix_of_oneOfSymbols_run hrun hc ((hmatched c).mp hspelled)
      exact ⟨hbegins, hbegins.length_le, Text.byteLength_le_of_isPrefix hbegins⟩
    · obtain ⟨signs, hsigns, hspelling, hkinds⟩ := exists_of_afterSymbols hafter
      refine ⟨signs, ?_, hkinds, hspelling⟩
      rw [List.append_assoc, ← hsigns]
      exact (List.takeWhile_append_dropWhile).symm
    · rw [hrun]
      exact longestOf_run_of_oneOfSymbols_run hrun
  · intro hnone
    have hnone' : ∀ c ∈ candidates, isSpelled rest c = false := fun c hc =>
      Bool.eq_false_iff.mpr fun hspelled => hnone c hc ((hmatched c).mpr hspelled)
    rcases hcases with ⟨⟨c, hc, hspelled⟩, -⟩ | ⟨-, hrun⟩
    · rw [hnone' c hc] at hspelled
      cases hspelled
    · exact ⟨hrun, longestOf_run_of_not_isSpelled hnone'⟩

/-- Of two arrows the longer one is taken from separate symbols, although the shorter one has more
bytes than characters. In a joined symbol the shorter one does not end where the token does, so it
is not found there, and without the longer one the choice fails. -/
theorem oneOfSymbols_run_eq_longest_arrow :
    let region : Region := ⟨{}, ⟨1, 5⟩⟩
    let gap : Token := ⟨.space, [' '], ⟨1, 1⟩⟩
    let name : Token := ⟨.literal, ['a'], ⟨1, 4⟩⟩
    let split : List Token := [gap, ⟨.symbol, ['→'], ⟨1, 2⟩⟩, ⟨.symbol, ['='], ⟨1, 3⟩⟩, name]
    let joined : List Token := [gap, ⟨.symbol, ['→', '='], ⟨1, 2⟩⟩, name]
    let arrows : List Text := [['→'], ['='], ['→', '=']]
    (oneOfSymbols arrows).run region split = ⟨.ok ['→', '='], [name]⟩ ∧
      (longestOf (arrows.map symbol)).run region split = ⟨.ok ['→', '='], [name]⟩ ∧
      ['→'] <+: ['→', '='] ∧
      (oneOfSymbols arrows).run region joined = ⟨.ok ['→', '='], [name]⟩ ∧
      ∃ error, (oneOfSymbols [['→']]).run region joined = ⟨.failed error, joined⟩ := by
  intro region gap name split joined arrows
  obtain ⟨-, hok, -⟩ := oneOfSymbols_run_eq_longest arrows region split
  obtain ⟨-, -, hfailed⟩ := oneOfSymbols_run_eq_longest [['→']] region joined
  have hsplit : (oneOfSymbols arrows).run region split = ⟨.ok ['→', '='], [name]⟩ := rfl
  obtain ⟨-, -, hbegins, -, hlongest⟩ := hok _ _ hsplit
  refine ⟨hsplit, hlongest.trans hsplit, (hbegins ['→'] (by decide) ?_).1, rfl, ?_⟩
  · exact ⟨['→'], [⟨.symbol, ['='], ⟨1, 3⟩⟩, name], rfl⟩
  · refine (hfailed fun c hc hmatched => ?_).1
    obtain rfl := List.mem_singleton.mp hc
    obtain ⟨value, next, hrun⟩ := hmatched
    rw [symbol_run_eq_ok] at hrun
    cases hrun.2

end Parser

end StyleSyntax
