import StyleSyntax.Proofs.Lexer.SymbolRuns

/-!
# What the search for a closing bracket passes over

The search for the end of a balanced region counts brackets of one sort. It passes over a piece of
text when it is in the same state behind the piece as before it: single characters, quoted runs and
closed comments are passed over, and so is a bracketed text of any sort whose interior is. Pieces
that are passed over one after another are passed over together.
-/

namespace StyleSyntax

/-- A sort of brackets. -/
inductive Bracket where
  | round
  | square
  | curly
deriving DecidableEq

namespace Bracket

/-- The bracket that opens a region. -/
def opening : Bracket → Char
  | round => '('
  | square => '['
  | curly => '\x7b'

/-- The bracket that closes a region. -/
def closing : Bracket → Char
  | round => ')'
  | square => ']'
  | curly => '\x7d'

/-- The kind of tokens that hold a region. -/
def kind (config : LexerConfig) : Bracket → TokenKind
  | round => .roundBrackets
  | square => .squareBrackets
  | curly => if config.lazyBraces then .lazyBlock else .block

/-- The reader of regions. -/
def reader : Bracket → Reader
  | round => Reader.roundBrackets
  | square => Reader.squareBrackets
  | curly => Reader.braces

/-- The readers of regions differ by their brackets alone. -/
theorem reader_eq_balanced (bracket : Bracket) (config : LexerConfig) (text : Text) :
    bracket.reader config text =
      Reader.balanced bracket.opening bracket.closing (bracket.kind config) text := by
  cases bracket <;> rfl

/-- Tokens that hold a region have an interior. -/
theorem isBracketed_kind (bracket : Bracket) (config : LexerConfig) :
    (bracket.kind config).isBracketed := by
  cases bracket with
  | round => rfl
  | square => rfl
  | curly => unfold kind; split_ifs <;> rfl

end Bracket

/-- The backslash, the quotes and the brackets of all sorts. -/
def structuralChars : Text :=
  ['\\', '\x27', '\x22', '\x60', '(', ')', '[', ']', '\x7b', '\x7d']

/-- A character that means something to the search. Other characters do not, unless they open a
comment. -/
def isStructural (c : Char) : Bool :=
  structuralChars.contains c

/-- In front of `next`, the search for the end of a balanced region passes over `text`, whatever
the sort of its brackets and however many of them are open. -/
def PassesOver (text next : Text) : Prop :=
  ∀ (bracket : Bracket) (depth : Nat),
    balancedExtent bracket.opening bracket.closing depth (text ++ next) =
      (balancedExtent bracket.opening bracket.closing depth next).shift text.length

/-- One more region is open behind an opening bracket. -/
theorem balancedExtent_opening (bracket : Bracket) (depth : Nat) (rest : Text) :
    balancedExtent bracket.opening bracket.closing depth (bracket.opening :: rest) =
      (balancedExtent bracket.opening bracket.closing (depth + 1) rest).shift 1 := by
  rw [balancedExtent.eq_def]
  exact if_pos rfl

/-- One region less is open behind a closing bracket. -/
theorem balancedExtent_closing (bracket : Bracket) (depth : Nat) (rest : Text) :
    balancedExtent bracket.opening bracket.closing (depth + 1) (bracket.closing :: rest) =
      (balancedExtent bracket.opening bracket.closing depth rest).shift 1 := by
  have hdifferent : bracket.closing ≠ bracket.opening := by cases bracket <;> decide
  rw [balancedExtent.eq_def]
  simp only [hdifferent, if_false, if_true]

/-- The closing bracket of the region itself ends the search. -/
theorem balancedExtent_end (bracket : Bracket) (rest : Text) :
    balancedExtent bracket.opening bracket.closing 0 (bracket.closing :: rest) = .closed 1 := by
  have hdifferent : bracket.closing ≠ bracket.opening := by cases bracket <;> decide
  rw [balancedExtent.eq_def]
  simp only [hdifferent, if_false, if_true]

/-- An item that does not begin with a bracket of the sort is passed over as a whole. -/
theorem balancedExtent_cons_of_ne {opening closing c : Char} (hopening : c ≠ opening)
    (hclosing : c ≠ closing) (depth : Nat) (rest : Text) :
    balancedExtent opening closing depth (c :: rest) =
      (balancedExtent opening closing depth (rest.drop (itemLength c rest - 1))).shift
        (itemLength c rest) := by
  rw [balancedExtent.eq_def]
  simp only [hopening, hclosing, if_false]

/-- Shifts add up. -/
theorem Extent.shift_shift (extent : Extent) (a b : Nat) :
    (extent.shift a).shift b = extent.shift (a + b) := by
  cases extent <;> simp [Extent.shift, Nat.add_assoc]

/-- A run that ends within a text is not longer when more follows. -/
theorem Text.lengthWhile_append_of_lt {isMember : Char → Bool} {a : Text}
    (h : lengthWhile isMember a < a.length) (b : Text) :
    lengthWhile isMember (a ++ b) = lengthWhile isMember a := by
  induction a with
  | nil => simp at h
  | cons c rest ih =>
    rw [List.cons_append, lengthWhile]
    rw [lengthWhile, List.length_cons] at h
    rw [lengthWhile]
    split_ifs at h ⊢
    · rw [ih (Nat.lt_of_succ_lt_succ h)]
    · rfl

/-- A delimiter that occurs in a text is found at the same place when more follows. -/
theorem Text.lengthThrough_append_of_isInfix {delimiter a : Text} (h : delimiter <:+: a)
    (b : Text) : lengthThrough delimiter (a ++ b) = lengthThrough delimiter a := by
  induction a with
  | nil =>
    rw [List.infix_nil.mp h]
    cases b <;> rfl
  | cons c rest ih =>
    rw [List.cons_append, lengthThrough]
    rw [lengthThrough]
    split_ifs with hfull hpart hpart
    · rfl
    · exact absurd (startsWith_of_append hfull h.length_le) hpart
    · exact absurd (startsWith_append hpart b) hfull
    · rcases List.infix_cons_iff.mp h with hprefix | hinfix
      · exact absurd (List.isPrefixOf_iff_prefix.mpr hprefix) hpart
      · rw [ih hinfix]

/-- The search for a delimiter that does not occur takes the whole text. -/
theorem Text.lengthThrough_eq_length {delimiter a : Text} (h : ¬ delimiter <:+: a) :
    lengthThrough delimiter a = a.length := by
  induction a with
  | nil => rfl
  | cons c rest ih =>
    rw [List.infix_cons_iff, not_or] at h
    have hprefix : ¬ startsWith (c :: rest) delimiter :=
      fun hprefix => h.1 (List.isPrefixOf_iff_prefix.mp hprefix)
    rw [lengthThrough, if_neg hprefix, ih h.2, List.length_cons]

/-- A delimiter that occurs in a text has a first occurrence, and the search goes through it. -/
theorem Text.exists_first_occurrence {delimiter text : Text} (h : delimiter <:+: text) :
    ∃ before left, text = before ++ (delimiter ++ left) ∧
      lengthThrough delimiter text = (before ++ delimiter).length ∧
      ∀ other later, text = other ++ (delimiter ++ later) → before.length ≤ other.length := by
  induction text with
  | nil =>
    obtain rfl := List.infix_nil.mp h
    exact ⟨[], [], rfl, rfl, fun other _ _ => Nat.zero_le other.length⟩
  | cons c rest ih =>
    by_cases hprefix : delimiter <+: c :: rest
    · have hstarts : startsWith (c :: rest) delimiter := List.isPrefixOf_iff_prefix.mpr hprefix
      obtain ⟨left, hleft⟩ := hprefix
      refine ⟨[], left, hleft.symm, ?_, fun other _ _ => Nat.zero_le other.length⟩
      rw [lengthThrough, if_pos hstarts, List.nil_append]
    · have hstarts : ¬ startsWith (c :: rest) delimiter :=
        fun hstarts => hprefix (List.isPrefixOf_iff_prefix.mp hstarts)
      obtain ⟨before, left, rfl, hlength, hfirst⟩ :=
        ih ((List.infix_cons_iff.mp h).resolve_left hprefix)
      refine ⟨c :: before, left, rfl, ?_, ?_⟩
      · rw [lengthThrough, if_neg hstarts, hlength]
        rfl
      · intro other later heq
        cases other with
        | nil => exact absurd ⟨later, heq.symm⟩ hprefix
        | cons d other => exact Nat.succ_le_succ (hfirst other later (List.cons.inj heq).2)

/-- The members of a class are not structural when no structural character is a member. -/
theorem isStructural_eq_false {isMember : Char → Bool} {c : Char}
    (h : ('/' :: structuralChars).all (!isMember ·)) (hc : isMember c) :
    isStructural c = false ∧ c ≠ '/' := by
  have hmem : c ∉ '/' :: structuralChars := by
    intro hmem
    simpa [hc] using List.all_eq_true.mp h c hmem
  rw [List.mem_cons, not_or] at hmem
  exact ⟨by simpa [isStructural] using hmem.2, hmem.1⟩

/-- A quoted run that is closed, on one line or not, is closed at the same place when more
follows. -/
theorem quotedExtent_append {quote : Char} {oneLine : Bool} {text : Text} {n : Nat}
    (h : quotedExtent quote oneLine text = .closed n) (more : Text) :
    quotedExtent quote false (text ++ more) = .closed n := by
  fun_induction quotedExtent quote oneLine text generalizing n with
  | case1 => cases h
  | case2 => cases h
  | case3 c later ih =>
    obtain ⟨m, hm, rfl⟩ := Extent.shift_eq_closed.mp h
    rw [List.cons_append, List.cons_append, quotedExtent, if_pos rfl, ih hm]
    rfl
  | case4 rest hescape =>
    rw [List.cons_append, quotedExtent.eq_def]
    simp only [hescape, if_false, if_true]
    exact h
  | case5 => cases h
  | case6 c rest hescape hquote _ ih =>
    obtain ⟨m, hm, rfl⟩ := Extent.shift_eq_closed.mp h
    rw [List.cons_append, quotedExtent.eq_def]
    simp only [hescape, hquote, if_false, Bool.false_and, Bool.false_eq_true, ih hm]
    rfl

namespace PassesOver

variable {a b text next : Text} {c : Char}

/-- Nothing is passed over. -/
theorem nil (next : Text) : PassesOver [] next := by
  intro bracket depth
  rw [List.nil_append, List.length_nil]
  cases balancedExtent bracket.opening bracket.closing depth next <;> rfl

/-- Pieces that follow one another are passed over together. -/
theorem append (ha : PassesOver a (b ++ next)) (hb : PassesOver b next) :
    PassesOver (a ++ b) next := by
  intro bracket depth
  rw [List.append_assoc, ha, hb, Extent.shift_shift, List.length_append, Nat.add_comm]

/-- An item that does not begin with a bracket is passed over as a whole. -/
theorem of_itemLength (hc : ∀ bracket : Bracket, c ≠ bracket.opening ∧ c ≠ bracket.closing)
    (hlength : itemLength c (text ++ next) = text.length + 1) : PassesOver (c :: text) next := by
  intro bracket depth
  rw [List.cons_append, balancedExtent_cons_of_ne (hc bracket).1 (hc bracket).2, hlength,
    Nat.add_sub_cancel, List.drop_left, List.length_cons]

/-- A character without a meaning of its own is passed over when it does not open a comment. -/
theorem char (hc : isStructural c = false)
    (hcomment : c = '/' → Reader.opensComment ('/' :: next) = false) : PassesOver [c] next := by
  simp only [isStructural, structuralChars, List.contains_eq_mem, decide_eq_false_iff_not,
    List.mem_cons, List.not_mem_nil, or_false, not_or] at hc
  obtain ⟨hescape, hsingle, hdouble, hbacktick, hbrackets⟩ := hc
  have hquote : isQuote c = false := by simp [isQuote, hsingle, hdouble, hbacktick]
  have hopening : (Text.startsWith (c :: next) lineCommentOpening ||
      Text.startsWith (c :: next) blockCommentOpening) = false := by
    by_cases hslash : c = '/'
    · subst hslash
      exact (Bool.or_eq_false_iff.mp (hcomment rfl)).1
    · simp [Text.startsWith, lineCommentOpening, blockCommentOpening, List.isPrefixOf,
        Ne.symm hslash]
  rw [Bool.or_eq_false_iff] at hopening
  apply of_itemLength
  · intro bracket
    cases bracket <;> simp [Bracket.opening, Bracket.closing, hbrackets]
  · simp [itemLength, hescape, hquote, hopening]

/-- A text without special characters is passed over. -/
theorem of_forall (h : ∀ c ∈ text, isStructural c = false ∧ c ≠ '/') : PassesOver text next := by
  induction text with
  | nil => exact nil next
  | cons c rest ih =>
    rw [List.forall_mem_cons] at h
    have hc : PassesOver [c] (rest ++ next) := char h.1.1 fun hslash => absurd hslash h.1.2
    exact hc.append (ih h.2)

/-- A quote with a closed run behind it is passed over. -/
theorem quoted {oneLine : Bool} {rest : Text} (hc : isQuote c)
    (h : quotedExtent c oneLine (text ++ rest) = .closed text.length) :
    PassesOver (c :: text) (rest ++ next) := by
  apply of_itemLength
  · rintro bracket
    constructor <;> rintro rfl <;> cases bracket <;> cases hc
  · have hescape : c ≠ '\\' := by
      rintro rfl
      cases hc
    rw [itemLength, if_neg hescape, if_pos hc, ← List.append_assoc, quotedExtent_append h]
    rfl

/-- A comment to the end of the line is passed over when it ends there. -/
theorem lineComment (hopening : Text.startsWith text lineCommentOpening)
    (hlength : Text.lengthWhile (· != '\n') (text ++ next) = text.length) :
    PassesOver text next := by
  obtain ⟨rest, rfl⟩ := List.isPrefixOf_iff_prefix.mp hopening
  apply of_itemLength
  · intro bracket
    cases bracket <;> exact ⟨by decide, by decide⟩
  · rw [itemLength, if_neg (by decide), if_neg (by decide)]
    exact (if_pos (Text.startsWith_append hopening next)).trans hlength

/-- A block comment is passed over when its end is found at its end. -/
theorem blockComment (hopening : Text.startsWith text blockCommentOpening)
    (hlength : Text.lengthThrough blockCommentClosing (text ++ next) = text.length) :
    PassesOver text next := by
  obtain ⟨rest, rfl⟩ := List.isPrefixOf_iff_prefix.mp hopening
  apply of_itemLength
  · intro bracket
    cases bracket <;> exact ⟨by decide, by decide⟩
  · have hline : ¬ Text.startsWith ('/' :: ('*' :: rest ++ next)) lineCommentOpening := by
      simp [Text.startsWith, lineCommentOpening]
    rw [itemLength, if_neg (by decide), if_neg (by decide)]
    exact ((if_neg hline).trans (if_pos (Text.startsWith_append hopening next))).trans hlength

/-- A bracketed text of any sort is passed over when what is between the brackets is. -/
theorem bracketed (inner : Bracket) (h : PassesOver text (inner.closing :: next)) :
    PassesOver (inner.opening :: text ++ [inner.closing]) next := by
  intro bracket depth
  by_cases hsort : bracket = inner
  · subst hsort
    rw [List.append_assoc, List.cons_append, balancedExtent_opening, List.singleton_append, h,
      balancedExtent_closing]
    simp [Extent.shift_shift, Nat.add_comm]
  · have hopening : inner.opening ≠ bracket.opening ∧ inner.opening ≠ bracket.closing := by
      cases bracket <;> cases inner <;> simp [Bracket.opening, Bracket.closing] at hsort ⊢
    have hclosing : inner.closing ≠ bracket.opening ∧ inner.closing ≠ bracket.closing := by
      cases bracket <;> cases inner <;> simp [Bracket.opening, Bracket.closing] at hsort ⊢
    have hitem (rest : Text) : itemLength inner.opening rest = 1 ∧
        itemLength inner.closing rest = 1 := by
      cases inner <;> simp [itemLength, isQuote, Text.startsWith, lineCommentOpening,
        blockCommentOpening, Bracket.opening, Bracket.closing]
    rw [List.append_assoc, List.cons_append, balancedExtent_cons_of_ne hopening.1 hopening.2,
      (hitem _).1, List.singleton_append, Nat.sub_self, List.drop_zero, h,
      balancedExtent_cons_of_ne hclosing.1 hclosing.2, (hitem _).2, Nat.sub_self, List.drop_zero]
    simp [Extent.shift_shift, Nat.add_comm]

end PassesOver

/-- A bracketed text is a lexeme of its reader when what is between the brackets is passed over. -/
theorem Bracket.reader_of_passesOver {bracket : Bracket} {text rest : Text}
    (h : PassesOver text (bracket.closing :: rest)) (config : LexerConfig) :
    bracket.reader config (bracket.opening :: text ++ bracket.closing :: rest) =
      .lexeme (bracket.kind config) (text.length + 2) := by
  have hextent : balancedExtent bracket.opening bracket.closing 0
      (text ++ bracket.closing :: rest) = .closed (text.length + 1) := by
    rw [h, balancedExtent_end, Extent.shift, Nat.add_comm]
  rw [reader_eq_balanced, List.cons_append, Reader.balanced, if_pos rfl, hextent]

/-- Where a bracket opens, its reader answers. -/
theorem Bracket.scan_opening (bracket : Bracket) (config : LexerConfig) (rest : Text) :
    scan config (bracket.opening :: rest) = bracket.reader config (bracket.opening :: rest) := by
  have hanswers : bracket.reader config (bracket.opening :: rest) ≠ .declined := by
    rw [bracket.reader_eq_balanced, Reader.balanced, if_pos rfl]
    split <;> simp
  -- The readers in front of this one decline by the bracket alone.
  cases bracket with
  | round => exact Reader.firstAnswer_cons_of_ne hanswers (Reader.all.drop 6)
  | square => exact Reader.firstAnswer_cons_of_ne hanswers (Reader.all.drop 7)
  | curly => exact Reader.firstAnswer_cons_of_ne hanswers (Reader.all.drop 8)

/-- Where a brace opens, its reader answers. -/
theorem scan_brace (config : LexerConfig) (rest : Text) :
    scan config ('\x7b' :: rest) = Reader.braces config ('\x7b' :: rest) :=
  Bracket.curly.scan_opening config rest

end StyleSyntax
