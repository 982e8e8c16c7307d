import StyleSyntax.Proofs.Lexer.Passing

/-!
# Items of balanced spans

What stands inside a balanced span besides brackets of its own sort: escaped characters, quoted
runs, comments and other characters, told by their form. The search for the closing bracket passes
over such an item as one piece, and what it passes over as one piece on its way to a closing bracket
is such an item.
-/

namespace StyleSyntax

/-- What a quoted run has behind its opening quote: characters, each alone or behind a backslash,
and the same quote at the end. -/
inductive IsQuotedRun (quote : Char) : Text → Prop where
  | close : IsQuotedRun quote [quote]
  | escaped (c : Char) {run : Text} : IsQuotedRun quote run → IsQuotedRun quote ('\\' :: c :: run)
  | char {c : Char} {run : Text} : c ≠ '\\' → c ≠ quote → IsQuotedRun quote run →
      IsQuotedRun quote (c :: run)

/-- The characters that no backslash takes with it. -/
def unescaped : Text → Text
  | [] => []
  | c :: rest =>
    if c = '\\' then
      match rest with
      | [] => []
      | _ :: later => unescaped later
    else c :: unescaped rest

/-- An item inside a balanced span, in front of the rest of the inside. A line comment ends before
a line feed, and a block comment with the first closing that is found from its slash on. -/
inductive Bracket.IsItem (bracket : Bracket) (next : Text) : Text → Prop where
  | escaped (c : Char) : IsItem bracket next ['\\', c]
  | quoted {quote : Char} {run : Text} : isQuote quote → IsQuotedRun quote run →
      IsItem bracket next (quote :: run)
  | lineComment (text : Text) : '\n' ∉ text → next.head? = some '\n' →
      IsItem bracket next (lineCommentOpening ++ text)
  | blockComment (text : Text) : Text.startsWith text blockCommentOpening →
      blockCommentClosing <:+: text →
      Text.lengthThrough blockCommentClosing text = text.length → IsItem bracket next text
  | char {c : Char} : c ≠ bracket.opening → c ≠ bracket.closing → c ≠ '\\' → isQuote c = false →
      (c = '/' → next.head? ≠ some '/' ∧ next.head? ≠ some '*') → IsItem bracket next [c]

variable {bracket : Bracket} {quote c : Char} {text after next item run rest : Text}

/-! ## Quoted runs -/

/-- A shifted extent lacks its end when the extent does. -/
theorem Extent.shift_eq_unclosed {count n : Nat} {extent : Extent} :
    extent.shift count = .unclosed n ↔ ∃ m, extent = .unclosed m ∧ n = m + count := by
  cases extent <;> simp [Extent.shift, eq_comm]

/-- Nothing is added to an extent that is seen from its own place. -/
theorem Extent.shift_zero (extent : Extent) : extent.shift 0 = extent := by
  cases extent <;> rfl

/-- A backslash takes the next character with it. -/
@[simp] theorem unescaped_escape (c : Char) (later : Text) :
    unescaped ('\\' :: c :: later) = unescaped later := by
  rw [unescaped, if_pos rfl]

/-- Any other character stands alone. -/
theorem unescaped_cons (hescape : c ≠ '\\') (rest : Text) :
    unescaped (c :: rest) = c :: unescaped rest := by
  rw [unescaped.eq_def]
  exact if_neg hescape

/-- A quote is neither a backslash nor a line feed. -/
theorem ne_of_isQuote (h : isQuote c) : c ≠ '\\' ∧ c ≠ '\n' := by
  constructor <;> rintro rfl <;> cases h

/-- Strings stand between quotes. -/
theorem isQuote_of_eq (h : c = '\x27' ∨ c = '\x22') : isQuote c := by
  rcases h with rfl | rfl <;> rfl

/-- A quoted run is closed at its end, on one line when its line feeds are escaped. -/
theorem IsQuotedRun.quotedExtent_append {oneLine : Bool} (h : IsQuotedRun quote run)
    (hquote : isQuote quote) (hline : oneLine → '\n' ∉ unescaped run) (more : Text) :
    quotedExtent quote oneLine (run ++ more) = .closed run.length := by
  induction h with
  | close =>
    rw [List.singleton_append, quotedExtent_cons (ne_of_isQuote hquote).1, if_pos rfl]
    rfl
  | escaped c _ ih =>
    rw [unescaped_escape] at hline
    rw [List.cons_append, List.cons_append, quotedExtent, if_pos rfl, ih hline]
    rfl
  | @char c run hescape hc _ ih =>
    rw [unescaped_cons hescape] at hline
    have hfeed : ¬ (oneLine && c == '\n') := by
      rw [Bool.and_eq_true, beq_iff_eq]
      rintro ⟨hone, rfl⟩
      exact hline hone List.mem_cons_self
    have hrest (hone : oneLine) : '\n' ∉ unescaped run :=
      fun hmem => hline hone (List.mem_cons_of_mem c hmem)
    rw [List.cons_append, quotedExtent_cons hescape, if_neg hc, if_neg hfeed, ih hrest]
    rfl

/-- What is closed behind a quote is a quoted run, with its line feeds escaped on one line. -/
theorem exists_isQuotedRun_of_quotedExtent {oneLine : Bool} {n : Nat} (hquote : isQuote quote)
    (h : quotedExtent quote oneLine text = .closed n) :
    ∃ run rest, text = run ++ rest ∧ n = run.length ∧ IsQuotedRun quote run ∧
      (oneLine → '\n' ∉ unescaped run) := by
  fun_induction quotedExtent quote oneLine text generalizing n with
  | case1 => cases h
  | case2 => cases h
  | case3 c later ih =>
    obtain ⟨m, hm, rfl⟩ := Extent.shift_eq_closed.mp h
    obtain ⟨run, rest, rfl, rfl, hrun, hline⟩ := ih hm
    exact ⟨'\\' :: c :: run, rest, rfl, rfl, hrun.escaped c, by rwa [unescaped_escape]⟩
  | case4 rest hescape =>
    cases h
    refine ⟨[quote], rest, rfl, rfl, .close, fun _ => ?_⟩
    rw [unescaped_cons hescape]
    simpa [unescaped] using (ne_of_isQuote hquote).2.symm
  | case5 => cases h
  | case6 c rest hescape hc hfeed ih =>
    obtain ⟨m, hm, rfl⟩ := Extent.shift_eq_closed.mp h
    obtain ⟨run, later, rfl, rfl, hrun, hline⟩ := ih hm
    refine ⟨c :: run, later, rfl, rfl, .char hescape hc hrun, fun hone => ?_⟩
    have hne : '\n' ≠ c := by
      rintro rfl
      simp [hone] at hfeed
    rw [unescaped_cons hescape]
    exact List.not_mem_cons_of_ne_of_not_mem hne (hline hone)

/-- A text is closed at its end exactly when it is a quoted run. -/
theorem quotedExtent_append_eq_closed {oneLine : Bool} (hquote : isQuote quote) :
    quotedExtent quote oneLine (run ++ rest) = .closed run.length ↔
      IsQuotedRun quote run ∧ (oneLine → '\n' ∉ unescaped run) := by
  refine ⟨fun h => ?_, fun h => h.1.quotedExtent_append hquote h.2 rest⟩
  obtain ⟨found, later, htext, hlength, hfound⟩ := exists_isQuotedRun_of_quotedExtent hquote h
  obtain ⟨rfl, -⟩ := List.append_inj htext hlength
  exact hfound

/-- The search for the end of a quoted run fails exactly where no quoted run is. -/
theorem exists_quotedExtent_eq_unclosed {oneLine : Bool} (hquote : isQuote quote) :
    (∃ n, quotedExtent quote oneLine text = .unclosed n) ↔
      ¬ ∃ run after, text = run ++ after ∧ IsQuotedRun quote run ∧
        (oneLine → '\n' ∉ unescaped run) := by
  constructor
  · rintro ⟨n, hopen⟩ ⟨run, after, rfl, hrun, hline⟩
    rw [hrun.quotedExtent_append hquote hline] at hopen
    cases hopen
  · intro hnone
    cases hextent : quotedExtent quote oneLine text with
    | closed n =>
      obtain ⟨run, after, htext, -, hrun⟩ := exists_isQuotedRun_of_quotedExtent hquote hextent
      exact absurd ⟨run, after, htext, hrun⟩ hnone
    | unclosed n => exact ⟨n, rfl⟩

/-- The search for the end of a quoted run that may go over lines stops at the end of the text. -/
theorem eq_length_of_quotedExtent_eq_unclosed {n : Nat}
    (h : quotedExtent quote false text = .unclosed n) : n = text.length := by
  fun_induction quotedExtent quote false text generalizing n with
  | case1 => cases h; rfl
  | case2 => cases h; rfl
  | case3 c later ih =>
    obtain ⟨m, hm, rfl⟩ := Extent.shift_eq_unclosed.mp h
    rw [ih hm]
    rfl
  | case4 => cases h
  | case5 c rest _ _ hline => cases hline
  | case6 c rest _ _ _ ih =>
    obtain ⟨m, hm, rfl⟩ := Extent.shift_eq_unclosed.mp h
    rw [ih hm]
    rfl

/-! ## Comments -/

/-- A delimiter that ends within a text occurs in what it ends. -/
theorem Text.isInfix_of_lengthThrough {delimiter a b : Text}
    (h : lengthThrough delimiter (a ++ b) = a.length) (hb : b ≠ []) : delimiter <:+: a := by
  induction a with
  | nil =>
    obtain ⟨c, rest, rfl⟩ := List.exists_cons_of_ne_nil hb
    rw [List.nil_append, lengthThrough] at h
    split_ifs at h
    · obtain rfl := List.length_eq_zero_iff.mp h
      exact List.nil_infix
  | cons c rest ih =>
    rw [List.cons_append, lengthThrough] at h
    split_ifs at h with hstarts
    · have hprefix : delimiter <+: (c :: rest) ++ b := List.isPrefixOf_iff_prefix.mp hstarts
      exact (List.prefix_of_prefix_length_le hprefix (List.prefix_append _ b) h.le).isInfix
    · exact (ih (Nat.succ.inj h)).trans (List.suffix_cons c rest).isInfix

/-! ## Items -/

/-- A backslash takes the next character with it, if there is one. -/
theorem itemLength_escape (rest : Text) : itemLength '\\' rest = min 2 (rest.length + 1) :=
  if_pos rfl

/-- A quote takes the run behind it with it. -/
theorem itemLength_quote (hquote : isQuote c) (rest : Text) :
    itemLength c rest = (quotedExtent c false rest).length + 1 := by
  rw [itemLength, if_neg (ne_of_isQuote hquote).1, if_pos hquote]

/-- The opening of a line comment takes the rest of the line with it. -/
theorem itemLength_lineComment (h : Text.startsWith (c :: rest) lineCommentOpening) :
    itemLength c rest = Text.lengthWhile (· != '\n') (c :: rest) := by
  obtain ⟨later, hlater⟩ := List.isPrefixOf_iff_prefix.mp h
  cases hlater
  rfl

/-- The opening of a block comment takes everything through the closing with it. -/
theorem itemLength_blockComment (h : Text.startsWith (c :: rest) blockCommentOpening) :
    itemLength c rest = Text.lengthThrough blockCommentClosing (c :: rest) := by
  obtain ⟨later, hlater⟩ := List.isPrefixOf_iff_prefix.mp h
  cases hlater
  rfl

/-- Any other character is an item of its own. -/
theorem itemLength_eq_one (hescape : c ≠ '\\') (hquote : isQuote c = false)
    (hcomment : c = '/' → rest.head? ≠ some '/' ∧ rest.head? ≠ some '*') :
    itemLength c rest = 1 := by
  have hline : ¬ Text.startsWith (c :: rest) lineCommentOpening := by
    intro hline
    obtain ⟨later, hlater⟩ := List.isPrefixOf_iff_prefix.mp hline
    cases hlater
    exact (hcomment rfl).1 rfl
  have hblock : ¬ Text.startsWith (c :: rest) blockCommentOpening := by
    intro hblock
    obtain ⟨later, hlater⟩ := List.isPrefixOf_iff_prefix.mp hblock
    cases hlater
    exact (hcomment rfl).2 rfl
  simp [itemLength, hescape, hquote, hline, hblock]

/-- An item reaches no further than the text. -/
theorem itemLength_le (c : Char) (rest : Text) : itemLength c rest ≤ rest.length + 1 := by
  unfold itemLength
  split_ifs
  · omega
  · cases hextent : quotedExtent c false rest with
    | closed n =>
      obtain ⟨body, later, rfl, rfl⟩ := exists_of_quotedExtent_eq_closed hextent
      simp [Extent.length]
    | unclosed n => simp [Extent.length, eq_length_of_quotedExtent_eq_unclosed hextent]
  · exact Text.lengthWhile_le _ _
  · exact Text.lengthThrough_le _ _
  · omega

namespace Bracket

/-- Brackets are not counted in where items begin or end. -/
theorem isBracket_ne (h : c = bracket.opening ∨ c = bracket.closing) :
    c ≠ '\\' ∧ isQuote c = false ∧ c ≠ '\n' ∧ c ≠ '/' ∧ c ≠ '*' := by
  rcases h with rfl | rfl <;> cases bracket <;> decide

/-- What begins an escape, a quoted run or a comment is no bracket. -/
theorem ne_brackets (h : c = '\\' ∨ isQuote c ∨ c = '/') :
    c ≠ bracket.opening ∧ c ≠ bracket.closing := by
  rw [← not_or]
  intro hbracket
  obtain ⟨hescape, hquote, -, hslash, -⟩ := isBracket_ne hbracket
  simp [hescape, hquote, hslash] at h

/-- An item begins with a character other than the brackets, and the search takes the item as one
piece. -/
theorem IsItem.exists_cons (h : bracket.IsItem next item) (after : Text) :
    ∃ c rest, item = c :: rest ∧ c ≠ bracket.opening ∧ c ≠ bracket.closing ∧
      itemLength c (rest ++ (next ++ bracket.closing :: after)) = rest.length + 1 := by
  have hslash : '/' ≠ bracket.opening ∧ '/' ≠ bracket.closing := ne_brackets (.inr (.inr rfl))
  cases h with
  | escaped c =>
    obtain ⟨hopening, hclosing⟩ := ne_brackets (.inl (Eq.refl '\\'))
    exact ⟨_, _, rfl, hopening, hclosing, by simp [itemLength_escape]⟩
  | @quoted quote run hquote hrun =>
    obtain ⟨hopening, hclosing⟩ := ne_brackets (.inr (.inl hquote))
    refine ⟨_, _, rfl, hopening, hclosing, ?_⟩
    rw [itemLength_quote hquote, hrun.quotedExtent_append hquote (by simp)]
    rfl
  | lineComment text htext hnext =>
    refine ⟨_, _, rfl, hslash.1, hslash.2, ?_⟩
    obtain ⟨next, rfl⟩ := List.head?_eq_some_iff.mp hnext
    refine (itemLength_lineComment rfl).trans
      (Text.lengthWhile_append_eq_length (a := lineCommentOpening ++ text) |>.mpr ⟨?_, ?_⟩)
    · simpa [lineCommentOpening] using fun d hd => ne_of_mem_of_not_mem hd htext
    · simp
  | blockComment text hopening hclosing hlength =>
    obtain ⟨text, rfl⟩ := List.isPrefixOf_iff_prefix.mp hopening
    refine ⟨_, _, rfl, hslash.1, hslash.2, ?_⟩
    exact ((itemLength_blockComment rfl).trans
      (Text.lengthThrough_append_of_isInfix hclosing _)).trans hlength
  | @char c hopening hclosing hescape hquote hcomment =>
    refine ⟨c, [], rfl, hopening, hclosing, itemLength_eq_one hescape hquote fun hc => ?_⟩
    cases next with
    | nil =>
      have hne : bracket.closing ≠ '/' ∧ bracket.closing ≠ '*' := (isBracket_ne (.inr rfl)).2.2.2
      simp [hne]
    | cons d next => exact hcomment hc

section Piece

variable (h : c :: rest = item ++ (next ++ bracket.closing :: after))
  (hlength : itemLength c rest = item.length)

include h hlength

/-- What the search takes as one piece is known by its length. -/
theorem item_eq_of_itemLength {a b : Text} (hab : c :: rest = a ++ b)
    (ha : itemLength c rest = a.length) : item = a :=
  (List.append_inj (h.symm.trans hab) (hlength.symm.trans ha)).1

/-- A piece in front of a closing bracket is shorter than the text. -/
theorem itemLength_lt : itemLength c rest < rest.length + 1 := by
  have hlengths := congrArg List.length h
  simp only [List.length_cons, List.length_append] at hlengths
  omega

/-- An escaped character in front of a closing bracket is an item. -/
theorem isItem_of_escape (hescape : c = '\\') : bracket.IsItem next item := by
  subst hescape
  cases rest with
  | nil => exact absurd (itemLength_lt h hlength) (by simp [itemLength_escape])
  | cons d later =>
    obtain rfl := item_eq_of_itemLength (a := ['\\', d]) h hlength rfl (by simp [itemLength_escape])
    exact .escaped d

/-- A quoted run in front of a closing bracket is an item. -/
theorem isItem_of_quote (hquote : isQuote c) : bracket.IsItem next item := by
  have hshort := itemLength_lt h hlength
  have hextent := itemLength_quote hquote rest
  cases hrun : quotedExtent c false rest with
  | closed n =>
    obtain ⟨run, later, rfl, rfl, hrun', -⟩ := exists_isQuotedRun_of_quotedExtent hquote hrun
    rw [hrun] at hextent
    obtain rfl := item_eq_of_itemLength (a := c :: run) h hlength rfl hextent
    exact .quoted hquote hrun'
  | unclosed n =>
    rw [hrun, Extent.length, eq_length_of_quotedExtent_eq_unclosed hrun] at hextent
    omega

/-- A line comment in front of a closing bracket is an item. -/
theorem isItem_of_lineComment (hline : Text.startsWith (c :: rest) lineCommentOpening) :
    bracket.IsItem next item := by
  rw [itemLength_lineComment hline, h] at hlength
  rw [h] at hline
  obtain ⟨text, rfl⟩ := List.isPrefixOf_iff_prefix.mp (Text.startsWith_of_append hline
    ((Reader.two_le_of_lineCommentOpening hline).trans hlength.le))
  obtain ⟨hmembers, hends⟩ := Text.lengthWhile_append_eq_length.mp hlength
  refine .lineComment text (fun hmem => ?_) ?_
  · simpa using hmembers '\n' (List.mem_append_right _ hmem)
  · cases next with
    | nil => simpa [(isBracket_ne (.inr rfl)).2.2.1] using hends bracket.closing rfl
    | cons d next => simpa using hends d rfl

/-- A block comment in front of a closing bracket is an item. -/
theorem isItem_of_blockComment (hblock : Text.startsWith (c :: rest) blockCommentOpening) :
    bracket.IsItem next item := by
  rw [itemLength_blockComment hblock, h] at hlength
  rw [h] at hblock
  exact .blockComment item
    (Text.startsWith_of_append hblock
      ((Reader.two_le_of_blockCommentOpening hblock).trans hlength.le))
    (Text.isInfix_of_lengthThrough hlength (by simp))
    ((Text.lengthThrough_of_append hlength.le).trans hlength)

/-- What the search takes as one piece is an item, when it goes on to a closing bracket. -/
theorem isItem_of_itemLength (hopening : c ≠ bracket.opening) (hclosing : c ≠ bracket.closing) :
    bracket.IsItem next item := by
  by_cases hescape : c = '\\'
  · exact isItem_of_escape h hlength hescape
  by_cases hquote : isQuote c
  · exact isItem_of_quote h hlength hquote
  by_cases hline : Text.startsWith (c :: rest) lineCommentOpening
  · exact isItem_of_lineComment h hlength hline
  by_cases hblock : Text.startsWith (c :: rest) blockCommentOpening
  · exact isItem_of_blockComment h hlength hblock
  have hcomment : c = '/' → rest.head? ≠ some '/' ∧ rest.head? ≠ some '*' := by
    rintro rfl
    constructor <;> intro hhead <;> obtain ⟨later, rfl⟩ := List.head?_eq_some_iff.mp hhead
    · exact hline rfl
    · exact hblock rfl
  rw [Bool.not_eq_true] at hquote
  obtain rfl := item_eq_of_itemLength (a := [c]) h hlength rfl
    (itemLength_eq_one hescape hquote hcomment)
  obtain rfl : rest = next ++ bracket.closing :: after := by simpa using h
  refine .char hopening hclosing hescape hquote fun hc => ?_
  cases next with
  | nil => simp
  | cons d next => exact hcomment hc

end Piece

end Bracket

end StyleSyntax
