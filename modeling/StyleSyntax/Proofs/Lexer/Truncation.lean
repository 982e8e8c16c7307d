import StyleSyntax.Proofs.Lexer.Lossless

/-!
# Beginnings of texts

A reader that finds a token within the beginning of a text finds it in the beginning alone, and one
that declines the text declines the beginning, so the scan finds there what it finds in the text. A
run of joined punctuation looks one step further, for it ends before a comment; but a comment that
opens where a token begins has its opening in that token. Tokens that are cut out of a text
therefore split again as they were.
-/

namespace StyleSyntax

variable {config : LexerConfig}

/-- A run that ends within the beginning of a text has the same length there. -/
theorem Text.lengthWhile_of_append {isMember : Char → Bool} {a b : Text}
    (h : lengthWhile isMember (a ++ b) ≤ a.length) :
    lengthWhile isMember a = lengthWhile isMember (a ++ b) := by
  induction a with
  | nil => simpa [lengthWhile, eq_comm] using h
  | cons c rest ih =>
    simp only [List.cons_append, lengthWhile, List.length_cons] at h ⊢
    split_ifs at h ⊢
    · rw [ih (Nat.le_of_succ_le_succ h)]
    · rfl

/-- A run ends in front of the first character that is no member. -/
theorem Text.lengthWhile_append_eq_length {isMember : Char → Bool} {a b : Text} :
    lengthWhile isMember (a ++ b) = a.length ↔
      (∀ d ∈ a, isMember d) ∧ ∀ d ∈ b.head?, isMember d = false := by
  induction a with
  | nil =>
    cases b with
    | nil => simp [lengthWhile]
    | cons c rest => by_cases hc : isMember c <;> simp [lengthWhile, hc]
  | cons c rest ih => by_cases hc : isMember c <;> simp [lengthWhile, hc, ih]

/-- A text opens with whatever its beginning opens with. -/
theorem Text.startsWith_append {a opening : Text} (h : startsWith a opening) (b : Text) :
    startsWith (a ++ b) opening :=
  List.isPrefixOf_iff_prefix.mpr ((List.isPrefixOf_iff_prefix.mp h).trans (List.prefix_append a b))

/-- A beginning long enough opens as the text does. -/
theorem Text.startsWith_of_append {a b opening : Text} (h : startsWith (a ++ b) opening)
    (hlength : opening.length ≤ a.length) : startsWith a opening :=
  List.isPrefixOf_iff_prefix.mpr
    (List.prefix_of_prefix_length_le (List.isPrefixOf_iff_prefix.mp h) (List.prefix_append a b)
      hlength)

/-- A delimiter that is found within the beginning of a text is found at the same place there. -/
theorem Text.lengthThrough_of_append {delimiter a b : Text}
    (h : lengthThrough delimiter (a ++ b) ≤ a.length) :
    lengthThrough delimiter a = lengthThrough delimiter (a ++ b) := by
  induction a with
  | nil => simpa [lengthThrough, eq_comm] using h
  | cons c rest ih =>
    rw [List.cons_append, lengthThrough] at h ⊢
    rw [lengthThrough]
    split_ifs at h with hfull
    · have hpart := startsWith_of_append (a := c :: rest) hfull h
      rw [if_pos hpart, if_pos hfull]
    · have hpart : ¬ startsWith (c :: rest) delimiter :=
        fun hpart => hfull (startsWith_append hpart b)
      rw [if_neg hpart, if_neg hfull, ih (Nat.le_of_succ_le_succ h)]

namespace Reader

/-- A reader that does not decline gives the first answer. -/
theorem firstAnswer_cons_of_ne {reader : Reader} {text : Text}
    (h : reader config text ≠ .declined) (after : List Reader) :
    firstAnswer config text (reader :: after) = reader config text := by
  unfold firstAnswer
  split
  · contradiction
  · rfl

/-- A first answer that does not decline is the answer of a reader. -/
theorem exists_of_firstAnswer {readers : List Reader} {text : Text} {answer : Scan}
    (hanswer : answer ≠ .declined) (h : firstAnswer config text readers = answer) :
    ∃ reader ∈ readers, reader config text = answer := by
  induction readers with
  | nil => exact absurd h.symm hanswer
  | cons reader rest ih =>
    unfold firstAnswer at h
    split at h
    · obtain ⟨found, hmem, hfound⟩ := ih h
      exact ⟨found, List.mem_cons_of_mem _ hmem, hfound⟩
    · exact ⟨reader, List.mem_cons_self, h⟩

/-- The shortest comment between angle brackets is its opening. -/
theorem four_le_of_cssCommentOpening {text : Text} (h : Text.startsWith text cssCommentOpening) :
    4 ≤ Text.lengthThrough cssCommentClosing text := by
  obtain ⟨rest, rfl⟩ := List.isPrefixOf_iff_prefix.mp h
  simp only [cssCommentOpening, List.cons_append, List.nil_append, Text.lengthThrough]
  simp only [Text.startsWith, cssCommentClosing, List.isPrefixOf, Char.reduceBEq, Bool.false_and,
    Bool.false_eq_true, ↓reduceIte, List.length_cons, List.length_nil]
  split_ifs <;> omega

/-- The shortest block comment is its opening. -/
theorem two_le_of_blockCommentOpening {text : Text}
    (h : Text.startsWith text blockCommentOpening) :
    2 ≤ Text.lengthThrough blockCommentClosing text := by
  obtain ⟨rest, rfl⟩ := List.isPrefixOf_iff_prefix.mp h
  simp only [blockCommentOpening, List.cons_append, List.nil_append, Text.lengthThrough]
  split_ifs <;> simp [blockCommentClosing]

/-- The shortest line comment is its opening. -/
theorem two_le_of_lineCommentOpening {text : Text} (h : Text.startsWith text lineCommentOpening) :
    2 ≤ Text.lengthWhile (· != '\n') text := by
  obtain ⟨rest, rfl⟩ := List.isPrefixOf_iff_prefix.mp h
  simp [lineCommentOpening, Text.lengthWhile]

/-- A comment opens with one of three openings. -/
theorem opensComment_iff {text : Text} :
    opensComment text ↔ Text.startsWith text cssCommentOpening ∨
      Text.startsWith text lineCommentOpening ∨ Text.startsWith text blockCommentOpening := by
  rw [opensComment, Bool.or_eq_true, Bool.or_eq_true, or_comm]

/-- A comment that opens with the beginning of a text opens with the text. -/
theorem opensComment_append {a : Text} (h : opensComment a) (b : Text) : opensComment (a ++ b) := by
  rw [opensComment_iff] at h ⊢
  exact h.imp (Text.startsWith_append · b) (.imp (Text.startsWith_append · b)
    (Text.startsWith_append · b))

/-- Where no comment opens with a text, none opens with its beginning. -/
theorem opensComment_eq_false_of_append {a b : Text} (h : opensComment (a ++ b) = false) :
    opensComment a = false := by
  rw [← Bool.not_eq_true] at h ⊢
  exact fun hopens => h (opensComment_append hopens b)

/-- No whitespace stands where a comment opens. -/
theorem space_of_opensComment {text : Text} (h : opensComment text) :
    space config text = .declined := by
  have hslash : isSpace '/' = false := by decide
  have hangle : isSpace '<' = false := by decide
  rcases opensComment_iff.mp h with hopens | hopens | hopens
  all_goals
    obtain ⟨rest, rfl⟩ := List.isPrefixOf_iff_prefix.mp hopens
    simp [space, ofRun, Text.lengthWhile, cssCommentOpening, lineCommentOpening,
      blockCommentOpening, hslash, hangle]

/-- Where a comment opens, the scan finds it with its opening, whatever the alphabet. -/
theorem exists_scan_of_opensComment {text : Text} (h : opensComment text) :
    ∃ kind n, scan config text = .lexeme kind n ∧ kind ≠ .symbol ∧ opensComment (text.take n) := by
  have hspace : space config text = .declined := space_of_opensComment h
  have htake (n : Nat) : text = text.take n ++ text.drop n := (List.take_append_drop n text).symm
  -- The opening is no longer than the comment, and no comment is longer than the text.
  have hwithin {opening : Text} {n : Nat} (hopens : Text.startsWith text opening)
      (hlength : opening.length ≤ n) (hn : n ≤ text.length) :
      Text.startsWith (text.take n) opening := by
    rw [htake n] at hopens
    exact Text.startsWith_of_append hopens (by rwa [List.length_take_of_le hn])
  by_cases hcss : Text.startsWith text cssCommentOpening
  · refine ⟨.cssComment, _, ?_, by simp, opensComment_iff.mpr (.inl (hwithin hcss
      (four_le_of_cssCommentOpening hcss) (Text.lengthThrough_le _ _)))⟩
    simp [scan, all, firstAnswer, hspace, cssComment, hcss]
  by_cases hline : Text.startsWith text lineCommentOpening
  · refine ⟨.comment, _, ?_, by simp, opensComment_iff.mpr (.inr (.inl (hwithin hline
      (two_le_of_lineCommentOpening hline) (Text.lengthWhile_le _ _))))⟩
    simp [scan, all, firstAnswer, hspace, cssComment, comment, hcss, hline]
  · have hblock : Text.startsWith text blockCommentOpening :=
      ((opensComment_iff.mp h).resolve_left hcss).resolve_left hline
    refine ⟨.multilineComment, _, ?_, by simp, opensComment_iff.mpr (.inr (.inr (hwithin hblock
      (two_le_of_blockCommentOpening hblock) (Text.lengthThrough_le _ _))))⟩
    simp [scan, all, firstAnswer, hspace, cssComment, comment, hcss, hline, hblock]

/-- A comment that opens with `a ++ b` opens with `a`, unless `a` is empty. -/
def KeepsOpening (a b : Text) : Prop :=
  a ≠ [] → opensComment (a ++ b) → opensComment a

/-- A text that begins with a whole lexeme keeps the opening of a comment. -/
theorem keepsOpening_of_scan {a b : Text} {kind : TokenKind} {n : Nat}
    (h : scan config (a ++ b) = .lexeme kind n) (hn : n ≤ a.length) : KeepsOpening a b := by
  intro _ hopens
  obtain ⟨found, m, hfound, -, htaken⟩ := @exists_scan_of_opensComment config _ hopens
  obtain ⟨-, rfl⟩ := Scan.lexeme.inj (h.symm.trans hfound)
  rw [List.take_append_of_le_length hn] at htaken
  simpa using opensComment_append htaken (a.drop n)

/-- A run of punctuation that ends within the beginning of a text has the same length there, unless
it ends before a comment that opens only in the text. -/
theorem symbolRunLength_of_append {a b : Text} (h : symbolRunLength config (a ++ b) ≤ a.length)
    (hcut : KeepsOpening (a.drop (symbolRunLength config (a ++ b))) b) :
    symbolRunLength config a = symbolRunLength config (a ++ b) := by
  induction a with
  | nil => simpa [symbolRunLength, eq_comm] using h
  | cons c rest ih =>
    rw [List.cons_append, symbolRunLength] at h hcut ⊢
    rw [symbolRunLength]
    by_cases hrun : config.isSymbol c && !opensComment (c :: (rest ++ b))
    · rw [if_pos hrun] at h hcut ⊢
      rw [Bool.and_eq_true, Bool.not_eq_true'] at hrun
      have hpart := opensComment_eq_false_of_append (a := c :: rest) hrun.2
      rw [if_pos (by simp [hrun.1, hpart]), ih (Nat.le_of_succ_le_succ h) hcut]
    · rw [if_neg hrun] at hcut ⊢
      rw [if_neg]
      intro hpart
      rw [Bool.and_eq_true, Bool.not_eq_true'] at hpart
      have hopens : opensComment (c :: (rest ++ b)) := by simpa [hpart.1] using hrun
      have hkept := hcut (List.cons_ne_nil c rest) hopens
      simp [hpart.2] at hkept

end Reader

/-- Where nothing is escaped a quoted run goes on, ends or breaks off with its first character. -/
theorem quotedExtent_cons {quote c : Char} {oneLine : Bool} (hescape : c ≠ '\\') (rest : Text) :
    quotedExtent quote oneLine (c :: rest) =
      if c = quote then .closed 1
      else if oneLine && c == '\n' then .unclosed 0
      else (quotedExtent quote oneLine rest).shift 1 := by
  rw [quotedExtent.eq_def]
  exact if_neg hescape

/-- The search for the end of a quoted run goes nowhere only where it breaks off. -/
theorem quotedExtent_eq_of_length_eq_zero {quote : Char} {oneLine : Bool} {text : Text}
    (h : (quotedExtent quote oneLine text).length = 0) :
    quotedExtent quote oneLine text = .unclosed 0 := by
  cases text with
  | nil => rfl
  | cons c rest =>
    by_cases hescape : c = '\\'
    · subst hescape
      cases rest with
      | nil => cases h
      | cons d later => simp [quotedExtent] at h
    · rw [quotedExtent_cons hescape] at h ⊢
      split_ifs at h ⊢
      · cases h
      · rfl
      · simp at h

/-- A quoted run whose extent is within the beginning of a text has the same extent there. -/
theorem quotedExtent_of_append {quote : Char} {oneLine : Bool} {a b : Text}
    (h : (quotedExtent quote oneLine (a ++ b)).length ≤ a.length) :
    quotedExtent quote oneLine a = quotedExtent quote oneLine (a ++ b) := by
  fun_induction quotedExtent quote oneLine a with
  | case1 => exact (quotedExtent_eq_of_length_eq_zero (Nat.le_zero.mp h)).symm
  | case2 =>
    cases b with
    | nil => rfl
    | cons d rest => simp [quotedExtent] at h
  | case3 c later ih =>
    rw [List.cons_append, List.cons_append, quotedExtent, if_pos rfl] at h ⊢
    rw [Extent.length_shift] at h
    rw [ih (Nat.le_of_add_le_add_right h)]
  | case4 rest hescape => rw [List.cons_append, quotedExtent_cons hescape, if_pos rfl]
  | case5 c rest hescape hquote hline =>
    rw [List.cons_append, quotedExtent_cons hescape, if_neg hquote, if_pos hline]
  | case6 c rest hescape hquote hline ih =>
    rw [List.cons_append, quotedExtent_cons hescape, if_neg hquote, if_neg hline] at h ⊢
    rw [Extent.length_shift] at h
    rw [ih (Nat.le_of_add_le_add_right h)]

/-- An item of a balanced region within the beginning of a text has the same length there. -/
theorem itemLength_of_append {c : Char} {a b : Text} (h : itemLength c (a ++ b) ≤ a.length + 1) :
    itemLength c a = itemLength c (a ++ b) := by
  unfold itemLength at h ⊢
  rw [← List.cons_append] at h ⊢
  by_cases hescape : c = '\\'
  · rw [if_pos hescape, List.length_append] at h ⊢
    rw [if_pos hescape]
    omega
  · rw [if_neg hescape] at h ⊢
    rw [if_neg hescape]
    by_cases hquote : isQuote c
    · rw [if_pos hquote] at h ⊢
      rw [if_pos hquote, quotedExtent_of_append (Nat.le_of_add_le_add_right h)]
    · rw [if_neg hquote] at h ⊢
      rw [if_neg hquote]
      split_ifs at h with hline hblock
      · have hpart := Text.startsWith_of_append hline
          (Nat.le_trans (Reader.two_le_of_lineCommentOpening hline) h)
        rw [if_pos hpart, if_pos hline, Text.lengthWhile_of_append h]
      · have hpart := Text.startsWith_of_append hblock
          (Nat.le_trans (Reader.two_le_of_blockCommentOpening hblock) h)
        have hother : ¬Text.startsWith (c :: a) lineCommentOpening :=
          fun hother => hline (Text.startsWith_append hother b)
        rw [if_neg hother, if_pos hpart, if_neg hline, if_pos hblock,
          Text.lengthThrough_of_append h]
      · rw [if_neg fun hpart => hline (Text.startsWith_append hpart b),
          if_neg fun hpart => hblock (Text.startsWith_append hpart b), if_neg hline, if_neg hblock]

/-- The search for the end of a balanced region looks at its first character. -/
theorem balancedExtent_cons (opening closing : Char) (depth : Nat) (c : Char) (rest : Text) :
    balancedExtent opening closing depth (c :: rest) =
      if c = opening then (balancedExtent opening closing (depth + 1) rest).shift 1
      else if c = closing then
        match depth with
        | 0 => .closed 1
        | outer + 1 => (balancedExtent opening closing outer rest).shift 1
      else
        (balancedExtent opening closing depth (rest.drop (itemLength c rest - 1))).shift
          (itemLength c rest) :=
  balancedExtent.eq_def opening closing depth (c :: rest)

/-- The search for the end of a balanced region goes nowhere only at the end of the text. -/
theorem balancedExtent_eq_of_length_eq_zero {opening closing : Char} {depth : Nat} {text : Text}
    (h : (balancedExtent opening closing depth text).length = 0) :
    balancedExtent opening closing depth text = .unclosed 0 := by
  cases text with
  | nil => rw [balancedExtent]
  | cons c rest =>
    rw [balancedExtent_cons] at h
    split_ifs at h
    · simp at h
    · split at h
      · cases h
      · simp at h
    · have hpos := one_le_itemLength c rest
      rw [Extent.length_shift] at h
      omega

/-- A balanced region whose extent is within the beginning of a text has the same extent there. -/
theorem balancedExtent_of_append {opening closing : Char} {depth : Nat} {a b : Text}
    (h : (balancedExtent opening closing depth (a ++ b)).length ≤ a.length) :
    balancedExtent opening closing depth a = balancedExtent opening closing depth (a ++ b) := by
  fun_induction balancedExtent opening closing depth a with
  | case1 => exact (balancedExtent_eq_of_length_eq_zero (Nat.le_zero.mp h)).symm
  | case2 depth rest ih =>
    rw [List.cons_append, balancedExtent_cons, if_pos rfl] at h ⊢
    rw [Extent.length_shift] at h
    rw [ih (Nat.le_of_add_le_add_right h)]
  | case3 rest hopening => rw [List.cons_append, balancedExtent_cons, if_neg hopening, if_pos rfl]
  | case4 rest outer hopening ih =>
    rw [List.cons_append, balancedExtent_cons, if_neg hopening, if_pos rfl] at h ⊢
    rw [Extent.length_shift] at h
    rw [ih (Nat.le_of_add_le_add_right h)]
  | case5 depth c rest hopening hclosing ih =>
    rw [List.cons_append, balancedExtent_cons, if_neg hopening, if_neg hclosing] at h ⊢
    rw [Extent.length_shift, List.length_cons] at h
    have hpos := one_le_itemLength c (rest ++ b)
    have hitem : itemLength c rest = itemLength c (rest ++ b) := itemLength_of_append (by omega)
    rw [← hitem] at h hpos ⊢
    have hdrop : (rest ++ b).drop (itemLength c rest - 1) =
        rest.drop (itemLength c rest - 1) ++ b := List.drop_append_of_le_length (by omega)
    rw [hdrop] at h ⊢
    rw [ih (by rw [List.length_drop]; omega)]

/-! ## Readers -/

/-- What the reader finds within the beginning of a text it finds in the beginning alone, unless an
opening of a comment is cut behind it, and it declines the beginning when it declines the text. -/
structure Reader.IsLocal (config : LexerConfig) (reader : Reader) : Prop where
  declined {a b : Text} : a ≠ [] → reader config (a ++ b) = .declined → reader config a = .declined
  lexeme {a b : Text} {kind : TokenKind} {n : Nat} : a ≠ [] → KeepsOpening (a.drop n) b →
    reader config (a ++ b) = .lexeme kind n → n ≤ a.length → reader config a = .lexeme kind n

namespace Reader

/-- A run that a reader finds is the longest one of its class. -/
theorem longest_of_ofRun {kind kind' : TokenKind} {isMember : Char → Bool} {value rest : Text}
    (h : ofRun kind' (Text.lengthWhile isMember (value ++ rest)) = .lexeme kind value.length) :
    (∀ c ∈ value, isMember c) ∧ ∀ c ∈ rest.head?, isMember c = false := by
  unfold ofRun at h
  split_ifs at h
  exact Text.lengthWhile_append_eq_length.mp (Scan.lexeme.inj h).2

/-- Runs of one class of characters are local. -/
theorem isLocal_run (kind : TokenKind) (isMember : Char → Bool) :
    IsLocal config fun _ text => ofRun kind (Text.lengthWhile isMember text) where
  declined _ h := by
    unfold ofRun at h ⊢
    split_ifs at h with hzero
    rw [Text.lengthWhile_of_append (hzero ▸ Nat.zero_le _), if_pos hzero]
  lexeme _ _ h hn := by
    unfold ofRun at h ⊢
    split_ifs at h with hzero
    cases h
    rw [Text.lengthWhile_of_append hn, if_neg hzero]

/-- Comments between angle brackets are local. -/
theorem isLocal_cssComment : IsLocal config cssComment where
  declined _ h := by
    unfold cssComment at h ⊢
    split_ifs at h with hfull
    exact if_neg fun hpart => hfull (Text.startsWith_append hpart _)
  lexeme _ _ h hn := by
    unfold cssComment at h ⊢
    split_ifs at h with hfull
    cases h
    have hopening := four_le_of_cssCommentOpening hfull
    rw [if_pos (Text.startsWith_of_append hfull (Nat.le_trans hopening hn)),
      Text.lengthThrough_of_append hn]

/-- Line and block comments are local. -/
theorem isLocal_comment : IsLocal config comment where
  declined _ h := by
    unfold comment at h ⊢
    split_ifs at h with hline hblock
    rw [if_neg fun hpart => hline (Text.startsWith_append hpart _),
      if_neg fun hpart => hblock (Text.startsWith_append hpart _)]
  lexeme _ _ h hn := by
    unfold comment at h ⊢
    split_ifs at h with hline hblock
    · cases h
      have hopening := two_le_of_lineCommentOpening hline
      rw [if_pos (Text.startsWith_of_append hline (Nat.le_trans hopening hn)),
        Text.lengthWhile_of_append hn]
    · cases h
      have hopening := two_le_of_blockCommentOpening hblock
      rw [if_neg fun hpart => hline (Text.startsWith_append hpart _),
        if_pos (Text.startsWith_of_append hblock (Nat.le_trans hopening hn)),
        Text.lengthThrough_of_append hn]

/-- A reader is local when it looks for an opening character and what it searches for behind that
one has an extent of its own. -/
theorem isLocal_of_extent {reader : Reader} {opens : Char → Prop} [DecidablePred opens]
    {extent : Char → Text → Extent} {kind : TokenKind} {fault : LexFault} {blame : Nat → Nat}
    (hreader : ∀ c rest, reader config (c :: rest) =
      if opens c then
        match extent c rest with
        | .closed n => .lexeme kind (n + 1)
        | .unclosed n => .failed fault (blame n) (n + 1)
      else .declined)
    (hextent : ∀ c a b, (extent c (a ++ b)).length ≤ a.length → extent c a = extent c (a ++ b)) :
    IsLocal config reader where
  declined {a b} ha h := by
    obtain ⟨c, rest, rfl⟩ := List.exists_cons_of_ne_nil ha
    rw [List.cons_append, hreader] at h
    rw [hreader]
    split_ifs at h with hopens
    · split at h <;> cases h
    · exact if_neg hopens
  lexeme {a b kind' n} ha _ h hn := by
    obtain ⟨c, rest, rfl⟩ := List.exists_cons_of_ne_nil ha
    rw [List.cons_append, hreader] at h
    rw [hreader]
    split_ifs at h with hopens
    cases hclosed : extent c (rest ++ b) with
    | closed m =>
      rw [hclosed] at h
      cases h
      have hsame : extent c rest = .closed m :=
        (hextent c rest b (by rw [hclosed]; exact Nat.le_of_succ_le_succ hn)).trans hclosed
      rw [if_pos hopens, hsame]
    | unclosed m =>
      rw [hclosed] at h
      cases h

/-- Strings are local. -/
theorem isLocal_string : IsLocal config string :=
  isLocal_of_extent (fun _ _ => rfl) fun _ _ _ => quotedExtent_of_append

/-- Template strings are local. -/
theorem isLocal_templateString : IsLocal config templateString :=
  isLocal_of_extent (fun _ _ => rfl) fun _ _ _ => quotedExtent_of_append

/-- Balanced regions are local. -/
theorem isLocal_balanced (opening closing : Char) (kind : LexerConfig → TokenKind) :
    IsLocal config fun config => balanced opening closing (kind config) :=
  isLocal_of_extent (fun _ _ => rfl) fun _ _ _ => balancedExtent_of_append

/-- Commas are local. -/
theorem isLocal_comma : IsLocal config comma where
  declined {a b} ha h := by
    obtain ⟨c, rest, rfl⟩ := List.exists_cons_of_ne_nil ha
    exact h
  lexeme {a b kind n} ha _ h _ := by
    obtain ⟨c, rest, rfl⟩ := List.exists_cons_of_ne_nil ha
    exact h

/-- Punctuation is local, joined or not. -/
theorem isLocal_symbol : IsLocal config symbol where
  declined {a b} ha h := by
    obtain ⟨c, rest, rfl⟩ := List.exists_cons_of_ne_nil ha
    rw [List.cons_append, symbol] at h
    rw [symbol]
    split_ifs at h with hc
    exact if_neg hc
  lexeme {a b kind n} ha hcut h hn := by
    obtain ⟨c, rest, rfl⟩ := List.exists_cons_of_ne_nil ha
    rw [List.cons_append, symbol] at h
    rw [symbol]
    split_ifs at h with hc hjoined
    · cases h
      rw [if_pos hc, if_pos hjoined, symbolRunLength_of_append (Nat.le_of_succ_le_succ hn) hcut]
    · rw [if_pos hc, if_neg hjoined, h]

/-- All readers are local. -/
theorem isLocal_of_mem_all {reader : Reader} (h : reader ∈ all) : IsLocal config reader := by
  cases h using mem_all_cases with
  | space => exact isLocal_run .space isSpace
  | cssComment => exact isLocal_cssComment
  | comment => exact isLocal_comment
  | string => exact isLocal_string
  | templateString => exact isLocal_templateString
  | roundBrackets => exact isLocal_balanced '(' ')' fun _ => .roundBrackets
  | squareBrackets => exact isLocal_balanced '[' ']' fun _ => .squareBrackets
  | braces =>
    exact isLocal_balanced '\x7b' '\x7d' fun config =>
      if config.lazyBraces then .lazyBlock else .block
  | comma => exact isLocal_comma
  | literal => exact isLocal_run .literal isLiteralChar
  | symbol => exact isLocal_symbol

/-- The first answer on a beginning of a text is the first answer on the text. -/
theorem firstAnswer_of_append {readers : List Reader} {a b : Text} {kind : TokenKind} {n : Nat}
    (hlocal : ∀ reader ∈ readers, IsLocal config reader) (ha : a ≠ [])
    (hcut : KeepsOpening (a.drop n) b) (h : firstAnswer config (a ++ b) readers = .lexeme kind n)
    (hn : n ≤ a.length) : firstAnswer config a readers = .lexeme kind n := by
  induction readers with
  | nil => cases h
  | cons reader readers ih =>
    rw [List.forall_mem_cons] at hlocal
    rw [firstAnswer] at h ⊢
    cases hanswer : reader config (a ++ b) with
    | declined =>
      rw [hanswer] at h
      rw [hlocal.1.declined ha hanswer]
      exact ih hlocal.2 h
    | lexeme kind' m =>
      rw [hanswer] at h
      cases h
      rw [hlocal.1.lexeme ha hcut hanswer hn]
    | failed fault blame stop =>
      rw [hanswer] at h
      cases h

end Reader

/-- What the scan finds within the beginning of a text it finds in the beginning alone. -/
theorem scan_of_append {a b : Text} {kind : TokenKind} {n : Nat} (ha : a ≠ [])
    (hcut : Reader.KeepsOpening (a.drop n) b) (h : scan config (a ++ b) = .lexeme kind n)
    (hn : n ≤ a.length) : scan config a = .lexeme kind n :=
  Reader.firstAnswer_of_append (fun _ hreader => Reader.isLocal_of_mem_all hreader) ha hcut h hn

/-- A text that begins with a lexeme splits into its token and the tokens of what is left. -/
theorem tokensOf_append {value rest : Text} {kind : TokenKind} {position : Position}
    {tokens : List Token} (hvalue : value ≠ [])
    (hscan : scan config (value ++ rest) = .lexeme kind value.length)
    (hrest : tokensOf config rest (position.advanceText value) = .ok tokens) :
    tokensOf config (value ++ rest) position = .ok (⟨kind, value, position⟩ :: tokens) := by
  obtain ⟨c, more, rfl⟩ := List.exists_cons_of_ne_nil hvalue
  rw [List.cons_append] at hscan ⊢
  rw [tokensOf, hscan]
  simp only [List.length_cons, List.take_left, List.drop_left, hrest]

/-! ## Tokens cut out of a text -/

/-- From a position on the scan finds these tokens, one behind the other, in front of `after`. -/
inductive IsScanned (config : LexerConfig) (after : Text) : Position → List Token → Prop where
  | nil (position : Position) : IsScanned config after position []
  | cons {token : Token} {tokens : List Token} : token.value ≠ [] →
      scan config (token.value ++ (spelling tokens ++ after)) =
        .lexeme token.kind token.value.length →
      IsScanned config after token.endPosition tokens →
      IsScanned config after token.position (token :: tokens)

/-- The first tokens of a text are found in front of what the others spell. -/
theorem isScanned_of_tokensOf {text : Text} {position : Position} {front rest : List Token}
    (h : tokensOf config text position = .ok (front ++ rest)) :
    IsScanned config (spelling rest) position front := by
  induction front generalizing text position with
  | nil => exact .nil position
  | cons token front ih =>
    rw [List.cons_append] at h
    obtain ⟨more, rfl, hvalue, hscan, rfl, hmore⟩ := exists_of_tokensOf_eq_cons h
    rw [← (spelling_and_contiguous_of_tokensOf hmore).1, spelling_append] at hscan
    exact .cons hvalue hscan (ih hmore)

namespace IsScanned

variable {after : Text} {position : Position} {tokens : List Token}

/-- No comment opens across the end of the tokens. -/
theorem keepsOpening (h : IsScanned config after position tokens) :
    Reader.KeepsOpening (spelling tokens) after := by
  cases h with
  | nil => exact fun hne => absurd rfl hne
  | @cons token tokens _ hscan =>
    rw [← List.append_assoc, ← spelling_cons] at hscan
    exact Reader.keepsOpening_of_scan hscan (by simp [spelling_cons])

/-- Tokens that are found in front of a text are the tokens of what they spell. -/
theorem tokensOf_spelling (h : IsScanned config after position tokens) :
    tokensOf config (spelling tokens) position = .ok tokens := by
  induction h with
  | nil => simp [tokensOf]
  | @cons token tokens hvalue hscan hrest ih =>
    have hpart : scan config (token.value ++ spelling tokens) =
        .lexeme token.kind token.value.length := by
      rw [← List.append_assoc] at hscan
      apply scan_of_append (by simp [hvalue]) _ hscan (by simp)
      rw [List.drop_left]
      exact hrest.keepsOpening
    rw [spelling_cons]
    exact tokensOf_append hvalue hpart ih

end IsScanned

/-- Neighbours among the tokens of a text are the tokens of what they spell. -/
theorem exists_tokensOf_of_isInfix {text : Text} {origin : Position} {tokens part : List Token}
    (h : tokensOf config text origin = .ok tokens) (hpart : part <:+: tokens) :
    ∃ position, tokensOf config (spelling part) position = .ok part := by
  obtain ⟨front, rest, rfl⟩ := hpart
  rw [List.append_assoc] at h
  obtain ⟨later, position, hlater⟩ := exists_tokensOf_of_append h
  exact ⟨position, (isScanned_of_tokensOf hlater).tokensOf_spelling⟩

/-- Tokens that are cut out of a text split again, at the position of the first of them, as they did
in the text. -/
theorem tokensOf_extract {text : Text} {origin : Position} {tokens : List Token}
    (h : tokensOf config text origin = .ok tokens) {i j : Nat} (hij : i < j)
    (hj : j ≤ tokens.length) :
    tokensOf config (spelling (tokens.extract i j)) tokens[i].position =
      .ok (tokens.extract i j) := by
  have hpart : tokens.extract i j <:+: tokens :=
    (List.take_prefix _ _).isInfix.trans (List.drop_suffix _ _).isInfix
  obtain ⟨position, hposition⟩ := exists_tokensOf_of_isInfix h hpart
  have hfirst : tokens.extract i j = tokens[i] :: (tokens.drop (i + 1)).take (j - i - 1) := by
    rw [List.extract_eq_take_drop, List.drop_eq_getElem_cons (by omega),
      List.take_cons (by omega)]
  rw [hfirst] at hposition ⊢
  obtain ⟨_, _, _, _, horigin, _⟩ := exists_of_tokensOf_eq_cons hposition
  rwa [horigin]

/-- A run of punctuation and the comment that ends it, cut out between two words. -/
theorem tokensOf_extract_run :
    let config : LexerConfig := { joinSymbols := true, lazyBraces := false }
    let tokens : List Token := [⟨.literal, ['a'], ⟨2, 3⟩⟩, ⟨.symbol, "+*".toList, ⟨2, 4⟩⟩,
      ⟨.comment, "//".toList, ⟨2, 6⟩⟩, ⟨.space, ['\n'], ⟨2, 8⟩⟩, ⟨.literal, ['b'], ⟨3, 1⟩⟩]
    tokensOf config "a+*//\nb".toList ⟨2, 3⟩ = .ok tokens ∧
      tokensOf config "+*//".toList ⟨2, 4⟩ =
        .ok [⟨.symbol, "+*".toList, ⟨2, 4⟩⟩, ⟨.comment, "//".toList, ⟨2, 6⟩⟩] := by
  intro config tokens
  have htokens : tokensOf config "a+*//\nb".toList ⟨2, 3⟩ = .ok tokens := by decide +kernel
  exact ⟨htokens, tokensOf_extract htokens (i := 1) (j := 3) (by decide) (by decide)⟩

end StyleSyntax
