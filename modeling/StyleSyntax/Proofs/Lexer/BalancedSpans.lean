import Mathlib.Logic.Relation
import StyleSyntax.Lexer.Cursor
import StyleSyntax.Proofs.Lexer.SpanItems

/-!
# Balanced spans

What the readers of brackets accept, told without a search: an opening bracket, a sequence of items
and nested spans, and the closing bracket. The readers search with a counter of open brackets. The
search passes over what is balanced, and what it passed over when it ends is balanced; so a text
begins with a balanced span when a reader accepts it, and the reader takes that span, of which there
is only one.
-/

namespace StyleSyntax

namespace Bracket

/-- The inside of a balanced span: items and nested spans, one after another. -/
inductive IsBalanced (bracket : Bracket) : Text → Prop where
  | nil : IsBalanced bracket []
  | item {item rest : Text} : bracket.IsItem rest item → IsBalanced bracket rest →
      IsBalanced bracket (item ++ rest)
  | nested {inner rest : Text} : IsBalanced bracket inner → IsBalanced bracket rest →
      IsBalanced bracket (bracket.opening :: inner ++ bracket.closing :: rest)

/-- Behind an opening bracket, `text` goes on with a balanced inside and the closing bracket. -/
structure Closes (bracket : Bracket) (text body after : Text) : Prop where
  eq : text = body ++ bracket.closing :: after
  isBalanced : bracket.IsBalanced body

/-- The search of a reader: its counter of open brackets, what is left of the text, and whether the
search is over. -/
structure Search where
  depth : Int
  left : Text
  isOver : Bool := false

/-- One round of the search. It is over when a closing bracket brings the counter to zero. -/
def Search.round (bracket : Bracket) (search : Search) : Option Search :=
  match search.isOver, search.left with
  | true, _ => none
  | false, [] => none
  | false, c :: rest =>
    if c = bracket.opening then some { depth := search.depth + 1, left := rest }
    else if c = bracket.closing then
      some { depth := search.depth - 1, left := rest, isOver := search.depth - 1 = 0 }
    else some { depth := search.depth, left := rest.drop (itemLength c rest - 1) }

/-- The search before the first bracket. -/
def Search.start (bracket : Bracket) (text : Text) : Search where
  depth := 0
  left := bracket.opening :: text

/-- Rounds of the search one after another. -/
def Search.Leads (bracket : Bracket) : Search → Search → Prop :=
  Relation.ReflTransGen fun search later => search.round bracket = some later

variable {bracket : Bracket} {c : Char} {text body after rest : Text}

/-! ## Spans -/

/-- The search passes over what is balanced. -/
theorem IsBalanced.balancedExtent_append (h : bracket.IsBalanced body) (depth : Nat)
    (after : Text) :
    balancedExtent bracket.opening bracket.closing depth (body ++ bracket.closing :: after) =
      (balancedExtent bracket.opening bracket.closing depth
        (bracket.closing :: after)).shift body.length := by
  induction h generalizing depth after with
  | nil =>
    rw [List.nil_append, List.length_nil, Extent.shift_zero]
  | item hitem _ ih =>
    obtain ⟨c, rest, rfl, hopening, hclosing, hlength⟩ := hitem.exists_cons after
    rw [List.append_assoc, List.cons_append, balancedExtent_cons_of_ne hopening hclosing, hlength,
      Nat.add_sub_cancel, List.drop_left, ih, Extent.shift_shift, List.length_append,
      List.length_cons, Nat.add_comm]
  | nested _ _ ihinner ihrest =>
    rw [List.append_assoc, List.cons_append, balancedExtent_opening, List.cons_append, ihinner,
      balancedExtent_closing, ihrest, Extent.shift_shift, Extent.shift_shift, Extent.shift_shift]
    congr 1
    simp only [List.length_append, List.length_cons]
    omega

/-- Where the search ends, the text goes on with a balanced inside and a closing bracket, however
many regions are open. -/
theorem exists_closes_of_balancedExtent {depth n : Nat}
    (h : balancedExtent bracket.opening bracket.closing depth text = .closed n) :
    ∃ body after, bracket.Closes text body after := by
  -- A nested span is read one level deeper, and what is behind it on this level again, so the
  -- induction is on the length of the text.
  induction hlength : text.length using Nat.strong_induction_on generalizing text depth n with
  | _ length ih =>
  subst hlength
  cases text with
  | nil => rw [balancedExtent] at h; cases h
  | cons c rest =>
    by_cases hopening : c = bracket.opening
    · subst hopening
      rw [balancedExtent_opening] at h
      obtain ⟨m, hm, -⟩ := Extent.shift_eq_closed.mp h
      obtain ⟨inner, later, rfl, hinner⟩ := ih rest.length (by simp) hm rfl
      rw [hinner.balancedExtent_append, balancedExtent_closing, Extent.shift_shift] at hm
      obtain ⟨k, hk, -⟩ := Extent.shift_eq_closed.mp hm
      have hshorter : later.length <
          (bracket.opening :: (inner ++ bracket.closing :: later)).length := by
        simp only [List.length_cons, List.length_append]
        omega
      obtain ⟨body, after, rfl, hbody⟩ := ih later.length hshorter hk rfl
      exact ⟨_, after, by simp, hinner.nested hbody⟩
    by_cases hclosing : c = bracket.closing
    · subst hclosing
      exact ⟨[], rest, rfl, .nil⟩
    · rw [balancedExtent_cons_of_ne hopening hclosing] at h
      obtain ⟨m, hm, -⟩ := Extent.shift_eq_closed.mp h
      have hle := itemLength_le c rest
      have hpos := one_le_itemLength c rest
      have hshorter : (rest.drop (itemLength c rest - 1)).length < (c :: rest).length := by
        rw [List.length_drop, List.length_cons]
        omega
      obtain ⟨body, after, hdrop, hbody⟩ := ih _ hshorter hm rfl
      have htext : c :: rest = c :: rest.take (itemLength c rest - 1) ++
          (body ++ bracket.closing :: after) := by
        rw [← hdrop, List.cons_append, List.take_append_drop]
      have hitem := isItem_of_itemLength htext (by simp; omega) hopening hclosing
      exact ⟨_, after, by rw [htext, List.append_assoc], .item hitem hbody⟩

/-- The search ends with the first bracket when it is closed, and only then. -/
theorem Closes.balancedExtent_eq (h : bracket.Closes text body after) :
    balancedExtent bracket.opening bracket.closing 0 text = .closed (body.length + 1) := by
  rw [h.eq, h.isBalanced.balancedExtent_append, balancedExtent_end, Extent.shift, Nat.add_comm]

/-- A search that does not end goes through the whole text. -/
theorem eq_length_of_balancedExtent_eq_unclosed {depth n : Nat}
    (h : balancedExtent bracket.opening bracket.closing depth text = .unclosed n) :
    n = text.length := by
  fun_induction balancedExtent bracket.opening bracket.closing depth text generalizing n with
  | case1 => cases h; rfl
  | case2 depth rest ih =>
    obtain ⟨m, hm, rfl⟩ := Extent.shift_eq_unclosed.mp h
    rw [ih hm, List.length_cons]
  | case3 => cases h
  | case4 rest outer _ ih =>
    obtain ⟨m, hm, rfl⟩ := Extent.shift_eq_unclosed.mp h
    rw [ih hm, List.length_cons]
  | case5 depth c rest _ _ ih =>
    obtain ⟨m, hm, rfl⟩ := Extent.shift_eq_unclosed.mp h
    have hle := itemLength_le c rest
    have hpos := one_le_itemLength c rest
    rw [ih hm, List.length_drop, List.length_cons]
    omega

/-- The bracket that the search ends with closes the span. -/
theorem closes_of_balancedExtent {passed rest : Text}
    (htext : text = passed ++ bracket.closing :: rest)
    (h : balancedExtent bracket.opening bracket.closing 0 text = .closed (passed.length + 1)) :
    bracket.Closes text passed rest := by
  obtain ⟨body, after, hcloses⟩ := exists_closes_of_balancedExtent h
  have hlength : body.length = passed.length := by
    simpa using hcloses.balancedExtent_eq.symm.trans h
  obtain ⟨rfl, hrest⟩ := List.append_inj (hcloses.eq.symm.trans htext) hlength
  cases hrest
  exact hcloses

/-- The search goes through the whole text exactly where no span is closed. -/
theorem balancedExtent_eq_unclosed :
    balancedExtent bracket.opening bracket.closing 0 text = .unclosed text.length ↔
      ¬ ∃ body after, bracket.Closes text body after := by
  constructor
  · rintro hopen ⟨body, after, hcloses⟩
    cases hcloses.balancedExtent_eq.symm.trans hopen
  · intro hnone
    cases hextent : balancedExtent bracket.opening bracket.closing 0 text with
    | closed n => exact absurd (exists_closes_of_balancedExtent hextent) hnone
    | unclosed n => rw [eq_length_of_balancedExtent_eq_unclosed hextent]

/-- The span behind an opening bracket is the only one. -/
theorem Closes.unique {body' after' : Text} (h : bracket.Closes text body after)
    (h' : bracket.Closes text body' after') : body' = body ∧ after' = after := by
  have hlength : body'.length = body.length := by
    simpa using h'.balancedExtent_eq.symm.trans h.balancedExtent_eq
  obtain ⟨rfl, hrest⟩ := List.append_inj (h'.eq.symm.trans h.eq) hlength
  exact ⟨rfl, (List.cons.inj hrest).2⟩

/-! ## The counter -/

namespace Search

/-- An opening bracket is counted. -/
theorem round_opening (bracket : Bracket) (depth : Int) (rest : Text) :
    round bracket { depth, left := bracket.opening :: rest } =
      some { depth := depth + 1, left := rest } :=
  if_pos rfl

/-- The closing bracket of an inner region is counted down. -/
theorem round_closing (bracket : Bracket) (outer : Nat) (rest : Text) :
    round bracket { depth := (outer + 1 : Nat) + 1, left := bracket.closing :: rest } =
      some { depth := outer + 1, left := rest } := by
  have hdifferent : bracket.closing ≠ bracket.opening := by cases bracket <;> decide
  have hinner : ¬ ((outer : Int) + 1 = 0) := by omega
  simp [round, hdifferent, hinner]

/-- The closing bracket of the region itself ends the search. -/
theorem round_last (bracket : Bracket) (rest : Text) :
    round bracket { depth := (0 : Nat) + 1, left := bracket.closing :: rest } =
      some { depth := 0, left := rest, isOver := true } := by
  have hdifferent : bracket.closing ≠ bracket.opening := by cases bracket <;> decide
  simp [round, hdifferent]

/-- Everything else is not counted. -/
theorem round_item (hopening : c ≠ bracket.opening) (hclosing : c ≠ bracket.closing) (depth : Int)
    (rest : Text) :
    round bracket { depth, left := c :: rest } =
      some { depth, left := rest.drop (itemLength c rest - 1) } := by
  simp [round, hopening, hclosing]

/-- Where a search for the end of a span can be: before its first bracket, inside the span with at
least one open bracket, or behind the span. -/
inductive IsAt (bracket : Bracket) (text : Text) : Search → Prop where
  | start : IsAt bracket text (start bracket text)
  | inside (passed : Text) {left : Text} (outer : Nat) : text = passed ++ left →
      balancedExtent bracket.opening bracket.closing 0 text =
        (balancedExtent bracket.opening bracket.closing outer left).shift passed.length →
      IsAt bracket text { depth := outer + 1, left }
  | behind {body after : Text} : bracket.Closes text body after →
      IsAt bracket text { depth := 0, left := after, isOver := true }

variable {search later : Search}

/-- A round leads from such a place to such a place. -/
theorem IsAt.round (h : IsAt bracket text search) (hround : search.round bracket = some later) :
    IsAt bracket text later := by
  cases h with
  | start =>
    cases (round_opening bracket 0 text).symm.trans hround
    exact .inside [] 0 rfl (Extent.shift_zero _).symm
  | behind => cases hround
  | @inside passed left outer htext hextent =>
    cases left with
    | nil => cases hround
    | cons c rest =>
      by_cases hopening : c = bracket.opening
      · subst hopening
        cases (round_opening bracket _ rest).symm.trans hround
        rw [balancedExtent_opening, Extent.shift_shift, Nat.add_comm] at hextent
        exact .inside (passed ++ [bracket.opening]) (outer + 1) (by simp [htext])
          (by simpa using hextent)
      by_cases hclosing : c = bracket.closing
      · subst hclosing
        cases outer with
        | zero =>
          cases (round_last bracket rest).symm.trans hround
          rw [balancedExtent_end, Extent.shift, Nat.add_comm] at hextent
          exact .behind (closes_of_balancedExtent htext hextent)
        | succ outer =>
          cases (round_closing bracket outer rest).symm.trans hround
          rw [balancedExtent_closing, Extent.shift_shift, Nat.add_comm] at hextent
          exact .inside (passed ++ [bracket.closing]) outer (by simp [htext])
            (by simpa using hextent)
      · cases (round_item hopening hclosing _ rest).symm.trans hround
        have hle := itemLength_le c rest
        have hpos := one_le_itemLength c rest
        rw [balancedExtent_cons_of_ne hopening hclosing, Extent.shift_shift] at hextent
        refine .inside (passed ++ c :: rest.take (itemLength c rest - 1)) outer ?_ ?_
        · simp [htext]
        · rw [hextent]
          congr 1
          simp
          omega

/-- Every search is at such a place. -/
theorem Leads.isAt (h : (start bracket text).Leads bracket search) : IsAt bracket text search := by
  induction h with
  | refl => exact .start
  | tail _ hround ih => exact ih.round hround

/-- The counter is never negative. -/
theorem IsAt.depth_nonneg (h : IsAt bracket text search) : 0 ≤ search.depth := by
  cases h with
  | start => exact Int.le_refl 0
  | inside => exact Int.add_nonneg (Int.natCast_nonneg _) Int.one_nonneg
  | behind => exact Int.le_refl 0

/-- A search that is over is behind the span. -/
theorem IsAt.exists_closes (h : IsAt bracket text search) (hover : search.isOver) :
    ∃ body, bracket.Closes text body search.left := by
  cases h with
  | start => cases hover
  | inside => cases hover
  | behind hcloses => exact ⟨_, hcloses⟩

/-- A search inside a region that is closed comes to an end. -/
theorem exists_leads_of_balancedExtent {outer n : Nat}
    (h : balancedExtent bracket.opening bracket.closing outer text = .closed n) :
    ∃ after, Leads bracket { depth := outer + 1, left := text }
      { depth := 0, left := after, isOver := true } := by
  fun_induction balancedExtent bracket.opening bracket.closing outer text generalizing n with
  | case1 => cases h
  | case2 outer rest ih =>
    obtain ⟨m, hm, -⟩ := Extent.shift_eq_closed.mp h
    obtain ⟨after, hleads⟩ := ih hm
    exact ⟨after, hleads.head (round_opening bracket _ rest)⟩
  | case3 rest => exact ⟨rest, .single (round_last bracket rest)⟩
  | case4 rest outer _ ih =>
    obtain ⟨m, hm, -⟩ := Extent.shift_eq_closed.mp h
    obtain ⟨after, hleads⟩ := ih hm
    exact ⟨after, hleads.head (round_closing bracket outer rest)⟩
  | case5 outer c rest hopening hclosing ih =>
    obtain ⟨m, hm, -⟩ := Extent.shift_eq_closed.mp h
    obtain ⟨after, hleads⟩ := ih hm
    exact ⟨after, hleads.head (round_item hopening hclosing _ rest)⟩

/-- The search ends behind every span. -/
theorem leads_of_closes (h : bracket.Closes text body after) :
    (start bracket text).Leads bracket { depth := 0, left := after, isOver := true } := by
  obtain ⟨left, hleads⟩ := exists_leads_of_balancedExtent h.balancedExtent_eq
  have hstart : (start bracket text).Leads bracket { depth := 0, left, isOver := true } :=
    hleads.head (round_opening bracket 0 text)
  obtain ⟨body', hcloses⟩ := (Leads.isAt hstart).exists_closes rfl
  obtain ⟨-, rfl⟩ := h.unique hcloses
  exact hstart

end Search

/-! ## Readers -/

/-- The text of a span. -/
def span (bracket : Bracket) (body : Text) : Text :=
  bracket.opening :: body ++ [bracket.closing]

/-- A reader takes the span at the cursor. -/
theorem read_of_closes (h : bracket.Closes rest body after) (config : LexerConfig) (passed : Text)
    (origin : Position) :
    Cursor.read ⟨passed, bracket.opening :: rest, origin⟩ bracket.reader config =
      (.ok (some ⟨bracket.kind config, bracket.span body, origin⟩),
        ⟨passed ++ bracket.span body, after, origin.advanceText (bracket.span body)⟩) := by
  have htake : (bracket.opening :: rest).take (body.length + 1 + 1) = bracket.span body := by
    rw [h.eq, List.take_succ_cons, List.take_length_add_append]
    rfl
  have hdrop : (bracket.opening :: rest).drop (body.length + 1 + 1) = after := by
    rw [h.eq, List.drop_succ_cons]
    simp
  simp only [Cursor.read, reader_eq_balanced, Reader.balanced, if_true, h.balancedExtent_eq,
    Cursor.take, htake, hdrop]

/-- Without a span the reader goes through the whole text and blames its end. -/
theorem read_of_not_closes (h : ¬ ∃ body after, bracket.Closes rest body after)
    (config : LexerConfig) (passed : Text) (origin : Position) :
    Cursor.read ⟨passed, bracket.opening :: rest, origin⟩ bracket.reader config =
      (.error ⟨.unbalanced bracket.opening, origin.advanceText (bracket.opening :: rest)⟩,
        ⟨passed ++ bracket.opening :: rest, [],
          origin.advanceText (bracket.opening :: rest)⟩) := by
  simp [Cursor.read, reader_eq_balanced, Reader.balanced, balancedExtent_eq_unclosed.mpr h,
    Cursor.take]

/-- A reader of brackets succeeds exactly where a balanced span is closed. It takes that span, the
only one, and otherwise it blames the end of the text. The counter of its search is never negative,
and the search is over exactly behind the span. -/
theorem read_reader (bracket : Bracket) (config : LexerConfig) (passed rest : Text)
    (origin : Position) :
    let reading := Cursor.read ⟨passed, bracket.opening :: rest, origin⟩ bracket.reader config
    ((∃ token cursor, reading = (.ok (some token), cursor)) ↔
        ∃ body after, bracket.Closes rest body after) ∧
      (∀ body after, bracket.Closes rest body after →
        reading = (.ok (some ⟨bracket.kind config, bracket.span body, origin⟩),
            ⟨passed ++ bracket.span body, after, origin.advanceText (bracket.span body)⟩) ∧
          ∀ body' after', bracket.Closes rest body' after' → body' = body ∧ after' = after) ∧
      ((¬ ∃ body after, bracket.Closes rest body after) →
        reading.1 = .error ⟨.unbalanced bracket.opening,
          origin.advanceText (bracket.opening :: rest)⟩) ∧
      (∀ search, (Search.start bracket rest).Leads bracket search → 0 ≤ search.depth) ∧
      ∀ after, (∃ body, bracket.Closes rest body after) ↔
        ∃ search, (Search.start bracket rest).Leads bracket search ∧ search.isOver ∧
          search.left = after := by
  intro reading
  refine ⟨⟨?_, ?_⟩, ?_, ?_, ?_, fun after => ⟨?_, ?_⟩⟩
  · rintro ⟨token, cursor, hreading⟩
    by_contra hcloses
    have hfails := read_of_not_closes hcloses config passed origin
    cases hreading.symm.trans hfails
  · rintro ⟨body, after, hcloses⟩
    exact ⟨_, _, read_of_closes hcloses config passed origin⟩
  · intro body after hcloses
    exact ⟨read_of_closes hcloses config passed origin, fun _ _ => hcloses.unique⟩
  · intro hcloses
    exact congrArg Prod.fst (read_of_not_closes hcloses config passed origin)
  · exact fun search hleads => (Search.Leads.isAt hleads).depth_nonneg
  · rintro ⟨body, hcloses⟩
    exact ⟨_, Search.leads_of_closes hcloses, rfl, rfl⟩
  · rintro ⟨search, hleads, hover, rfl⟩
    exact (Search.Leads.isAt hleads).exists_closes hover

/-- An escaped bracket, a quoted one, a comment that is closed at once, a nested span and a line
comment with a bracket in it. -/
theorem read_reader_pieces :
    let rest := "\\)'(\\''/*/(b)//)\n)x".toList
    let body := "\\)'(\\''/*/(b)//)\n".toList
    Bracket.round.Closes rest body ['x'] ∧
      (Cursor.read ⟨[], '(' :: rest, ⟨3, 5⟩⟩ Bracket.round.reader {}).1 =
        .ok (some ⟨.roundBrackets, '(' :: body ++ [')'], ⟨3, 5⟩⟩) := by
  have hcloses : Bracket.round.Closes "\\)'(\\''/*/(b)//)\n)x".toList
      "\\)'(\\''/*/(b)//)\n".toList ['x'] := by
    have hquoted : IsQuotedRun '\x27' "(\\''".toList :=
      .char (by decide) (by decide) (.escaped _ .close)
    have hnested : Bracket.round.IsBalanced ['b'] :=
      .item (.char (by decide) (by decide) (by decide) rfl (by decide)) .nil
    have hline : Bracket.round.IsBalanced "//)\n".toList :=
      .item (.lineComment [')'] (by decide) rfl)
        (.item (.char (by decide) (by decide) (by decide) rfl (by decide)) .nil)
    exact ⟨rfl, .item (.escaped ')') (.item (.quoted rfl hquoted)
      (.item (.blockComment "/*/".toList rfl (by decide) (by decide))
        (.nested hnested hline)))⟩
  exact ⟨hcloses, congrArg Prod.fst
    ((read_reader .round {} [] _ ⟨3, 5⟩).2.1 _ _ hcloses).1⟩

end Bracket

end StyleSyntax
