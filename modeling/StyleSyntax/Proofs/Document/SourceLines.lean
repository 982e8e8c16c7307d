import Mathlib.Data.List.DropRight
import StyleSyntax.Document.Report

/-!
# Lines of a text

A text without line feeds is a last line; any other text is a line, a line feed and the text behind
it. A place in a text stands on one line, which is made up of the characters behind the last line
feed before the place and those before the first line feed behind it. Positions and the list of
lines are found in different ways, but both count the line feeds before the place, so a report about
the place shows its line.
-/

namespace StyleSyntax

namespace Text

/-- The characters before the first line feed. -/
def firstLine (text : Text) : Text :=
  text.takeWhile (· != '\n')

/-- The characters behind the last line feed. -/
def lastLine (text : Text) : Text :=
  text.rtakeWhile (· != '\n')

/-- The text without one carriage return at its end. -/
def withoutReturn (text : Text) : Text :=
  if text.getLast? = some '\r' then text.dropLast else text

/-- The line that holds the place between two texts, as it is shown: a carriage return in front of
the line feed goes with it. -/
def lineAround (before after : Text) : Text :=
  if '\n' ∈ after then withoutReturn (lastLine before ++ firstLine after)
  else lastLine before ++ firstLine after

/-- Characters that stand under the first ones of a line: tabs under tabs, and spaces under all
others. -/
structure IsPaddingUnder (shown : Text) (width : Nat) (padding : Text) : Prop where
  length_eq : padding.length = min width shown.length
  tab_iff : ∀ i < padding.length, padding[i]? = some '\t' ↔ shown[i]? = some '\t'
  tab_or_space : ∀ c ∈ padding, c = '\t' ∨ c = ' '

variable {line rest before after : Text}

/-- What holds of every last line, and of a line with what stands behind its line feed whenever it
holds of that, holds of every text. -/
theorem lines_induction {motive : Text → Prop} (last : ∀ line, '\n' ∉ line → motive line)
    (line : ∀ line rest, '\n' ∉ line → motive rest → motive (line ++ '\n' :: rest))
    (text : Text) : motive text := by
  induction hlength : text.length using Nat.strong_induction_on generalizing text with
  | _ n ih =>
    by_cases h : '\n' ∈ text
    · obtain ⟨first, rest, rfl, hfirst⟩ := List.eq_append_cons_of_mem h
      have hshorter : rest.length < n := by
        rw [← hlength, List.length_append, List.length_cons]
        omega
      exact line first rest hfirst (ih rest.length hshorter rest rfl)
    · exact last text h

/-- A text without line feeds is its own first line. -/
theorem firstLine_of_notMem (h : '\n' ∉ line) : firstLine line = line := by
  rw [firstLine, List.takeWhile_eq_self_iff]
  intro c hc
  simpa using ne_of_mem_of_not_mem hc h

/-- The first line ends at the first line feed. -/
theorem firstLine_append (h : '\n' ∉ line) (rest : Text) :
    firstLine (line ++ '\n' :: rest) = line := by
  have hline := firstLine_of_notMem h
  rw [firstLine] at hline ⊢
  rw [List.takeWhile_append, hline, if_pos rfl, List.takeWhile_cons_of_neg (by simp),
    List.append_nil]

/-- A text without line feeds is its own last line. -/
theorem lastLine_of_notMem (h : '\n' ∉ line) : lastLine line = line := by
  rw [lastLine, List.rtakeWhile_eq_self_iff]
  intro c hc
  simpa using ne_of_mem_of_not_mem hc h

/-- The last line goes on with a character, or is empty behind a line feed. -/
theorem lastLine_concat (text : Text) (c : Char) :
    lastLine (text ++ [c]) = if c = '\n' then [] else lastLine text ++ [c] := by
  rw [lastLine, List.rtakeWhile_concat]
  by_cases hc : c = '\n' <;> simp [hc, lastLine]

/-- What stands before a line feed has no part in the last line. -/
theorem lastLine_append (line rest : Text) :
    lastLine (line ++ '\n' :: rest) = lastLine rest := by
  induction rest using List.reverseRecOn with
  | nil => exact (lastLine_concat line '\n').trans (if_pos rfl)
  | append_singleton rest c ih =>
    rw [← List.cons_append, ← List.append_assoc, lastLine_concat, lastLine_concat, ih]

/-- A longer text ends with the same carriage return. -/
theorem withoutReturn_cons {c : Char} (h : line ≠ []) :
    withoutReturn (c :: line) = c :: withoutReturn line := by
  rw [withoutReturn, withoutReturn, List.getLast?_cons_of_ne_nil h, List.dropLast_cons_of_ne_nil h]
  split_ifs <;> rfl

/-- There is nothing to leave out of a text without carriage returns. -/
theorem withoutReturn_of_notMem (h : '\r' ∉ line) : withoutReturn line = line := by
  rw [withoutReturn, if_neg fun hlast => h (List.mem_of_getLast? hlast)]

/-- A text stays begun the same way, unless that is the carriage return. -/
theorem prefix_withoutReturn (h : line.getLast? ≠ some '\r') (rest : Text) :
    line <+: withoutReturn (line ++ rest) := by
  rw [withoutReturn]
  split_ifs with hlast
  · have hrest : rest ≠ [] := by
      rintro rfl
      rw [List.append_nil] at hlast
      exact h hlast
    rw [List.dropLast_append_of_ne_nil hrest]
    exact List.prefix_append _ _
  · exact List.prefix_append _ _

end Text

/-- The position behind a text counts its line feeds and the characters of its last line. -/
theorem Position.advanceText_start (text : Text) :
    Position.start.advanceText text = ⟨text.count '\n' + 1, (Text.lastLine text).length + 1⟩ := by
  induction text using List.reverseRecOn with
  | nil => rfl
  | append_singleton text c ih =>
    rw [advanceText_append, ih, Text.lastLine_concat, List.count_append, advanceText_cons,
      advanceText_nil, advance]
    by_cases hc : c = '\n' <;> simp [hc]

variable {line : Text}

/-- A text without line feeds is one line, or none if it is empty. -/
theorem sourceLines_of_notMem (h : '\n' ∉ line) :
    sourceLines line = if line = [] then [] else [line] := by
  fun_induction sourceLines line with
  | case1 => rfl
  | case2 => simp at h
  | case3 => rfl
  | case4 => simp at h
  | case5 c next rest _ hreturn => simp [hreturn.2] at h
  | case6 c next rest _ _ ih =>
    rw [ih (List.not_mem_of_not_mem_cons h)]
    rfl

/-- The lines of a text are its first line without the return at its end, and those behind the
line feed. -/
theorem sourceLines_append (h : '\n' ∉ line) (rest : Text) :
    sourceLines (line ++ '\n' :: rest) = line.withoutReturn :: sourceLines rest := by
  have hfeed : sourceLines ('\n' :: rest) = [] :: sourceLines rest := by
    cases rest <;> rfl
  induction line with
  | nil => exact hfeed
  | cons c line ih =>
    have hc : c ≠ '\n' := fun hc => h (List.mem_cons.mpr (.inl hc.symm))
    cases line with
    | nil =>
      rw [List.singleton_append, sourceLines, if_neg hc, hfeed]
      by_cases hreturn : c = '\r' <;> simp [hreturn, Text.withoutReturn, prependChar]
    | cons next line =>
      have hline := List.not_mem_of_not_mem_cons h
      have hnext : next ≠ '\n' := fun hnext => hline (List.mem_cons.mpr (.inl hnext.symm))
      rw [List.cons_append, List.cons_append, sourceLines, if_neg hc, if_neg fun h => hnext h.2,
        ← List.cons_append, ih hline, prependChar, Text.withoutReturn_cons (List.cons_ne_nil _ _)]

/-- There are as many lines as line feeds, and one more if characters stand behind the last. -/
theorem length_sourceLines (text : Text) :
    (sourceLines text).length = text.count '\n' + if Text.lastLine text = [] then 0 else 1 := by
  induction text using Text.lines_induction with
  | last line h =>
    rw [sourceLines_of_notMem h, Text.lastLine_of_notMem h, List.count_eq_zero_of_not_mem h]
    split_ifs <;> rfl
  | line line rest h ih =>
    rw [sourceLines_append h, Text.lastLine_append, List.count_append, List.count_cons_self,
      List.count_eq_zero_of_not_mem h, List.length_cons, ih]
    omega

/-- The line with as many lines before it as there are line feeds before a place is the one that
holds the place. There is none where the place is at the end, behind a line feed or in an empty
text. -/
theorem sourceLines_getElem? (before after : Text) :
    (sourceLines (before ++ after))[before.count '\n']? =
      if Text.lastLine before = [] ∧ after = [] then none
      else some (Text.lineAround before after) := by
  induction before using Text.lines_induction with
  | line line rest h ih =>
    rw [List.append_assoc, List.cons_append, sourceLines_append h, List.count_append,
      List.count_cons_self, List.count_eq_zero_of_not_mem h, Nat.zero_add, List.getElem?_cons_succ,
      ih, Text.lastLine_append, Text.lineAround, Text.lineAround, Text.lastLine_append]
  | last line h =>
    rw [List.count_eq_zero_of_not_mem h, Text.lineAround, Text.lastLine_of_notMem h]
    by_cases hafter : '\n' ∈ after
    · obtain ⟨first, rest, rfl, hfirst⟩ := List.eq_append_cons_of_mem hafter
      have hwhole : '\n' ∉ line ++ first := by simp [h, hfirst]
      rw [← List.append_assoc, sourceLines_append hwhole, if_pos hafter,
        Text.firstLine_append hfirst]
      simp
    · have hwhole : '\n' ∉ line ++ after := by simp [h, hafter]
      rw [sourceLines_of_notMem hwhole, if_neg hafter, Text.firstLine_of_notMem hafter]
      by_cases hempty : line = [] ∧ after = []
      · simp [hempty]
      · rw [if_neg hempty, if_neg (by simpa using hempty)]
        rfl

/-! ## Reports -/

/-- The characters before the caret are padding under those before the column. -/
theorem isPaddingUnder_caretPadding (shown : Text) (col : Nat) :
    Text.IsPaddingUnder shown (col - 1) (caretPadding shown col) where
  length_eq := by rw [caretPadding, List.length_map, List.length_take]
  tab_iff i hi := by
    rw [caretPadding, List.length_map, List.length_take, Nat.lt_min] at hi
    rw [caretPadding, List.getElem?_map, List.getElem?_take_of_lt hi.1,
      List.getElem?_eq_getElem hi.2, Option.map_some]
    by_cases htab : shown[i] = '\t' <;> simp [htab]
  tab_or_space := by
    intro c hc
    obtain ⟨shown, -, rfl⟩ := List.mem_map.mp hc
    split_ifs
    · exact .inl rfl
    · exact .inr rfl

/-- The report about the place between two texts names the place in its header. Where the place is
on an empty last line that is all; elsewhere the line that holds the place follows behind its
number, and the caret stands under the column, behind padding. -/
theorem report_advanceText (path before after message : Text) :
    let position := Position.start.advanceText before
    let header := path ++ ":(".toList ++ position.text ++ ") : ".toList ++ message ++ ['\n']
    let number := Text.ofNat position.line
    let line := Text.lineAround before after
    if Text.lastLine before = [] ∧ after = [] then
      report path (before ++ after) position message = header
    else ∃ padding, Text.IsPaddingUnder line (position.col - 1) padding ∧
      report path (before ++ after) position message =
        header ++ (number ++ " | ".toList ++ line ++ ['\n']) ++
          (List.replicate number.length ' ' ++ " | ".toList ++ padding ++ ['^', '\n']) := by
  intro position header number line
  have hline : (sourceLines (before ++ after))[position.line - 1]? =
      if Text.lastLine before = [] ∧ after = [] then none else some line := by
    have hcount : position.line - 1 = before.count '\n' := by
      simp only [position, Position.advanceText_start, Nat.add_sub_cancel]
    rw [hcount, sourceLines_getElem?]
  split_ifs with hempty
  · rw [report, hline, if_pos hempty]
  · refine ⟨caretPadding line position.col, isPaddingUnder_caretPadding line position.col, ?_⟩
    rw [report, hline, if_neg hempty]
    simp [excerptLines, header, number]

end StyleSyntax
