import Mathlib.Data.List.Basic
import StyleSyntax.Lexer.Tokens

/-!
# What a scan answers

A token that a reader finds lies within the text, and a brace region is found with both of its
braces. A reader that fails never blames a character of its own. Each is a property of all readers,
and so of the scan, which gives the answer of one of them.
-/

namespace StyleSyntax

/-- The text that a fault of the lexer reports as found. -/
def LexFault.found? : LexFault → Option Text
  | .unexpectedSymbol c => some [c]
  | _ => none

/-- What the answer of a reader obeys: a token lies within the text, a brace region has its braces,
and a failure blames no character. -/
def Scan.IsSound (text : Text) : Scan → Prop
  | .declined => True
  | .lexeme kind n => n ≤ text.length ∧
      (kind.isBraces → ∃ body, text.take n = '\x7b' :: body ++ ['\x7d'])
  | .failed fault _ _ => fault.found? = none

/-- A shifted extent is closed when the extent is. -/
theorem Extent.shift_eq_closed {count n : Nat} {extent : Extent} :
    extent.shift count = .closed n ↔ ∃ m, extent = .closed m ∧ n = m + count := by
  cases extent <;> simp [Extent.shift, eq_comm]

/-- A closed quoted run ends with its quote. -/
theorem exists_of_quotedExtent_eq_closed {quote : Char} {oneLine : Bool} {text : Text} {n : Nat}
    (h : quotedExtent quote oneLine text = .closed n) :
    ∃ body rest, text = body ++ quote :: rest ∧ n = body.length + 1 := by
  fun_induction quotedExtent quote oneLine text generalizing n with
  | case1 => cases h
  | case2 => cases h
  | case3 c later ih =>
    obtain ⟨m, hm, rfl⟩ := Extent.shift_eq_closed.mp h
    obtain ⟨body, rest, rfl, rfl⟩ := ih hm
    exact ⟨'\\' :: c :: body, rest, rfl, rfl⟩
  | case4 rest =>
    cases h
    exact ⟨[], rest, rfl, rfl⟩
  | case5 => cases h
  | case6 c rest _ _ _ ih =>
    obtain ⟨m, hm, rfl⟩ := Extent.shift_eq_closed.mp h
    obtain ⟨body, rest, rfl, rfl⟩ := ih hm
    exact ⟨c :: body, rest, rfl, rfl⟩

/-- An item inside a balanced region has a character. -/
theorem one_le_itemLength (c : Char) (rest : Text) : 1 ≤ itemLength c rest := by
  unfold itemLength
  split_ifs with hescape hquote hline hblock
  · omega
  · omega
  · have hopening := List.isPrefixOf_iff_prefix.mp hline
    obtain ⟨rfl, _⟩ := List.cons_prefix_cons.mp hopening
    simp [Text.lengthWhile]
  · rw [Text.lengthThrough]
    split_ifs
    · decide
    · omega
  · omega

/-- A closed balanced region ends with its closing bracket. -/
theorem exists_of_balancedExtent_eq_closed {opening closing : Char} {depth : Nat} {text : Text}
    {n : Nat} (h : balancedExtent opening closing depth text = .closed n) :
    ∃ body rest, text = body ++ closing :: rest ∧ n = body.length + 1 := by
  fun_induction balancedExtent opening closing depth text generalizing n with
  | case1 => cases h
  | case2 depth rest ih =>
    obtain ⟨m, hm, rfl⟩ := Extent.shift_eq_closed.mp h
    obtain ⟨body, rest, rfl, rfl⟩ := ih hm
    exact ⟨opening :: body, rest, rfl, rfl⟩
  | case3 rest =>
    cases h
    exact ⟨[], rest, rfl, rfl⟩
  | case4 rest outer _ ih =>
    obtain ⟨m, hm, rfl⟩ := Extent.shift_eq_closed.mp h
    obtain ⟨body, rest, rfl, rfl⟩ := ih hm
    exact ⟨closing :: body, rest, rfl, rfl⟩
  | case5 depth c rest _ _ ih =>
    obtain ⟨m, hm, rfl⟩ := Extent.shift_eq_closed.mp h
    obtain ⟨body, later, hdrop, rfl⟩ := ih hm
    -- The item is passed over whole, so something is left behind it.
    have hpos := one_le_itemLength c rest
    have hlength := congrArg List.length hdrop
    simp only [List.length_drop, List.length_append, List.length_cons] at hlength
    refine ⟨c :: rest.take (itemLength c rest - 1) ++ body, later, ?_, ?_⟩
    · rw [List.append_assoc, ← hdrop, List.cons_append, List.take_append_drop]
    · simp only [List.length_append, List.length_cons, List.length_take]
      omega

namespace Reader

variable (config : LexerConfig) (text : Text)

/-- A run is sound when it stays within the text and is no brace region. -/
theorem ofRun_isSound {kind : TokenKind} {n : Nat} (hn : n ≤ text.length)
    (hkind : kind.isBraces = false) : (ofRun kind n).IsSound text := by
  unfold ofRun
  split_ifs
  · trivial
  · exact ⟨hn, by simp [hkind]⟩

/-- A quote with a closed run behind it lies within the text. -/
theorem isSound_of_quotedExtent {kind : TokenKind} {c quote : Char} {oneLine : Bool} {rest : Text}
    {n : Nat} (hkind : kind.isBraces = false) (h : quotedExtent quote oneLine rest = .closed n) :
    (Scan.lexeme kind (n + 1)).IsSound (c :: rest) := by
  obtain ⟨body, later, rfl, rfl⟩ := exists_of_quotedExtent_eq_closed h
  exact ⟨by simp, by simp [hkind]⟩

/-- A string ends within the text, and an open one blames no character. -/
theorem string_isSound : (string config text).IsSound text := by
  unfold string
  split
  · trivial
  · split_ifs
    · split
      · next hextent => exact isSound_of_quotedExtent rfl hextent
      · rfl
    · trivial

/-- A template string ends within the text, and an open one blames no character. -/
theorem templateString_isSound : (templateString config text).IsSound text := by
  unfold templateString
  split
  · trivial
  · split_ifs
    · split
      · next hextent => exact isSound_of_quotedExtent rfl hextent
      · rfl
    · trivial

/-- A balanced region is its two brackets with a body between them. -/
theorem balanced_eq_lexeme {opening closing : Char} {kind kind' : TokenKind} {n : Nat}
    (h : balanced opening closing kind text = .lexeme kind' n) :
    kind' = kind ∧ n ≤ text.length ∧
      ∃ body, text.take n = opening :: body ++ [closing] := by
  unfold balanced at h
  split at h
  · cases h
  · split_ifs at h with hopening
    · split at h
      · next m hextent =>
        obtain ⟨body, rest, rfl, rfl⟩ := exists_of_balancedExtent_eq_closed hextent
        cases h
        refine ⟨rfl, by simp, body, ?_⟩
        simp [hopening, List.take_append, List.take_of_length_le]
      · cases h

/-- A run of punctuation stays within the text. -/
theorem symbolRunLength_le : symbolRunLength config text ≤ text.length := by
  induction text with
  | nil => simp [symbolRunLength]
  | cons c rest ih =>
    unfold symbolRunLength
    split
    · simpa using ih
    · omega

/-- A symbol lies within the text. -/
theorem symbol_isSound : (symbol config text).IsSound text := by
  unfold symbol
  split
  · trivial
  · next c rest =>
    have hrun := symbolRunLength_le config rest
    split_ifs
    · exact ⟨by simpa using hrun, by simp [TokenKind.isBraces]⟩
    · exact ⟨by simp, by simp [TokenKind.isBraces]⟩
    · trivial

/-- A comma is one character. -/
theorem comma_isSound : (comma config text).IsSound text := by
  unfold comma
  split_ifs with hcomma
  · obtain ⟨rest, rfl⟩ := List.head?_eq_some_iff.mp hcomma
    exact ⟨by simp, by simp [TokenKind.isBraces]⟩
  · trivial

/-- Comments lie within the text. -/
theorem cssComment_isSound : (cssComment config text).IsSound text := by
  unfold cssComment
  split_ifs
  · exact ⟨Text.lengthThrough_le _ _, by simp [TokenKind.isBraces]⟩
  · trivial

/-- Comments lie within the text. -/
theorem comment_isSound : (comment config text).IsSound text := by
  unfold comment
  split_ifs
  · exact ⟨Text.lengthWhile_le _ _, by simp [TokenKind.isBraces]⟩
  · exact ⟨Text.lengthThrough_le _ _, by simp [TokenKind.isBraces]⟩
  · trivial

/-- A bracket reader is sound when braces are what it reads as braces. -/
theorem balanced_isSound {opening closing : Char} {kind : TokenKind}
    (hkind : kind.isBraces → opening = '\x7b' ∧ closing = '\x7d') :
    (balanced opening closing kind text).IsSound text := by
  cases hscan : balanced opening closing kind text with
  | declined => trivial
  | lexeme kind' n =>
    obtain ⟨rfl, hn, body, hbody⟩ := balanced_eq_lexeme text hscan
    refine ⟨hn, fun hbraces => ⟨body, ?_⟩⟩
    obtain ⟨rfl, rfl⟩ := hkind hbraces
    exact hbody
  | failed fault blame stop =>
    unfold balanced at hscan
    split at hscan
    · cases hscan
    · split_ifs at hscan
      split at hscan
      · cases hscan
      · cases hscan
        rfl

/-- What holds of the readers one by one holds of all. -/
@[elab_as_elim]
theorem mem_all_cases {motive : (reader : Reader) → reader ∈ all → Prop}
    (space : ∀ h, motive space h) (cssComment : ∀ h, motive cssComment h)
    (comment : ∀ h, motive comment h) (string : ∀ h, motive string h)
    (templateString : ∀ h, motive templateString h) (roundBrackets : ∀ h, motive roundBrackets h)
    (squareBrackets : ∀ h, motive squareBrackets h) (braces : ∀ h, motive braces h)
    (comma : ∀ h, motive comma h) (literal : ∀ h, motive literal h)
    (symbol : ∀ h, motive symbol h) {reader : Reader} (h : reader ∈ all) : motive reader h := by
  have hreader := h
  simp only [all, List.mem_cons, List.not_mem_nil, or_false] at hreader
  rcases hreader with rfl | rfl | rfl | rfl | rfl | rfl | rfl | rfl | rfl | rfl | rfl
  exacts [space h, cssComment h, comment h, string h, templateString h, roundBrackets h,
    squareBrackets h, braces h, comma h, literal h, symbol h]

/-- All readers are sound. -/
theorem isSound_of_mem_all {reader : Reader} (h : reader ∈ all) :
    (reader config text).IsSound text := by
  cases h using mem_all_cases with
  | space | literal => exact ofRun_isSound text (Text.lengthWhile_le _ _) rfl
  | cssComment => exact cssComment_isSound config text
  | comment => exact comment_isSound config text
  | string => exact string_isSound config text
  | templateString => exact templateString_isSound config text
  | roundBrackets | squareBrackets => exact balanced_isSound text (by simp [TokenKind.isBraces])
  | braces => exact balanced_isSound text fun _ => ⟨rfl, rfl⟩
  | comma => exact comma_isSound config text
  | symbol => exact symbol_isSound config text

/-- The first answer is the answer of one of the readers. -/
theorem firstAnswer_isSound {readers : List Reader}
    (h : ∀ reader ∈ readers, (reader config text).IsSound text) :
    (firstAnswer config text readers).IsSound text := by
  induction readers with
  | nil => trivial
  | cons reader rest ih =>
    rw [List.forall_mem_cons] at h
    unfold firstAnswer
    split
    · exact ih h.2
    · exact h.1

end Reader

/-- The answer of the scan is sound. -/
theorem scan_isSound (config : LexerConfig) (text : Text) : (scan config text).IsSound text :=
  Reader.firstAnswer_isSound config text fun _ h => Reader.isSound_of_mem_all config text h

end StyleSyntax
