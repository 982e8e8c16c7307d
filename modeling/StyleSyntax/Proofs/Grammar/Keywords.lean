import StyleSyntax.Grammar.Statement
import StyleSyntax.Proofs.Document.RoundTrip
import StyleSyntax.Proofs.Lexer.SymbolRuns

/-!
# Sources that begin with a keyword

Whether the first token of a piece of source is a word that begins a script statement can be told
from the text of the piece alone: literals are longest runs, so the first token is the word exactly
when the longest run of literal characters at the beginning is. The tokens of a text are also known
to be single characters where they are punctuation.
-/

namespace StyleSyntax

/-- The longest run of literal characters at the beginning is a word that begins a script
statement. -/
def startsWithKeyword (source : Text) : Bool :=
  Grammar.scriptKeywords.contains (source.takeWhile Reader.isLiteralChar)

variable {config : LexerConfig} {token : Token} {more tokens : List Token}

/-- A token among split runs that is no symbol was a token before, and those behind it are split
from the tokens behind it. -/
theorem exists_of_splitSymbolRuns_eq {front back : List Token}
    (h : splitSymbolRuns tokens = front ++ token :: back) (hkind : token.kind ≠ .symbol) :
    ∃ before after, tokens = before ++ token :: after ∧ splitSymbolRuns after = back := by
  induction tokens generalizing front with
  | nil => simp at h
  | cons first tokens ih =>
    have hlater (front : List Token) (h : splitSymbolRuns tokens = front ++ token :: back) :
        ∃ before after, first :: tokens = before ++ token :: after ∧
          splitSymbolRuns after = back := by
      obtain ⟨before, after, rfl, hafter⟩ := ih h
      exact ⟨first :: before, after, rfl, hafter⟩
    rw [splitSymbolRuns_cons] at h
    rcases List.append_eq_append_iff.mp h with ⟨between, _, hbetween⟩ | ⟨between, hpieces, hbetween⟩
    · exact hlater between hbetween
    · cases between with
      | nil => exact hlater [] hbetween.symm
      | cons piece between =>
        obtain ⟨rfl, hback⟩ := List.cons.inj hbetween
        split_ifs at hpieces with hrun
        · have hsymbol : token.kind = .symbol := kind_of_mem_symbolsOf (by rw [hpieces]; simp)
          exact absurd hsymbol hkind
        · obtain ⟨rfl, hfirst⟩ := List.singleton_eq_append_iff.mp hpieces |>.resolve_right (by simp)
          obtain ⟨rfl, rfl⟩ := List.cons.inj hfirst
          exact ⟨[], tokens, rfl, hback.symm⟩

/-- What may begin a variable is a keyword. -/
theorem Grammar.isScriptKeyword_of_isVariableStart (h : Grammar.isVariableStart token) :
    Grammar.isScriptKeyword token := by
  rw [Grammar.isVariableStart, Bool.and_eq_true, Bool.or_eq_true, beq_iff_eq, beq_iff_eq] at h
  obtain ⟨hkind, hvalue⟩ := h
  have hkeyword : Grammar.scriptKeywords.contains token.value := by
    rcases hvalue with hexport | hword
    · rw [hexport]
      decide
    · obtain ⟨word, hfound⟩ := Option.isSome_iff_exists.mp hword
      have htext := List.find?_some hfound
      rw [beq_iff_eq] at htext
      rw [← htext]
      cases word <;> decide
  rw [Grammar.isScriptKeyword, hkind, hkeyword]
  rfl

namespace IsLexed

/-- Neighbours among tokens of a text are tokens of a text. -/
theorem of_isInfix {part : List Token} (h : IsLexed config tokens) (hpart : part <:+: tokens) :
    IsLexed config part :=
  (TokenInvariant.lexed config).of_isInfix h hpart

/-- What is left of tokens of a text is tokens of a text. -/
theorem of_append {used next : List Token} (h : IsLexed config (used ++ next)) :
    IsLexed config next :=
  h.of_isInfix (List.suffix_append used next).isInfix

/-- Punctuation is one character. -/
theorem exists_value_eq (h : IsLexed config tokens) (htoken : token ∈ tokens)
    (hkind : token.kind = .symbol) : ∃ c, token.value = [c] := by
  obtain ⟨_, _, lexed, hlexed, htokens⟩ := h
  obtain ⟨origin, horigin, hpiece⟩ := List.mem_flatMap.mp (htokens.subset htoken)
  split_ifs at hpiece with hrun
  · exact exists_value_of_mem_symbolsOf hpiece
  · rw [List.mem_singleton.mp hpiece] at hkind ⊢
    have hne := ne_nil_of_mem_tokensOf hlexed horigin
    refine List.length_eq_one_iff.mp ?_
    have hpos := List.length_pos_of_ne_nil hne
    simp [Token.isSymbolRun, hkind] at hrun
    omega

/-- What a parser makes of the split tokens of a text is a run on tokens of a text. -/
theorem exists_run_of_map {α : Type} {p : Parser α} {region : Region} {text : Text}
    {origin : Position} {value : α}
    (h : (tokensOf config text origin).map
      (fun tokens => (p.run region (splitSymbolRuns tokens)).outcome) = .ok (.ok value)) :
    ∃ tokens next, tokensOf config text origin = .ok tokens ∧
      IsLexed config (splitSymbolRuns tokens) ∧
      p.run region (splitSymbolRuns tokens) = ⟨.ok value, next⟩ := by
  cases htokens : tokensOf config text origin with
  | error fault =>
    rw [htokens] at h
    cases h
  | ok tokens =>
    rw [htokens] at h
    rcases hrun : p.run region (splitSymbolRuns tokens) with ⟨outcome, next⟩
    rw [Except.map, hrun] at h
    obtain rfl := Except.ok.inj h
    exact ⟨tokens, next, rfl, ⟨text, origin, tokens, htokens, List.infix_rfl⟩, hrun⟩

/-- A sign is spelled by one token. -/
theorem exists_sign {next : List Token} {c : Char} (h : IsLexed config tokens)
    (hafter : Parser.afterSymbols [c] tokens = some next) :
    ∃ sign, tokens = sign :: next ∧ sign.isSymbol [c] := by
  cases tokens with
  | nil => cases hafter
  | cons sign tokens =>
    unfold Parser.afterSymbols at hafter
    split_ifs at hafter with hsign
    rw [Bool.and_eq_true, beq_iff_eq] at hsign
    obtain ⟨d, hvalue⟩ := h.exists_value_eq List.mem_cons_self hsign.1
    rw [hvalue] at hsign hafter
    obtain rfl : d = c := by simpa [Text.startsWith] using hsign.2
    refine ⟨sign, ?_, by simp [Token.isSymbol, hsign.1, hvalue]⟩
    simpa [Parser.afterSymbols] using hafter

/-- A literal at the beginning of neighbouring tokens is the longest run of literal characters at
the beginning of their text. -/
theorem takeWhile_spelling (h : IsLexed config (token :: more)) (hkind : token.kind = .literal) :
    (spelling (token :: more)).takeWhile Reader.isLiteralChar = token.value := by
  obtain ⟨text, origin, lexed, hlexed, front, back, hsplit⟩ := h
  rw [List.append_assoc, List.cons_append] at hsplit
  obtain ⟨before, after, rfl, hafter⟩ :=
    exists_of_splitSymbolRuns_eq hsplit.symm (by rw [hkind]; simp)
  obtain ⟨-, hscan⟩ := scan_of_tokensOf hlexed
  have hspelling : spelling after = spelling more ++ spelling back := by
    rw [← spelling_splitSymbolRuns, hafter, spelling_append]
  rw [hkind] at hscan
  have hfound := Reader.Finds.literal.of_scan hscan
  rw [Reader.literal, Reader.ofRun] at hfound
  split_ifs at hfound
  obtain ⟨-, hlength⟩ := Scan.lexeme.inj hfound
  rw [hspelling, ← List.append_assoc, ← spelling_cons] at hlength
  have hpart : Text.lengthWhile Reader.isLiteralChar (spelling (token :: more)) =
      Text.lengthWhile Reader.isLiteralChar (spelling (token :: more) ++ spelling back) :=
    Text.lengthWhile_of_append (by rw [hlength]; simp)
  rw [← Text.take_lengthWhile, hpart, hlength, spelling_cons, List.take_left]

/-- A source that begins with a literal begins with a keyword when the literal is one. -/
theorem startsWithKeyword_spelling (h : IsLexed config (token :: more))
    (hkind : token.kind = .literal) :
    startsWithKeyword (spelling (token :: more)) = Grammar.isScriptKeyword token := by
  rw [startsWithKeyword, h.takeWhile_spelling hkind, Grammar.isScriptKeyword, hkind]
  rfl

/-- A source that begins like an identifier begins with a keyword when its first token is one. -/
theorem startsWithKeyword_of_unit (h : IsLexed config (token :: more))
    (hunit : Grammar.isName token || Grammar.isDashes token) :
    startsWithKeyword (spelling (token :: more)) = Grammar.isScriptKeyword token := by
  rcases Grammar.unit_cases hunit with ⟨hkind, -⟩ | ⟨hkind, hdashes⟩
  · exact h.startsWithKeyword_spelling hkind
  · obtain ⟨c, hvalue⟩ := h.exists_value_eq List.mem_cons_self hkind
    obtain rfl : c = '-' := by simpa [hvalue] using hdashes
    rw [startsWithKeyword, spelling_cons, hvalue, Grammar.isScriptKeyword, hkind]
    rfl

end IsLexed

end StyleSyntax
