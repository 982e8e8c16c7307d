import StyleSyntax.Proofs.Grammar.Stylesheet
import StyleSyntax.Proofs.Lexer.Trivia

/-!
# Round trips

The source of a stylesheet is the text that it was read from. The same holds inside: the source of a
block is a head, an opening brace, the source of its items and a closing brace, so that the items
account for every character between the braces, at every depth.
-/

namespace StyleSyntax

/-- The source of a stylesheet is the text of its tokens, whatever tokens these are, and the text of
its document without the mark. -/
theorem toSource_eq_of_parse (config : LexerConfig) (dialect : Dialect) :
    (∀ tokens sheet, parseTokens tokens config dialect = .ok sheet →
      toSource sheet = spelling tokens) ∧
    ∀ text sheet, parseDocument text config dialect = .ok sheet →
      toSource sheet = withoutMark text := by
  constructor
  · intro tokens sheet hparse
    rw [(itemsOf_of_parseTokens hparse).toSource_eq, spelling_splitSymbolRuns]
  · intro text sheet hparse
    obtain ⟨tokens, htokens, hitems⟩ := exists_itemsOf_of_parseDocument hparse
    rw [hitems.toSource_eq, spelling_splitSymbolRuns]
    exact (spelling_and_contiguous_of_tokensOf htokens).1

/-- The tokens need not come from a text: here they stand at impossible places, and one is a run of
punctuation. The document begins with a mark. -/
theorem toSource_eq_of_parse_unordered_and_marked :
    (∃ sheet, parseTokens [⟨.literal, ['a'], ⟨7, 7⟩⟩, ⟨.block, "\x7b;\x7d".toList, ⟨7, 7⟩⟩,
        ⟨.symbol, [';', ';'], .start⟩] {} .jss = .ok sheet ∧
      toSource sheet = "a\x7b;\x7d;;".toList) ∧
    ∃ sheet, parseDocument "\uFEFF/**/;".toList {} .css = .ok sheet ∧
      toSource sheet = "/**/;".toList := by
  have htokens : parseTokens [⟨.literal, ['a'], ⟨7, 7⟩⟩, ⟨.block, "\x7b;\x7d".toList, ⟨7, 7⟩⟩,
      ⟨.symbol, [';', ';'], .start⟩] {} .jss =
      .ok [.block (.rule .jss [⟨.jss, [['a']], ['a'], ⟨7, 7⟩⟩])
          [.leaf (.ignored ⟨[';'], ⟨7, 8⟩⟩)] ⟨"a\x7b;\x7d".toList, ⟨7, 7⟩⟩,
        .leaf (.ignored ⟨[';'], ⟨1, 1⟩⟩), .leaf (.ignored ⟨[';'], ⟨1, 2⟩⟩)] := by
    decide +kernel
  have hdocument : parseDocument "\uFEFF/**/;".toList {} .css =
      .ok [.leaf (.ignored ⟨"/**/".toList, ⟨1, 1⟩⟩), .leaf (.ignored ⟨[';'], ⟨1, 5⟩⟩)] := by
    decide +kernel
  exact ⟨⟨_, htokens, (toSource_eq_of_parse {} .jss).1 _ _ htokens⟩,
    _, hdocument, (toSource_eq_of_parse {} .css).2 _ _ hdocument⟩

/-- The tokens are neighbours among the split tokens of some text. -/
def IsLexed (config : LexerConfig) (tokens : List Token) : Prop :=
  ∃ text origin lexed, tokensOf config text origin = .ok lexed ∧ tokens <:+: splitSymbolRuns lexed

/-- The split tokens between brackets are those of a text again. -/
def TokenInvariant.lexed (config : LexerConfig) : TokenInvariant config where
  holds := IsLexed config
  of_isInfix := by
    rintro tokens part ⟨text, origin, lexed, hlexed, htokens⟩ hpart
    exact ⟨text, origin, lexed, hlexed, hpart.trans htokens⟩
  of_interior _ _ _ hinner := ⟨_, _, _, hinner, List.infix_rfl⟩

/-- A brace token of a text has its interior between two braces. -/
theorem IsLexed.value_eq {config : LexerConfig} {tokens : List Token} (h : IsLexed config tokens)
    {token : Token} (htoken : token ∈ tokens) (hbraces : token.isBraces) {text : Text}
    {origin : Position} (hinterior : token.interior = some (text, origin)) :
    token.value = '\x7b' :: text ++ ['\x7d'] := by
  obtain ⟨_, _, lexed, hlexed, htokens⟩ := h
  have hkind : token.kind ≠ .symbol := by
    intro hkind
    rw [Token.isBraces, hkind] at hbraces
    cases hbraces
  have hmem := mem_of_mem_splitSymbolRuns (htokens.subset htoken) hkind
  obtain ⟨body, hbody⟩ := exists_body_of_tokensOf hlexed hmem hbraces
  obtain ⟨opening, closing, hvalue, _⟩ := exists_brackets_of_interior hinterior
  rw [hvalue] at hbody ⊢
  rw [List.cons_append, List.cons_append, List.cons.injEq] at hbody
  obtain ⟨rfl, hrest⟩ := hbody
  obtain ⟨rfl, hclosing⟩ := List.append_inj' hrest rfl
  rw [hclosing]

/-- What a text may have behind the closing brace: nothing, or behind a variable also trivia and a
semicolon. -/
def Head.ClosesWith (config : LexerConfig) (tail : Text) : Head → Prop
  | variableBlock .. => tail = [] ∨ ∃ gap, IsTriviaText config gap ∧ tail = gap ++ [';']
  | rule .. | media _ | page _ => tail = []

/-- What stands behind a brace token spells what may stand behind a closing brace. -/
theorem Head.EndsWith.closesWith {config : LexerConfig} {front back : List Token} {head : Head}
    (h : head.EndsWith back) (hlexed : IsLexed config (front ++ back)) :
    head.ClosesWith config (spelling back) := by
  cases head with
  | variableBlock =>
    rcases h with rfl | ⟨gap, signs, rfl, hgap, hsigns⟩
    · exact .inl rfl
    · obtain ⟨text, origin, lexed, htokens, hpart⟩ := hlexed
      refine .inr ⟨spelling gap, isTriviaText_of_isInfix htokens ?_ hgap, ?_⟩
      · exact List.IsInfix.trans ⟨front, signs, List.append_assoc _ _ _⟩ hpart
      · rw [spelling_append, hsigns]
  | rule | media | page =>
    rw [h]
    rfl

/-- The source of a block at any depth is a head and its items between braces. Only a variable may
have trivia and a semicolon behind them. -/
theorem source_eq_of_mem_listing {text : Text} {config : LexerConfig} {dialect : Dialect}
    {sheet : Stylesheet} (hparse : parseDocument text config dialect = .ok sheet) {depth : Nat}
    {head : Head} {items : List Node} {source : Excerpt}
    (hnode : (depth, .block head items source) ∈ Node.listingOf 0 sheet) :
    ∃ front tail, source.text = front ++ '\x7b' :: toSource items ++ '\x7d' :: tail ∧
      head.ClosesWith config tail := by
  obtain ⟨tokens, htokens, hsheet⟩ := exists_itemsOf_of_parseDocument hparse
  have hlexed : (TokenInvariant.lexed config).holds (splitSymbolRuns tokens) :=
    ⟨_, _, tokens, htokens, List.infix_rfl⟩
  obtain ⟨place, part, hpart, hread⟩ := hsheet.exists_of_mem_listing hlexed hnode
  have hsource := hread.source_eq
  cases hread with
  | @block _ front back inner token _ _ _ body origin hhead hinterior hinner hitems =>
    have hvalue := hpart.value_eq (by simp) hhead.braces hinterior
    have hsplit : IsLexed config (front ++ [token] ++ back) := by
      rwa [List.append_assoc, List.singleton_append]
    have hbody : toSource items = body := by
      rw [hitems.toSource_eq, spelling_splitSymbolRuns]
      exact (spelling_and_contiguous_of_tokensOf hinner).1
    refine ⟨spelling front, spelling back, ?_, hhead.ends.closesWith hsplit⟩
    calc
      source.text = spelling (front ++ token :: back) := hsource
      _ = spelling front ++ ('\x7b' :: body ++ ['\x7d'] ++ spelling back) := by
        rw [spelling_append, spelling_cons, hvalue]
      _ = spelling front ++ '\x7b' :: toSource items ++ '\x7d' :: spelling back := by
        rw [hbody]
        simp

/-- A variable that holds a rule, with a space before the semicolon. -/
theorem source_eq_of_mem_listing_variable :
    ∃ head items source sheet,
      parseDocument "let a=\x7bb\x7b;\x7d\x7d ;".toList {} .jss = .ok sheet ∧
      (0, .block head items source) ∈ Node.listingOf 0 sheet ∧
      ∃ front tail, source.text = front ++ '\x7b' :: toSource items ++ '\x7d' :: tail ∧
        head.ClosesWith {} tail := by
  have hparse : parseDocument "let a=\x7bb\x7b;\x7d\x7d ;".toList {} .jss =
      .ok [.block (.variableBlock .letKeyword ['a'] false)
        [.block (.rule .jss [⟨.jss, [['b']], ['b'], ⟨1, 8⟩⟩]) [.leaf (.ignored ⟨[';'], ⟨1, 10⟩⟩)]
          ⟨"b\x7b;\x7d".toList, ⟨1, 8⟩⟩] ⟨"let a=\x7bb\x7b;\x7d\x7d ;".toList, ⟨1, 1⟩⟩] := by
    decide +kernel
  exact ⟨_, _, _, _, hparse, List.mem_cons_self,
    source_eq_of_mem_listing hparse List.mem_cons_self⟩

end StyleSyntax
