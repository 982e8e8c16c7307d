import StyleSyntax.Document.Basic
import StyleSyntax.Proofs.Grammar.RecastStylesheet
import StyleSyntax.Proofs.Lexer.SymbolRuns

/-!
# Documents under other flags

Over a plain alphabet the flags of the lexer do not reach the tree. Under any flags the split tokens
of a text, and of every interior, are recast to the settled ones, and the recasting moves no
position; so a document is read with the result that it has under settled flags.
-/

namespace StyleSyntax

/-- Tokens over a plain alphabet are seen as settled tokens. -/
def Recasting.settled : Recasting where
  kind := TokenKind.settled
  position := id
  config := LexerConfig.settled
  scope region _ := region.config.IsPlain
  kind_eq h := by rw [TokenKind.settled, if_neg (by simp [h])]
  isBraces_kind kind := by cases kind <;> rfl
  scope_tail hplain _ := hplain

/-- The settled tokens of an interior are settled from its tokens. -/
theorem Recasting.settled_enters : Recasting.settled.Enters where
  scope_append hplain := hplain
  position_advanceText _ _ := rfl
  scope_interior hplain _ _ := hplain
  tokens_interior {region _ _ tokens text origin} hplain _ htokens := by
    refine ⟨(splitSymbolRuns tokens).map Token.settled, ?_, splitSymbolRuns_map_settled tokens⟩
    exact (tokensOf_settled hplain text origin).trans (by rw [htokens]; rfl)
  error_interior {region _ _ text origin error} hplain _ herror :=
    (tokensOf_settled hplain text origin).trans (by rw [herror]; rfl)

variable {config : LexerConfig}

/-- Over a plain alphabet tokens and their settled tokens are read with the same result. -/
theorem parseTokens_settled (hplain : config.IsPlain) (tokens : List Token) (dialect : Dialect) :
    parseTokens ((splitSymbolRuns tokens).map Token.settled) config.settled dialect =
      parseTokens tokens config dialect := by
  have hscope : Recasting.settled.scope (.ofTokens config (splitSymbolRuns tokens) .start)
      (splitSymbolRuns tokens) := hplain
  have hregion := Recasting.settled_enters.region_ofTokens hscope
  have hnode : Recasting.settled.node = id := funext (Recasting.node_eq_self fun _ => rfl)
  have heq := ((Grammar.recasts_stylesheet Recasting.settled_enters dialect).reply _ _ hscope).eq
  rw [hregion, hnode, List.map_id_fun] at heq
  have hself (reply : Reply (List Node)) :
      (reply.recast Recasting.settled id).outcome = reply.outcome := by
    rcases reply with ⟨value | error | _, next⟩
    · rfl
    · exact congrArg Outcome.failed (Recasting.error_eq_self (fun _ => rfl) error)
    · rfl
  unfold parseTokens
  rw [splitSymbolRuns_map_settled]
  exact (congrArg Reply.outcome heq).trans (hself _)

/-- A document over a plain alphabet is read as it is under settled flags. -/
theorem parseDocument_settled (hplain : config.IsPlain) (text : Text) (dialect : Dialect) :
    parseDocument text config.settled dialect = parseDocument text config dialect := by
  unfold parseDocument documentTokens
  rw [tokensOf_settled hplain]
  cases tokensOf config (withoutMark text) .start with
  | error error => rfl
  | ok tokens =>
    dsimp only [Except.map]
    rw [parseTokens_settled hplain]

/-- Over one plain alphabet every choice of the flags gives the same result: the same tree with the
same positions, or the same error with the same context and position. -/
theorem parseDocument_eq_of_symbols_eq (config config' : LexerConfig) (hplain : config.IsPlain)
    (hsymbols : config'.symbols = config.symbols) (text : Text) (dialect : Dialect) :
    parseDocument text config' dialect = parseDocument text config dialect := by
  have hplain' : config'.IsPlain := by
    rw [LexerConfig.IsPlain, hsymbols]
    exact hplain
  have hsettled : config'.settled = config.settled := by
    rw [LexerConfig.settled, hsymbols]
    rfl
  rw [← parseDocument_settled hplain', hsettled, parseDocument_settled hplain]

/-- The usual alphabet is plain, so its punctuation may be joined and its braces left unmarked. -/
theorem parseDocument_eq_of_symbols_eq_joined :
    LexerConfig.IsPlain {} ∧
      parseDocument "a::b\x7bc:d\x7d".toList { joinSymbols := true, lazyBraces := false } .css =
        parseDocument "a::b\x7bc:d\x7d".toList {} .css := by
  have hplain : LexerConfig.IsPlain {} := by decide
  exact ⟨hplain, parseDocument_eq_of_symbols_eq {} { joinSymbols := true, lazyBraces := false }
    hplain rfl _ _⟩

end StyleSyntax
