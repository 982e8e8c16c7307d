import StyleSyntax.Proofs.Parser.Bracketed
import StyleSyntax.Proofs.Parser.Repetition

/-!
# Contracts of the tokens consumed

A contract may promise no more than that every consumed token passes a test. Such a promise needs no
account of gaps or ends: it holds of a sequence, of a repetition and of captured source as soon as
it holds of the parts. It may be joined to another promise of the same parser.
-/

namespace StyleSyntax

/-- All consumed tokens pass the test. -/
def Promise.tokens {α : Type} (test : Token → Bool) : Promise α :=
  fun _ used _ _ => ∀ token ∈ used, test token

namespace Parser

variable {α β σ : Type} {setting : Setting} {test : Token → Bool}

/-- Two promises of one parser are about the same consumed tokens. -/
theorem Keeps.and {p : Parser α} {first second : Promise α} (h : p.Keeps setting first)
    (h' : p.Keeps setting second) :
    p.Keeps setting fun region used next value =>
      first region used next value ∧ second region used next value := by
  constructor
  intro region rest hscope
  have hreply := h.reply region rest hscope
  have hreply' := h'.reply region rest hscope
  generalize p.run region rest = reply at hreply hreply' ⊢
  rcases reply with ⟨value | error | _, next⟩
  · obtain ⟨used, rfl, hvalue⟩ := hreply
    obtain ⟨used', heq, hvalue'⟩ := hreply'
    obtain rfl := List.append_cancel_right heq
    exact ⟨used, rfl, hvalue, hvalue'⟩
  · exact hreply
  · exact hreply

/-- What consumes nothing consumes only tokens that pass. -/
theorem Keeps.tokens_of_nothing {p : Parser α} (h : p.Keeps setting Promise.nothing) :
    p.Keeps setting (Promise.tokens test) := by
  refine h.mono ?_
  rintro region used next value rfl
  exact List.forall_mem_nil _

/-- A value where it stands consumes nothing. -/
theorem keeps_pure_tokens (value : α) :
    (pure value : Parser α).Keeps setting (Promise.tokens test) :=
  keeps_pure fun _ _ => List.forall_mem_nil _

/-- A sequence consumes what its parts do. -/
theorem Keeps.bind_tokens {p : Parser α} {following : α → Parser β}
    (hp : p.Keeps setting (Promise.tokens test))
    (hfollowing : ∀ value, (following value).Keeps setting (Promise.tokens test)) :
    (p >>= following).Keeps setting (Promise.tokens test) := by
  refine hp.bind fun value => (hfollowing value).mono ?_
  intro region used next result hused before hbefore
  exact List.forall_mem_append.mpr ⟨hbefore, hused⟩

/-- A part that is left out consumes nothing. -/
theorem Keeps.optional_tokens {p : Parser α} (hp : p.Keeps setting (Promise.tokens test)) :
    p.optional.Keeps setting (Promise.tokens test) := by
  refine hp.optional.mono ?_
  rintro region used next (_ | value) hvalue
  · obtain rfl : used = [] := hvalue
    exact List.forall_mem_nil _
  · exact hvalue

/-- Zero or more matches consume what each of them does. -/
theorem Keeps.many_tokens {p : Parser α} (hp : p.Keeps setting (Promise.tokens test)) :
    (Parser.many p).Keeps setting (Promise.tokens test) := by
  refine hp.many (fun _ _ => List.forall_mem_nil _) ?_
  intro region used between next value values hused hbetween
  exact List.forall_mem_append.mpr ⟨hused, hbetween⟩

/-- Elements behind separators consume what each of them does. -/
theorem Keeps.separated_tokens {separator : Parser σ} {element : Parser α}
    (hs : separator.Keeps setting (Promise.tokens test))
    (he : element.Keeps setting (Promise.tokens test))
    (hmoves : element.Keeps setting fun _ used _ _ => used ≠ []) :
    (Parser.separated separator element).Keeps setting (Promise.tokens test) := by
  refine hs.separated (he.and hmoves) (fun _ _ _ _ h => h.2)
    (fun _ _ => List.forall_mem_nil _) ?_
  intro region before used between next sign value values hbefore hused hbetween
  exact List.forall_mem_append.mpr ⟨hbefore, List.forall_mem_append.mpr ⟨hused.1, hbetween⟩⟩

/-- A list that must have elements consumes what each of them does. -/
theorem Keeps.list_tokens {separator : Parser σ} {element : Parser α}
    (he : element.Keeps setting (Promise.tokens test))
    (hmoves : element.Keeps setting fun _ used _ _ => used ≠ [])
    (hs : separator.Keeps setting (Promise.tokens test)) :
    (Parser.list element separator false).Keeps setting (Promise.tokens test) := by
  refine he.optional_tokens.bind_tokens fun value => ?_
  cases value with
  | none => exact keeps_fail_emptyList _
  | some first => exact (hs.separated_tokens he hmoves).bind_tokens fun _ => keeps_pure_tokens _

/-- Captured source is that of the same consumed tokens. -/
theorem Keeps.capture_tokens {p : Parser α} (hp : p.Keeps setting (Promise.tokens test)) :
    (Parser.capture p).Keeps setting (Promise.tokens test) :=
  hp.capture_excerptOf.mono fun _ _ _ _ h => h.1

/-- Source as written is that of the same consumed tokens. -/
theorem Keeps.rawValue_tokens {p : Parser α} (hp : p.Keeps setting (Promise.tokens test)) :
    (Parser.rawValue p).Keeps setting (Promise.tokens test) := by
  refine hp.rawValue_spelling.mono ?_
  rintro region used next text ⟨⟨_, hused⟩, -⟩
  exact hused

section Gaps

variable (htrivia : ∀ token : Token, token.isTrivia → test token)

include htrivia

/-- A matched token passes when its own test says so. -/
theorem keeps_tokenWhere_tokens (wanted : Text) {own : Token → Bool}
    (h : ∀ token, own token → test token) :
    (tokenWhere wanted own).Keeps setting (Promise.tokens test) := by
  refine (keeps_tokenWhere wanted own).mono ?_
  rintro region used next token ⟨gap, rfl, hgap, _, hown⟩
  refine List.forall_mem_append.mpr ⟨fun found hfound => htrivia found (hgap found hfound), ?_⟩
  simpa using h token hown

/-- Symbols pass when every symbol token with characters of the text does. -/
theorem tokens_of_symbols {region : Region} {used next : List Token} {text : Text}
    (h : ∀ token : Token, token.kind = .symbol → token.value ⊆ text → test token)
    (hused : Promise.symbols region used next text) : ∀ token ∈ used, test token := by
  obtain ⟨gap, signs, rfl, hgap, hspelling, hsigns⟩ := hused
  refine List.forall_mem_append.mpr ⟨fun found hfound => htrivia found (hgap found hfound), ?_⟩
  intro sign hsign
  refine h sign (hsigns sign hsign) fun c hc => ?_
  rw [← hspelling]
  exact List.mem_flatMap.mpr ⟨sign, hsign, hc⟩

/-- A run of symbols passes when every symbol token with characters of the text does. -/
theorem keeps_symbol_tokens {text : Text}
    (h : ∀ token : Token, token.kind = .symbol → token.value ⊆ text → test token) :
    (symbol text).Keeps setting (Promise.tokens test) := by
  refine (keeps_symbol text).mono ?_
  rintro region used next value ⟨rfl, hused⟩
  exact tokens_of_symbols htrivia h hused

/-- One of several runs of symbols passes when each of them does. -/
theorem keeps_oneOfSymbols_tokens {candidates : List Text}
    (h : ∀ text ∈ candidates, ∀ token : Token, token.kind = .symbol → token.value ⊆ text →
      test token) :
    (oneOfSymbols candidates).Keeps setting (Promise.tokens test) := by
  constructor
  intro region rest hscope
  have hreply := runSymbols_keeps hscope (Setting.admits_expected hscope
    (List.intercalate " or ".toList (candidates.map quotedName))) (longestFirst candidates)
  refine hreply.mono ?_
  rintro used next value ⟨hvalue, hused⟩
  exact tokens_of_symbols htrivia (h value (mem_longestFirst.mp hvalue)) hused

/-- Trivia passes. -/
theorem keeps_trivia_tokens : trivia.Keeps setting (Promise.tokens test) := by
  refine keeps_trivia.mono ?_
  rintro region used next value ⟨hgap, _⟩
  exact fun token htoken => htrivia token (hgap token htoken)

/-- Trivia that is moved over passes. -/
theorem keeps_skipTrivia_tokens : skipTrivia.Keeps setting (Promise.tokens test) :=
  keeps_skipTrivia.mono fun _ _ _ _ hgap token htoken => htrivia token (hgap token htoken)

end Gaps

end Parser

end StyleSyntax
