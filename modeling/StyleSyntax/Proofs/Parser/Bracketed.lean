import StyleSyntax.Parser.Bracketed
import StyleSyntax.Parser.Capture
import StyleSyntax.Proofs.Parser.Matching

/-!
# Contracts of captured and bracketed source

Captured source is the source of the tokens that were consumed for the value. A bracketed token is
matched together with the promise for its interior, which is kept on the tokens of the text between
the brackets, all but trivia at their end.
-/

namespace StyleSyntax

/-- The tokens consumed are those that are no longer left. -/
theorem consumed_append (used next : List Token) : consumed (used ++ next) next = used := by
  simp [consumed]

/-- The excerpt is the source of what is consumed, behind its gap. -/
def Promise.excerpt : Promise Excerpt :=
  fun _ used _ excerpt => excerpt.IsOf (dropTrivia used)

/-- The value keeps the promise on the tokens of the text between the brackets of a token, all but
trivia at their end. -/
def Promise.inside {α : Type} (promise : Promise α) (config : LexerConfig) (token : Token)
    (value : α) : Prop :=
  ∃ text origin tokens, token.interior = some (text, origin) ∧
    tokensOf config text origin = .ok tokens ∧
    ∃ used left, splitSymbolRuns tokens = used ++ left ∧ AllTrivia left ∧
      promise (.ofTokens config (splitSymbolRuns tokens) origin) used left value

/-- A gap and one bracketed token are consumed, and the value is that of the interior. -/
def Promise.block {α : Type} (kinds : List TokenKind) (promise : Promise α) : Promise α :=
  fun region used _ value => ∃ gap token, used = gap ++ [token] ∧ AllTrivia gap ∧
    token.isSignificant ∧ kinds.contains token.kind ∧ promise.inside region.config token value

/-- A bracketed token is the significant end of what was consumed. -/
theorem Promise.block.endsSignificant {α : Type} {kinds : List TokenKind} {promise : Promise α}
    {region : Region} {used next : List Token} {value : α}
    (h : Promise.block kinds promise region used next value) : EndsSignificant used := by
  obtain ⟨gap, token, rfl, _, htoken, _⟩ := h
  exact endsSignificant_concat gap htoken

namespace Parser

variable {α β : Type} {setting : Setting}

/-- The captured excerpt is taken from the tokens that the promise is about. -/
theorem Keeps.capture_excerptOf {p : Parser α} {promise : Promise α} (h : p.Keeps setting promise) :
    (capture p).Keeps setting fun region used next captured =>
      promise region used next captured.1 ∧ ∃ fallback, captured.2 = excerptOf used fallback := by
  constructor
  intro region rest hscope
  have hreply := h.reply region rest hscope
  unfold Parser.capture
  dsimp only
  generalize p.run region rest = reply at hreply ⊢
  rcases reply with ⟨value | error | _, next⟩
  · obtain ⟨used, rfl, hvalue⟩ := hreply
    exact ⟨used, rfl, hvalue, _, by rw [consumed_append]⟩
  · exact hreply
  · exact hreply

/-- The captured excerpt is the source of what was consumed, behind its gap. -/
theorem Keeps.capture {p : Parser α} {promise : Promise α} (h : p.Keeps setting promise)
    (hends : ∀ region used next value, promise region used next value → EndsSignificant used) :
    (capture p).Keeps setting fun region used next captured =>
      promise region used next captured.1 ∧ captured.2.IsOf (dropTrivia used) := by
  refine h.capture_excerptOf.mono ?_
  rintro region used next ⟨value, source⟩ ⟨hvalue, fallback, rfl⟩
  exact ⟨hvalue, excerptOf_isOf (hends region used next value hvalue) fallback⟩

/-- What is built from captured parts keeps what follows from their promise and from the source. -/
theorem Keeps.bind_capture {p : Parser α} {build : α × Excerpt → β} (parts : Promise α)
    {promise : Promise β} (hp : p.Keeps setting parts)
    (hends : ∀ region used next value, parts region used next value → EndsSignificant used)
    (hbuild : ∀ region used next value source, parts region used next value →
      source.IsOf (dropTrivia used) → promise region used next (build (value, source))) :
    (Parser.capture p >>= fun captured => pure (build captured)).Keeps setting promise := by
  refine (hp.capture hends).bind fun captured => keeps_pure ?_
  rintro region next used ⟨hparts, hsource⟩
  rw [List.append_nil]
  exact hbuild region used next captured.1 captured.2 hparts hsource

/-- An excerpt alone is the source of what was consumed, behind its gap. -/
theorem Keeps.excerpt {p : Parser α} (h : p.Keeps setting Promise.significant) :
    (excerpt p).Keeps setting Promise.excerpt :=
  Keeps.map ((h.capture fun _ _ _ _ hused => hused).mono fun _ _ _ _ hcaptured => hcaptured.2)

/-- Source as written is spelled by the tokens that the promise is about. -/
theorem Keeps.rawValue_spelling {p : Parser α} {promise : Promise α} (h : p.Keeps setting promise) :
    (rawValue p).Keeps setting fun region used next text =>
      (∃ value, promise region used next value) ∧ text = spelling used := by
  constructor
  intro region rest hscope
  have hreply := h.reply region rest hscope
  unfold Parser.rawValue
  dsimp only
  generalize p.run region rest = reply at hreply ⊢
  rcases reply with ⟨value | error | _, next⟩
  · obtain ⟨used, rfl, hvalue⟩ := hreply
    exact ⟨used, rfl, ⟨value, hvalue⟩, by rw [consumed_append]⟩
  · exact hreply
  · exact hreply

/-- Source as written ends as the tokens that it is the source of. -/
theorem Keeps.rawValue {p : Parser α} (h : p.Keeps setting Promise.significant) :
    (rawValue p).Keeps setting Promise.significant := by
  refine h.rawValue_spelling.mono ?_
  rintro region used next text ⟨⟨_, hused⟩, -⟩
  exact hused

/-- A parser that has to consume a whole list leaves trivia at most. -/
theorem Keeps.runWhole {inner : Parser α} {promise : Promise α} (h : inner.Keeps setting promise)
    {region : Region} {tokens : List Token} (hscope : setting.scope region tokens) :
    match runWhole inner region tokens with
    | .ok value => ∃ used left, tokens = used ++ left ∧ AllTrivia left ∧
        promise region used left value
    | .failed error => setting.admits error
    | .endless => False := by
  have hreply := h.reply region tokens hscope
  unfold Parser.runWhole
  generalize inner.run region tokens = reply at hreply ⊢
  rcases reply with ⟨value | error | _, left⟩
  · obtain ⟨used, rfl, hvalue⟩ := hreply
    have hleft := Setting.scope_dropTrivia (setting.scope_append hscope)
    dsimp only
    cases hfirst : firstSignificant left with
    | none => exact ⟨used, left, rfl, firstSignificant_eq_none.mp hfirst, hvalue⟩
    | some token =>
      rw [firstSignificant_eq_head?] at hfirst
      obtain ⟨more, hmore⟩ := List.head?_eq_some_iff.mp hfirst
      rw [hmore] at hleft
      exact setting.admits_unexpectedAt hleft
  · exact hreply
  · exact hreply

/-- The interior of a token in scope keeps its promise, and its errors are marked. -/
theorem Keeps.interior {inner : Parser α} {promise : Promise α} (h : inner.Keeps setting promise)
    {region : Region} {token : Token} {next : List Token}
    (hscope : setting.scope region (token :: next)) :
    match interior inner region.config token with
    | .ok value => promise.inside region.config token value
    | .failed error => setting.admits error
    | .endless => False := by
  unfold Parser.interior runInside
  cases hinterior : token.interior with
  | none => exact setting.admits_within (setting.admits_expectedAt _ hscope)
  | some region' =>
    obtain ⟨text, origin⟩ := region'
    dsimp only
    cases htokens : tokensOf region.config text origin with
    | error error => exact setting.admits_within (setting.admits_lexical hscope hinterior htokens)
    | ok tokens =>
      have hwhole := h.runWhole (setting.scope_interior hscope hinterior htokens)
      dsimp only
      generalize Parser.runWhole inner _ (splitSymbolRuns tokens) = outcome at hwhole ⊢
      rcases outcome with value | error | _
      · exact ⟨text, origin, tokens, hinterior, htokens, hwhole⟩
      · exact setting.admits_within hwhole
      · exact hwhole

/-- A bracketed token keeps the promise of its interior. -/
theorem Keeps.block {inner : Parser α} {promise : Promise α} (h : inner.Keeps setting promise)
    (kinds : List TokenKind) : (block kinds inner).Keeps setting (Promise.block kinds promise) := by
  constructor
  intro region rest hscope
  have hreply : ((bracketed kinds).run region rest).Keeps setting _ region rest :=
    (keeps_tokenWhere _ _).reply region rest hscope
  unfold Parser.block
  rw [run_bind]
  generalize (bracketed kinds).run region rest = reply at hreply ⊢
  rcases reply with ⟨token | error | _, next⟩
  · obtain ⟨_, rfl, gap, rfl, hgap, htoken, hkind⟩ := hreply
    rw [List.append_assoc, List.singleton_append] at hscope
    have hinterior := h.interior (setting.scope_append hscope)
    dsimp only
    generalize Parser.interior inner region.config token = outcome at hinterior ⊢
    rcases outcome with value | error | _
    · exact ⟨gap ++ [token], rfl, gap, token, rfl, hgap, htoken, hkind, hinterior⟩
    · exact hinterior
    · exact hinterior
  · exact hreply
  · exact hreply

end Parser

end StyleSyntax
