import StyleSyntax.Proofs.Grammar.ComparedStatements
import StyleSyntax.Proofs.Grammar.SameTokens
import StyleSyntax.Proofs.Lexer.Lossless
import StyleSyntax.Proofs.Token.Placement

/-!
# Bodies of enough levels

Bodies are read by a grammar of as many levels as the text has characters. More levels change
nothing: each pair of brackets takes two characters of the text around it, so a body of at most as
many characters as there are levels is read alike by all such grammars. The two runs that are
compared are on the same tokens, with parsers of different depth for the bodies.
-/

namespace StyleSyntax

open StyleSyntax.Parser StyleSyntax.Grammar

variable {α β : Type}

/-- An outcome agrees with itself. -/
theorem Outcome.agrees_refl (f : α → β) (outcome : Outcome ParseError α) :
    Outcome.Agrees f outcome outcome := by
  cases outcome with
  | ok value => exact .ok rfl
  | failed error => exact .failed rfl
  | endless => exact .endless

/-- Less may be seen of the values of outcomes. -/
theorem Outcome.Agrees.mono {γ : Type} {f : α → β} {g : α → γ} {first second : Outcome ParseError α}
    (h : Outcome.Agrees f first second)
    (hg : ∀ value value', f value' = f value → g value' = g value) :
    Outcome.Agrees g first second := by
  cases h with
  | ok hvalue => exact .ok (hg _ _ hvalue)
  | failed hblock => exact .failed hblock
  | endless => exact .endless

/-- Outcomes that agree with one agree with each other. -/
theorem Outcome.Agrees.trans {f : α → β} {first second third : Outcome ParseError α}
    (h : Outcome.Agrees f first second) (h' : Outcome.Agrees f second third) :
    Outcome.Agrees f first third := by
  cases h with
  | ok hvalue =>
    cases h' with
    | ok hvalue' => exact .ok (hvalue'.trans hvalue)
  | failed hblock =>
    cases h' with
    | failed hblock' => exact .failed (hblock'.trans hblock)
  | endless => exact h'

namespace Parser

variable {p q : Parser α} {f : α → β}

/-- Whole lists are read alike where the parsers agree. -/
theorem Agrees.runWhole {c : Comparison} (h : p.Agrees c f q) {rest rest' : List Token}
    (hleaves : c.leaves rest rest') :
    Outcome.Agrees f (runWhole p c.left rest) (runWhole q c.right rest') := by
  have hreply := h.reply hleaves
  unfold Parser.runWhole
  generalize p.run c.left rest = reply at hreply ⊢
  generalize q.run c.right rest' = reply' at hreply ⊢
  cases hreply with
  | @ok _ _ _ _ next next' hrest hrest' htakes hnext hvalue =>
    have hleft : (firstSignificant next').any (fun _ => true) =
        (firstSignificant next).any fun _ => true :=
      Comparison.test_firstSignificant hnext fun _ _ _ _ => rfl
    dsimp only
    cases hfirst : firstSignificant next with
    | none =>
      cases hfirst' : firstSignificant next' with
      | none => exact .ok hvalue
      | some token => rw [hfirst, hfirst'] at hleft; cases hleft
    | some token =>
      cases hfirst' : firstSignificant next' with
      | none => rw [hfirst, hfirst'] at hleft; cases hleft
      | some token' => exact .failed rfl
  | failed hblock => exact .failed hblock
  | endless => exact .endless

/-- Two parsers give outcomes that agree on the interior of a token when they do on its tokens. -/
theorem agrees_interior {config : LexerConfig} {token : Token}
    (h : ∀ text origin tokens, token.interior = some (text, origin) →
      tokensOf config text origin = .ok tokens →
      Outcome.Agrees f
        (runWhole p (.ofTokens config (splitSymbolRuns tokens) origin) (splitSymbolRuns tokens))
        (runWhole q (.ofTokens config (splitSymbolRuns tokens) origin) (splitSymbolRuns tokens))) :
    Outcome.Agrees f (interior p config token) (interior q config token) := by
  unfold interior runInside
  cases hinterior : token.interior with
  | none => exact .failed rfl
  | some inside =>
    obtain ⟨text, origin⟩ := inside
    dsimp only
    cases htokens : tokensOf config text origin with
    | error error => exact .failed rfl
    | ok tokens =>
      have houtcome := h text origin tokens hinterior htokens
      dsimp only
      generalize Parser.runWhole p _ (splitSymbolRuns tokens) = outcome at houtcome ⊢
      generalize Parser.runWhole q _ (splitSymbolRuns tokens) = outcome' at houtcome ⊢
      cases houtcome with
      | ok hvalue => exact .ok hvalue
      | failed hblock =>
        exact .failed (by rw [ParseError.isBlock_within, ParseError.isBlock_within, hblock])
      | endless => exact .endless

end Parser

/-- The bodies are read alike inside tokens of no more characters than the bound. -/
structure Grammar.Bodies.SameWithin (bound : Nat) (bodies bodies' : Bodies) : Prop where
  keeps : bodies.Keep .any
  keeps' : bodies'.Keep .any
  block (dialect : Dialect) (config : LexerConfig) {token : Token} : token.value.length ≤ bound →
    Outcome.Agrees id (interior (bodies.blockItems dialect) config token)
      (interior (bodies'.blockItems dialect) config token)
  media (dialect : Dialect) (config : LexerConfig) {token : Token} : token.value.length ≤ bound →
    Outcome.Agrees id (interior (bodies.mediaItems dialect) config token)
      (interior (bodies'.mediaItems dialect) config token)
  page (dialect : Dialect) (config : LexerConfig) {token : Token} : token.value.length ≤ bound →
    Outcome.Agrees id (interior (bodies.pageItems dialect) config token)
      (interior (bodies'.pageItems dialect) config token)

namespace Grammar.Bodies

/-- Bodies that are read alike agree in runs on the same tokens. -/
theorem SameWithin.agree {bound : Nat} {bodies bodies' : Bodies}
    (h : SameWithin bound bodies bodies') (region : Region) :
    bodies.Agree (Comparison.same region bound fun _ => False) bodies' := by
  have hinside {γ : Type} {f : List Node → γ} {p q : Parser (List Node)}
      (hinterior : ∀ token : Token, token.value.length ≤ bound →
        Outcome.Agrees f (interior p region.config token) (interior q region.config token)) :
      p.AgreesInside (Comparison.same region bound fun _ => False) f q := by
    rintro token _ next _ ⟨heq, hbound⟩ -
    obtain ⟨rfl, -⟩ := List.cons.inj heq
    rw [spelling_cons, List.length_append] at hbound
    exact hinterior _ (by omega)
  refine ⟨h.keeps, h.keeps', ?_, fun dialect => hinside fun _ => h.block dialect region.config,
    fun dialect => hinside fun _ => h.media dialect region.config,
    fun dialect => hinside fun _ => h.page dialect region.config⟩
  rintro token _ next _ ⟨heq, -⟩ -
  obtain ⟨rfl, -⟩ := List.cons.inj heq
  exact Outcome.agrees_refl _ _

/-- Bodies of enough levels are read alike. -/
theorem within_sameWithin {bound depth depth' : Nat} (h : bound ≤ depth) (h' : bound ≤ depth') :
    SameWithin bound (within depth) (within depth') := by
  induction bound using Nat.strong_induction_on generalizing depth depth' with
  | _ bound ih =>
    -- Inside a token there are two characters less, and one level has been used up.
    have hinside {p q : Nat → Parser (List Node)} {token : Token} {config : LexerConfig}
        (htoken : token.value.length ≤ bound)
        (hagrees : ∀ {inner d d' : Nat} (region : Region), depth = d + 1 → depth' = d' + 1 →
          SameWithin inner (within d) (within d') →
          (p depth).Agrees (Comparison.same region inner fun _ => False) id (q depth')) :
        Outcome.Agrees id (interior (p depth) config token) (interior (q depth') config token) := by
      refine agrees_interior fun text origin tokens hinterior htokens => ?_
      have hlength := length_spelling_of_interior hinterior htokens
      obtain ⟨d, rfl⟩ := Nat.exists_eq_add_one.mpr (by omega : 0 < depth)
      obtain ⟨d', rfl⟩ := Nat.exists_eq_add_one.mpr (by omega : 0 < depth')
      have hsame : SameWithin (spelling (splitSymbolRuns tokens)).length (within d) (within d') :=
        ih _ (by omega) (by omega) (by omega)
      have hitems := hagrees (.ofTokens config (splitSymbolRuns tokens) origin) rfl rfl hsame
      exact hitems.runWhole ⟨rfl, Nat.le_refl _⟩
    have hall {nodes nodes' : List Node}
        (hnodes : nodes'.map View.full.node = nodes.map View.full.node) : nodes' = nodes :=
      (View.map_full_node ▸ hnodes :)
    refine ⟨within_keep depth, within_keep depth', fun dialect config {token} htoken => ?_,
      fun dialect config {token} htoken => ?_, fun dialect config {token} htoken => ?_⟩
    · refine hinside (p := fun d => (within d).blockItems dialect)
        (q := fun d => (within d).blockItems dialect) htoken ?_
      rintro inner d d' region rfl rfl hsame
      exact ((agrees_blockItems (Comparison.same_isWhole region inner dialect)
        (hsame.agree region)).mono fun _ _ => hall).delay
    · refine hinside (p := fun d => (within d).mediaItems dialect)
        (q := fun d => (within d).mediaItems dialect) htoken ?_
      rintro inner d d' region rfl rfl hsame
      exact ((agrees_mediaItems (Comparison.same_isWhole region inner dialect)
        (hsame.agree region)).mono fun _ _ => hall).delay
    · refine hinside (p := fun d => (within d).pageItems dialect)
        (q := fun d => (within d).pageItems dialect) htoken ?_
      rintro inner d d' region rfl rfl -
      exact (agrees_declarationItems (Comparison.same_isWhole region inner dialect)).mono
        fun _ _ => hall

end Grammar.Bodies

end StyleSyntax
