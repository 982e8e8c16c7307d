import StyleSyntax.Proofs.Grammar.BodyDepth
import StyleSyntax.Proofs.Grammar.Checks

/-!
# Variants of the grammar

A variant of the grammar differs from it in what becomes of the checks before semicolons, at-rules,
variables and spreads, and in how declarations and nested rules are tried in the body of a rule, at
all depths of nesting alike. A variant is harmless when wherever such alternatives are tried on the
tokens of a text, they end as those of the grammar do. Then whole item lists are read alike: bodies
of one level more agree when those of one level less do, and the bodies without any level are the
same.
-/

namespace StyleSyntax

open StyleSyntax.Parser StyleSyntax.Grammar

namespace Comparison

/-- The comparison where what is left in the first run satisfies a condition that holds of what is
left later as well. -/
def restrict (c : Comparison) (holds : List Token → Prop)
    (hlater : ∀ used next, holds (used ++ next) → holds next) : Comparison :=
  { c with
    leaves := fun rest rest' => c.leaves rest rest' ∧ holds rest
    behind := by
      rintro rest rest' ⟨hleaves, hholds⟩
      refine (c.behind hleaves).imp_right ?_
      rintro ⟨token, token', next, next', hrest, hrest', hsame, htakes, hnext⟩
      rw [← takeWhile_append_dropTrivia rest, hrest] at hholds
      exact ⟨token, token', next, next', hrest, hrest', hsame, htakes, hnext, hlater _ _ hholds⟩
    here := fun h => c.here h.1
    pass := fun {token} _ _ _ h htoken hbars =>
      ⟨(c.pass h.1 htoken hbars).1, (c.pass h.1 htoken hbars).2, hlater [token] _ h.2⟩ }

/-- A restricted comparison is one of whole lists when the comparison is. -/
theorem IsWhole.restrict {c : Comparison} {dialect : Dialect} (hc : c.IsWhole dialect)
    (holds : List Token → Prop) (hlater : ∀ used next, holds (used ++ next) → holds next) :
    (c.restrict holds hlater).IsWhole dialect where
  finish := fun {rest rest'} h hrest =>
    ⟨(hc.finish h.1 hrest).1, (hc.finish h.1 hrest).2,
      hlater rest [] (by rw [List.append_nil]; exact h.2)⟩
  not_bars := hc.not_bars
  breaks := fun hdialect h => hc.breaks hdialect h.1

/-- Two runs on the same tokens of a text, of no more characters than the bound. -/
def lexed (region : Region) (bound : Nat) : Comparison :=
  (same region bound fun _ => False).restrict (fun rest => ∃ config, IsLexed config rest)
    fun _ _ ⟨config, hlexed⟩ => ⟨config, hlexed.of_append⟩

/-- Runs on the same tokens of a text are runs on whole lists. -/
theorem lexed_isWhole (region : Region) (bound : Nat) (dialect : Dialect) :
    (lexed region bound).IsWhole dialect :=
  (same_isWhole region bound dialect).restrict _ _

end Comparison

/-- Both runs succeed, with the same value and the same tokens left, or both fail, inside brackets
or outside of them alike. -/
inductive Reply.Alike {α : Type} : Reply α → Reply α → Prop
  | ok (value : α) (next : List Token) : Reply.Alike ⟨.ok value, next⟩ ⟨.ok value, next⟩
  | failed {error error' : ParseError} {next next' : List Token}
      (hblock : error'.isBlock = error.isBlock) :
      Reply.Alike ⟨.failed error, next⟩ ⟨.failed error', next'⟩

/-- A success is shared by both runs. -/
theorem Reply.Alike.outcome_eq {α : Type} {reply reply' : Reply α} {value : α}
    (h : reply.Alike reply') (hok : reply.outcome = .ok value) : reply'.outcome = .ok value := by
  cases h with
  | ok => exact hok
  | failed => cases hok

/-- Parsers that agree on the tokens of every text answer alike, unless they run for ever. -/
theorem Reply.Alike.of_agrees {α : Type} {p q : Parser α} {promise : Promise α}
    {config : LexerConfig} {region : Region} {rest : List Token}
    (h : ∀ bound, p.Agrees (.lexed region bound) id q)
    (hp : p.Keeps .any promise) (hlexed : IsLexed config rest) :
    (p.run region rest).Alike (q.run region rest) := by
  have hends := hp.outcome_ne_endless region rest
  have hreply : Reply.Agrees (.lexed region (spelling rest).length) id rest rest
      (p.run region rest) (q.run region rest) := (h _).reply ⟨⟨rfl, Nat.le_refl _⟩, config, hlexed⟩
  generalize p.run region rest = reply at hreply hends ⊢
  generalize q.run region rest = reply' at hreply ⊢
  cases hreply with
  | @ok value value' _ _ _ _ hused hused' htakes _ hvalue =>
    obtain ⟨rfl, -⟩ := htakes
    obtain rfl := List.append_cancel_left (hused.symm.trans hused')
    obtain rfl : value' = value := hvalue
    exact .ok _ _
  | failed hblock => exact .failed hblock
  | endless => exact absurd rfl hends

namespace Grammar

variable {region : Region} {rest : List Token}

/-- The bodies are read alike from the tokens of every text. -/
structure Bodies.Alike (bodies bodies' : Bodies) : Prop where
  block (region : Region) (bound : Nat) (dialect : Dialect) :
    (bodies.blockItems dialect).Agrees (.lexed region bound) id (bodies'.blockItems dialect)
  media (region : Region) (bound : Nat) (dialect : Dialect) :
    (bodies.mediaItems dialect).Agrees (.lexed region bound) id (bodies'.mediaItems dialect)
  page (region : Region) (bound : Nat) (dialect : Dialect) :
    (bodies.pageItems dialect).Agrees (.lexed region bound) id (bodies'.pageItems dialect)

/-- Bodies that are read alike from the tokens of every text are read alike inside brackets. -/
theorem Bodies.Alike.agree {bodies bodies' : Bodies} (h : bodies.Alike bodies')
    (hkeep : bodies.Keep .any) (hkeep' : bodies'.Keep .any) (region : Region) (bound : Nat) :
    bodies.Agree (.lexed region bound) bodies' := by
  have hinside {p q : Parser (List Node)}
      (hpq : ∀ region bound, p.Agrees (.lexed region bound) id q) :
      p.AgreesInside (.lexed region bound) id q := by
    rintro token token' next next' ⟨⟨heq, -⟩, -⟩ -
    obtain ⟨rfl, -⟩ := List.cons.inj heq
    refine agrees_interior fun text origin tokens _ htokens => ?_
    refine (hpq _ (spelling (splitSymbolRuns tokens)).length).runWhole ?_
    exact ⟨⟨rfl, Nat.le_refl _⟩, region.config, text, origin, tokens, htokens, List.infix_rfl⟩
  refine ⟨hkeep, hkeep', ?_,
    fun dialect => hinside fun region bound => h.block region bound dialect,
    fun dialect => hinside fun region bound => h.media region bound dialect,
    fun dialect => hinside fun region bound => h.page region bound dialect⟩
  rintro token token' next next' ⟨⟨heq, -⟩, -⟩ -
  obtain ⟨rfl, -⟩ := List.cons.inj heq
  exact Outcome.agrees_refl _ _

/-- What a variant makes of the checks before alternatives, and of a declaration and a nested rule
in the body of a rule. -/
structure Variant where
  check : (Token → Bool) → Parser Node → Parser Node
  bodyRules : Parser Node → Parser Node → List (Parser Node)

namespace Variant

/-- The grammar itself: alternatives are checked, and declarations are tried before rules. -/
def standard : Variant where
  check := probe
  bodyRules declaration rule := [declaration, rule]

variable (variant : Variant)

/-- The alternatives for a statement of a page. -/
def pageStatements (dialect : Dialect) : List (Parser Node) :=
  [variant.check Token.isSemicolon straySemicolon, declaration dialect]

/-- The alternatives for a statement of a rule or a variable. -/
def blockStatements (bodies : Bodies) : Dialect → List (Parser Node)
  | .css => variant.pageStatements .css
  | .jss =>
    variant.check Token.isSemicolon straySemicolon ::
      variant.check Token.isAt (atRule bodies .jss) ::
      variant.check isVariableStart (variableBlock bodies) ::
      variant.check isSpreadStart spread ::
      probe isScriptKeyword script ::
      variant.bodyRules (declaration .jss) (ruleBlock bodies .jss)

/-- The alternatives for a statement of a media rule. -/
def mediaStatements (bodies : Bodies) (dialect : Dialect) : List (Parser Node) :=
  [variant.check Token.isSemicolon straySemicolon, variant.check Token.isAt (atRule bodies dialect),
    ruleBlock bodies dialect]

/-- The alternatives for a statement of a sheet. -/
def sheetStatements (bodies : Bodies) : Dialect → List (Parser Node)
  | .css => variant.mediaStatements bodies .css
  | .jss =>
    [variant.check Token.isSemicolon straySemicolon, variant.check Token.isAt (atRule bodies .jss),
      variant.check isVariableStart (variableBlock bodies), probe isScriptKeyword script,
      ruleBlock bodies .jss, script]

/-- The parsers of bodies with at most this many levels of blocks inside. -/
def within : Nat → Bodies
  | 0 => ⟨fun _ => unexpected, fun _ => unexpected, fun _ => unexpected⟩
  | depth + 1 =>
    ⟨fun dialect => delay fun _ => items (firstOf (variant.blockStatements (within depth) dialect)),
      fun dialect => delay fun _ =>
        items (firstOf (variant.mediaStatements (within depth) dialect)),
      fun dialect => items (firstOf (variant.pageStatements dialect))⟩

/-- The items of a whole document, with bodies of as many levels as the text has characters. -/
def stylesheet (dialect : Dialect) : Parser (List Node) :=
  { run := fun region rest =>
      let bodies := variant.within (spelling rest).length
      (items (firstOf (variant.sheetStatements bodies dialect))).run region rest }

/-- The bodies of the grammar are those of the standard variant. -/
theorem standard_within (depth : Nat) : standard.within depth = Bodies.within depth := by
  induction depth with
  | zero => rfl
  | succ depth ih =>
    rw [within, Bodies.within, ih]
    congr 1
    funext dialect
    cases dialect <;> rfl

/-- The statements of sheets are those of the standard variant. -/
theorem standard_sheetStatements (bodies : Bodies) (dialect : Dialect) :
    items (firstOf (standard.sheetStatements bodies dialect)) = stylesheetItems bodies dialect := by
  cases dialect <;> rfl

/-- A variant is harmless when its alternatives for checked rules, and for declarations and nested
rules, end as those of the grammar do wherever they are tried on the tokens of a text. -/
structure IsHarmless (variant : Variant) : Prop where
  check_keeps {test : Token → Bool} {p : Parser Node} {promise : Promise Node} :
    p.Keeps .any promise → (variant.check test p).Keeps .any promise
  mem_bodyRules {declaration rule p : Parser Node} :
    p ∈ variant.bodyRules declaration rule → p = declaration ∨ p = rule
  check {region : Region} {bound : Nat} {rest rest' : List Token} {test : Token → Bool}
    {p q : Parser Node} {alternatives others : List (Parser Node)} :
    p.Agrees (.lexed region bound) View.full.node q → SeesNoPosition test → q.GuardedBy test →
    (Comparison.lexed region bound).leaves rest rest' →
    TriedAlike (.lexed region bound) View.full.node rest rest' alternatives others →
    TriedAlike (.lexed region bound) View.full.node rest rest' (probe test p :: alternatives)
      (variant.check test q :: others)
  bodyRules {region : Region} {bound : Nat} {rest rest' : List Token} {bodies bodies' : Bodies} :
    bodies.Agree (.lexed region bound) bodies' → (Comparison.lexed region bound).leaves rest rest' →
    TriedAlike (.lexed region bound) View.full.node rest rest'
      [declaration .jss, ruleBlock bodies .jss]
      (variant.bodyRules (declaration .jss) (ruleBlock bodies' .jss))

namespace IsHarmless

variable {variant : Variant} {bodies : Bodies} (h : variant.IsHarmless)

include h

/-! ## Promises -/

section Promises

/-- The statements of pages keep their promise. -/
theorem keeps_pageStatements (dialect : Dialect) {place : Place} (hplace : place.HasDeclarations) :
    ∀ p ∈ variant.pageStatements dialect,
      p.Keeps .any (Promise.statement dialect place) := by
  simp only [pageStatements, List.forall_mem_cons]
  exact ⟨h.check_keeps (keeps_straySemicolon dialect place), keeps_declaration dialect hplace,
    by simp⟩

variable (hbodies : bodies.Keep .any)

include hbodies

/-- The statements of rules keep their promise. -/
theorem keeps_blockStatements (dialect : Dialect) :
    ∀ p ∈ variant.blockStatements bodies dialect,
      p.Keeps .any (Promise.statement dialect .block) := by
  cases dialect with
  | css => exact h.keeps_pageStatements .css (.inl rfl)
  | jss =>
    have hrules : Place.block.HasRules .jss := rfl
    have hscript : Place.block.HasScript .jss := ⟨rfl, .inr rfl⟩
    simp only [blockStatements, List.forall_mem_cons]
    refine ⟨h.check_keeps (keeps_straySemicolon .jss .block),
      h.check_keeps (keeps_atRule hbodies hrules),
      h.check_keeps (keeps_variableBlock hbodies hscript), h.check_keeps keeps_spread,
      (keeps_script hscript).probe _, fun p hp => ?_⟩
    rcases h.mem_bodyRules hp with rfl | rfl
    · exact keeps_declaration .jss (.inl rfl)
    · exact keeps_ruleBlock hbodies hrules

/-- The statements of media rules keep their promise. -/
theorem keeps_mediaStatements (dialect : Dialect) :
    ∀ p ∈ variant.mediaStatements bodies dialect,
      p.Keeps .any (Promise.statement dialect .media) := by
  have hrules : Place.media.HasRules dialect := trivial
  simp only [mediaStatements, List.forall_mem_cons]
  exact ⟨h.check_keeps (keeps_straySemicolon dialect .media),
    h.check_keeps (keeps_atRule hbodies hrules), keeps_ruleBlock hbodies hrules, by simp⟩

omit hbodies in
/-- The bodies of every depth keep their promises. -/
theorem within_keep (depth : Nat) : (variant.within depth).Keep .any := by
  induction depth with
  | zero => exact ⟨fun _ => keeps_unexpected, fun _ => keeps_unexpected, fun _ => keeps_unexpected⟩
  | succ depth ih =>
    exact ⟨fun dialect => (keeps_items (keeps_firstOf (h.keeps_blockStatements ih dialect))).delay,
      fun dialect => (keeps_items (keeps_firstOf (h.keeps_mediaStatements ih dialect))).delay,
      fun dialect => keeps_items (keeps_firstOf (h.keeps_pageStatements dialect (.inr rfl)))⟩

end Promises

/-! ## Agreement -/

variable {region : Region} {bound : Nat} {rest rest' : List Token} {bodies' : Bodies}
  {dialect : Dialect}

/-- The statements of pages end alike. -/
theorem pageStatements (hleaves : (Comparison.lexed region bound).leaves rest rest') :
    TriedAlike (.lexed region bound) View.full.node rest rest' (standard.pageStatements dialect)
      (variant.pageStatements dialect) := by
  have hc := Comparison.lexed_isWhole region bound dialect
  exact h.check (agrees_straySemicolon hc) (fun _ _ _ _ => rfl) straySemicolon_guardedBy hleaves
    (.cons ((agrees_declaration hc).reply hleaves) rfl triedAlike_nil)

variable (hbodies : bodies.Agree (.lexed region bound) bodies')

include hbodies

/-- The statements of rules end alike. -/
theorem blockStatements (hleaves : (Comparison.lexed region bound).leaves rest rest') :
    TriedAlike (.lexed region bound) View.full.node rest rest'
      (standard.blockStatements bodies dialect) (variant.blockStatements bodies' dialect) := by
  cases dialect with
  | css => exact h.pageStatements hleaves
  | jss =>
    have hc := Comparison.lexed_isWhole region bound .jss
    refine h.check (agrees_straySemicolon hc) (fun _ _ _ _ => rfl) straySemicolon_guardedBy hleaves
      (h.check (agrees_atRule hc hbodies) (fun _ _ _ _ => rfl) (atRule_guardedBy _ _) hleaves
      (h.check (agrees_variableBlock hc hbodies) (fun _ _ _ _ => rfl) (variableBlock_guardedBy _)
        hleaves
      (h.check (agrees_spread hc) (fun _ _ _ _ => rfl) spread_guardedBy hleaves
      (.cons ((agrees_script hc).reply hleaves) ?_ (h.bodyRules hbodies hleaves)))))
    exact ((agrees_script hc).probe fun _ _ _ _ => rfl).accepts hleaves

/-- The statements of media rules end alike. -/
theorem mediaStatements (hleaves : (Comparison.lexed region bound).leaves rest rest') :
    TriedAlike (.lexed region bound) View.full.node rest rest'
      (standard.mediaStatements bodies dialect) (variant.mediaStatements bodies' dialect) := by
  have hc := Comparison.lexed_isWhole region bound dialect
  exact h.check (agrees_straySemicolon hc) (fun _ _ _ _ => rfl) straySemicolon_guardedBy hleaves
    (h.check (agrees_atRule hc hbodies) (fun _ _ _ _ => rfl) (atRule_guardedBy _ _) hleaves
    (.cons ((agrees_ruleBlock hc hbodies).reply hleaves) rfl triedAlike_nil))

/-- The statements of sheets end alike. -/
theorem sheetStatements (hleaves : (Comparison.lexed region bound).leaves rest rest') :
    TriedAlike (.lexed region bound) View.full.node rest rest'
      (standard.sheetStatements bodies dialect) (variant.sheetStatements bodies' dialect) := by
  cases dialect with
  | css => exact h.mediaStatements hbodies hleaves
  | jss =>
    have hc := Comparison.lexed_isWhole region bound .jss
    refine h.check (agrees_straySemicolon hc) (fun _ _ _ _ => rfl) straySemicolon_guardedBy hleaves
      (h.check (agrees_atRule hc hbodies) (fun _ _ _ _ => rfl) (atRule_guardedBy _ _) hleaves
      (h.check (agrees_variableBlock hc hbodies) (fun _ _ _ _ => rfl) (variableBlock_guardedBy _)
        hleaves
      (.cons ((agrees_script hc).reply hleaves) ?_
      (.cons ((agrees_ruleBlock hc hbodies).reply hleaves) rfl
      (.cons ((agrees_script hc).reply hleaves) rfl triedAlike_nil)))))
    exact ((agrees_script hc).probe fun _ _ _ _ => rfl).accepts hleaves

omit h hbodies in
/-- Item lists are read alike when the alternatives for their statements end alike. -/
theorem agrees_items_of_triedAlike {alternatives others : List (Parser Node)}
    (htried : ∀ {rest rest'}, (Comparison.lexed region bound).leaves rest rest' →
      TriedAlike (.lexed region bound) View.full.node rest rest' alternatives others) :
    (items (firstOf alternatives)).Agrees (.lexed region bound) id (items (firstOf others)) := by
  have hc := Comparison.lexed_isWhole region bound .jss
  refine ((agrees_item hc (agrees_firstOf_of_triedAlike htried)).all hc.toIsEven).mono ?_
  intro nodes nodes' hnodes
  exact (View.map_full_node ▸ hnodes :)

omit hbodies in
/-- Bodies of every depth are read alike from the tokens of a text. -/
theorem within_alike (depth : Nat) : (Bodies.within depth).Alike (variant.within depth) := by
  induction depth with
  | zero =>
    have hfails (region : Region) (bound : Nat) : (unexpected : Parser (List Node)).Agrees
        (.lexed region bound) id unexpected := agrees_fail isBlock_unexpected isBlock_unexpected
    exact ⟨fun region bound _ => hfails region bound, fun region bound _ => hfails region bound,
      fun region bound _ => hfails region bound⟩
  | succ depth ih =>
    have hagree := ih.agree (Bodies.within_keep depth) (h.within_keep depth)
    rw [← standard_within] at hagree ⊢
    exact ⟨fun region bound _ =>
        (agrees_items_of_triedAlike (h.blockStatements (hagree region bound))).delay,
      fun region bound _ =>
        (agrees_items_of_triedAlike (h.mediaStatements (hagree region bound))).delay,
      fun _ _ _ => agrees_items_of_triedAlike h.pageStatements⟩

omit hbodies in
/-- Sheets, and bodies of every depth, are read alike from the tokens of a text. -/
theorem alike {config : LexerConfig} (hlexed : IsLexed config rest) (region : Region)
    (dialect : Dialect) :
    ((Grammar.stylesheet dialect).run region rest).Alike
        ((variant.stylesheet dialect).run region rest) ∧
      ∀ depth,
        (((Bodies.within depth).blockItems dialect).run region rest).Alike
          (((variant.within depth).blockItems dialect).run region rest) ∧
        (((Bodies.within depth).mediaItems dialect).run region rest).Alike
          (((variant.within depth).mediaItems dialect).run region rest) ∧
        (((Bodies.within depth).pageItems dialect).run region rest).Alike
          (((variant.within depth).pageItems dialect).run region rest) := by
  have hkeep (depth : Nat) : (Bodies.within depth).Keep .any := Bodies.within_keep depth
  refine ⟨?_, fun depth => ?_⟩
  · have hagree (bound : Nat) := (h.within_alike (spelling rest).length).agree (hkeep _)
      (h.within_keep _) region bound
    have hitems (bound : Nat) :
        (stylesheetItems (.within (spelling rest).length) dialect).Agrees (.lexed region bound) id
          (items (firstOf
            (variant.sheetStatements (variant.within (spelling rest).length) dialect))) := by
      rw [← standard_sheetStatements]
      exact agrees_items_of_triedAlike (h.sheetStatements (hagree bound))
    have hsheet := Reply.Alike.of_agrees hitems (keeps_stylesheetItems (hkeep _) dialect) hlexed
    exact hsheet
  · have halike := h.within_alike depth
    exact ⟨.of_agrees (halike.block region · dialect) ((hkeep depth).block dialect) hlexed,
      .of_agrees (halike.media region · dialect) ((hkeep depth).media dialect) hlexed,
      .of_agrees (halike.page region · dialect) ((hkeep depth).page dialect) hlexed⟩

end IsHarmless

end Variant

end Grammar

end StyleSyntax
