import StyleSyntax.Proofs.Lexer.Lexemes
import StyleSyntax.Proofs.Parser.Bracketed
import StyleSyntax.Proofs.Parser.Success

/-!
# Parsers that read a given text

A parser reads a text in front of another one when it consumes exactly the tokens of the first text
and leaves those of the second. What it reads is put together as the parser is: a sequence reads the
texts of its parts one after another, a choice the text of its first alternative that does not
decline, a repetition the texts of its elements.
-/

namespace StyleSyntax

variable {tokens : List Token}

namespace Lexes

variable {text next : Text} {used later : List Token}

/-- The tokens in front of those of a text spell what stands in front of it. -/
theorem spelling_left (h : Lexes (text ++ next) (used ++ later)) (hlater : Lexes next later) :
    spelling used = text := by
  have hwhole := h.spelling_eq
  rw [spelling_append, hlater.spelling_eq] at hwhole
  exact List.append_cancel_right hwhole

/-- There are tokens in front of those of a text when something stands in front of it. -/
theorem ne_nil_left (h : Lexes (text ++ next) (used ++ later)) (hlater : Lexes next later)
    (htext : text ≠ []) : used ≠ [] := by
  rintro rfl
  exact htext (h.spelling_left hlater).symm

end Lexes

/-- The text begins with a character of the class. -/
def BeginsWith (isMember : Char → Prop) (text : Text) : Prop :=
  ∃ c ∈ text.head?, isMember c

namespace BeginsWith

variable {isMember isOther : Char → Prop} {text : Text}

/-- A text begins with its first character. -/
theorem cons {c : Char} (hc : isMember c) (rest : Text) : BeginsWith isMember (c :: rest) :=
  ⟨c, rfl, hc⟩

/-- What begins with a member of a class begins with one of a larger class. -/
theorem mono (h : BeginsWith isMember text) (hother : ∀ c, isMember c → isOther c) :
    BeginsWith isOther text := by
  obtain ⟨c, hc, hmember⟩ := h
  exact ⟨c, hc, hother c hmember⟩

/-- A text begins as its first part does. -/
theorem append (h : BeginsWith isMember text) (next : Text) :
    BeginsWith isMember (text ++ next) := by
  obtain ⟨c, hc, hmember⟩ := h
  exact ⟨c, by rw [List.head?_append, hc]; rfl, hmember⟩

/-- The first character and what follows it. -/
theorem exists_cons (h : BeginsWith isMember text) : ∃ c rest, text = c :: rest ∧ isMember c := by
  obtain ⟨c, hc, hmember⟩ := h
  obtain ⟨rest, hrest⟩ := List.head?_eq_some_iff.mp hc
  exact ⟨c, rest, hrest, hmember⟩

end BeginsWith

/-- In front of any text, this text changes the leading trivia of the tokens alone. -/
def IsGapText (gap : Text) : Prop :=
  ∀ ⦃next : Text⦄ ⦃tokens : List Token⦄, Lexes (gap ++ next) tokens →
    ∃ later, Lexes next later ∧ dropTrivia tokens = dropTrivia later

namespace IsGapText

variable {gap text : Text}

/-- Nothing is a gap. -/
theorem nil : IsGapText [] :=
  fun _ tokens h => ⟨tokens, h, rfl⟩

/-- A space is a gap. -/
theorem space : IsGapText [' '] :=
  fun _ _ h => Lexes.exists_of_space h (by decide)

/-- Nothing but trivia are the tokens of a gap. -/
theorem allTrivia (hgap : IsGapText gap) (h : Lexes gap tokens) : AllTrivia tokens := by
  rw [← List.append_nil gap] at h
  obtain ⟨later, hlater, hdrop⟩ := hgap h
  rw [Lexes.nil_iff.mp hlater] at hdrop
  exact fun token htoken => List.dropWhile_eq_nil_iff.mp hdrop token htoken

/-- Behind a gap the tokens of a text begin with a significant token whose kind and text fit the
first character. -/
theorem exists_significant (hgap : IsGapText gap) (htext : BeginsWith (isSolid ·) text)
    (h : Lexes (gap ++ text) tokens) :
    ∃ front token later, tokens = front ++ token :: later ∧ AllTrivia front ∧
      dropTrivia tokens = token :: later ∧ Lexes text (token :: later) ∧
      ∀ c ∈ text.head?, token.value.head? = some c ∧ token.kind.begins c := by
  obtain ⟨c, rest, rfl, hsolid⟩ := htext.exists_cons
  obtain ⟨later, hlater, hdrop⟩ := hgap h
  obtain ⟨token, more, rfl, hsignificant, hvalue, hbegins⟩ := hlater.exists_significant hsolid
  rw [dropTrivia_cons hsignificant] at hdrop
  obtain ⟨front, htokens, hfront⟩ := exists_gap tokens
  rw [hdrop] at htokens
  refine ⟨front, token, more, htokens, hfront, hdrop, hlater, ?_⟩
  rintro d ⟨rfl⟩
  exact ⟨hvalue, hbegins⟩

/-- The trimmed source of the tokens of a text is the text without the gap before it. -/
theorem trimmedSpelling_eq {next : Text} {used later : List Token} (hgap : IsGapText gap)
    (htext : BeginsWith (isSolid ·) text) (h : Lexes (gap ++ text ++ next) (used ++ later))
    (hlater : Lexes next later) : trimmedSpelling used = text := by
  have hne : text ≠ [] := by
    obtain ⟨c, rest, rfl, _⟩ := htext.exists_cons
    exact List.cons_ne_nil c rest
  rw [List.append_assoc] at h
  obtain ⟨front, token, more, htokens, hfront, hdrop, hmore, _⟩ := hgap.exists_significant
    (htext.append next) h
  have hsignificant := isSignificant_of_dropTrivia_eq_cons hdrop
  have hspelling := hmore.spelling_eq
  rcases List.append_eq_append_iff.mp htokens with
    ⟨between, rfl, rfl⟩ | ⟨between, rfl, hbetween⟩
  · have hlonger := hlater.spelling_eq
    rw [spelling_append, hspelling] at hlonger
    have hlength := congrArg List.length hlonger
    have hpos := List.length_pos_of_ne_nil hne
    simp only [List.length_append] at hlength
    omega
  · rw [hbetween, spelling_append, hlater.spelling_eq] at hspelling
    have htext := List.append_cancel_right hspelling
    cases between with
    | nil => exact absurd htext.symm hne
    | cons first between =>
      obtain ⟨rfl, -⟩ := List.cons.inj hbetween
      rw [trimmedSpelling, dropTrivia_gap hfront hsignificant, htext]

end IsGapText

namespace Parser

variable {α β σ : Type} {p : Parser α} {gap text next a b : Text}

/-- In front of `next` the parser reads exactly `text`, and its value is as described. -/
def Reads (p : Parser α) (text next : Text) (holds : α → Prop) : Prop :=
  ∀ ⦃region : Region⦄ ⦃tokens : List Token⦄, region.config = {} → Lexes (text ++ next) tokens →
    ∃ value used later, tokens = used ++ later ∧ Lexes next later ∧
      p.run region tokens = ⟨.ok value, later⟩ ∧ holds value

/-- The parser refuses the tokens of the text. -/
def RefusesText (p : Parser α) (text : Text) : Prop :=
  ∀ ⦃region : Region⦄ ⦃tokens : List Token⦄, region.config = {} → Lexes text tokens →
    p.Refuses region tokens

/-- The parser declines the tokens of the text. -/
def DeclinesText (p : Parser α) (text : Text) : Prop :=
  ∀ ⦃region : Region⦄ ⦃tokens : List Token⦄, region.config = {} → Lexes text tokens →
    p.Declines region tokens

namespace RefusesText

/-- What is refused is declined. -/
theorem declines (h : p.RefusesText text) : p.DeclinesText text :=
  fun _ _ hregion htokens _ => h hregion htokens

/-- A sequence refuses what its first parser refuses. -/
theorem bind (h : p.RefusesText text) (following : α → Parser β) :
    (p >>= following).RefusesText text :=
  fun _ _ hregion htokens => (h hregion htokens).bind following

/-- A sequence refuses what a later parser refuses behind the text that is read before it. -/
theorem bind_of_reads {following : α → Parser β} {first : α → Prop} (hp : p.Reads a b first)
    (h : ∀ value, first value → (following value).RefusesText b) :
    (p >>= following).RefusesText (a ++ b) := by
  intro region tokens hregion htokens
  obtain ⟨value, used, later, rfl, hlater, hrun, hvalue⟩ := hp hregion htokens
  exact Refuses.bind_of_run hrun (h value hvalue hregion hlater)

/-- A changed value changes no refusal. -/
theorem map (h : p.RefusesText text) (f : α → β) : (p.map f).RefusesText text :=
  fun _ _ hregion htokens => (h hregion htokens).map f

/-- Going back on failure changes no refusal. -/
theorem attempt (h : p.RefusesText text) : (attempt p).RefusesText text :=
  fun _ _ hregion htokens => (h hregion htokens).attempt

/-- Capturing the source changes no refusal. -/
theorem capture (h : p.RefusesText text) : (capture p).RefusesText text :=
  fun _ _ hregion htokens => (h hregion htokens).capture

/-- Taking the source changes no refusal. -/
theorem rawValue (h : p.RefusesText text) : (rawValue p).RefusesText text := by
  intro region tokens hregion htokens
  obtain ⟨error, next, hrun, hblock⟩ := h hregion htokens
  refine ⟨error, tokens, ?_, hblock⟩
  unfold Parser.rawValue
  dsimp only
  rw [hrun]

/-- A choice refuses what all its alternatives decline. -/
theorem firstOf {alternatives : List (Parser α)}
    (h : ∀ p ∈ alternatives, p.DeclinesText text) : (firstOf alternatives).RefusesText text :=
  fun _ _ hregion htokens => refuses_firstOf fun p hp => h p hp hregion htokens

end RefusesText

namespace Reads

/-- A description of the value may be weakened. -/
theorem mono {holds weaker : α → Prop} (h : p.Reads text next holds)
    (hweaker : ∀ value, holds value → weaker value) : p.Reads text next weaker := by
  intro region tokens hregion htokens
  obtain ⟨value, used, later, hused, hlater, hrun, hvalue⟩ := h hregion htokens
  exact ⟨value, used, later, hused, hlater, hrun, hweaker value hvalue⟩

/-- A value where it stands reads nothing. -/
theorem pure {holds : α → Prop} {value : α} (h : holds value) :
    (pure value : Parser α).Reads [] next holds :=
  fun _ tokens _ htokens => ⟨value, [], tokens, rfl, htokens, rfl, h⟩

/-- A sequence reads what its parts read, one after another. -/
theorem bind {following : α → Parser β} {first : α → Prop} {holds : β → Prop}
    (hp : p.Reads a (b ++ next) first)
    (hfollowing : ∀ value, first value → (following value).Reads b next holds) :
    (p >>= following).Reads (a ++ b) next holds := by
  intro region tokens hregion htokens
  rw [List.append_assoc] at htokens
  obtain ⟨value, used, middle, rfl, hmiddle, hrun, hvalue⟩ := hp hregion htokens
  obtain ⟨result, used', later, rfl, hlater, hrun', hresult⟩ :=
    hfollowing value hvalue hregion hmiddle
  exact ⟨result, used ++ used', later, (List.append_assoc _ _ _).symm, hlater,
    bind_run_eq_ok.mpr ⟨value, _, hrun, hrun'⟩, hresult⟩

/-- A part that reads nothing stands in front of a sequence. -/
theorem bind_nothing {following : α → Parser β} {first : α → Prop} {holds : β → Prop}
    (hp : p.Reads [] (text ++ next) first)
    (hfollowing : ∀ value, first value → (following value).Reads text next holds) :
    (p >>= following).Reads text next holds :=
  hp.bind hfollowing

/-- A part that reads nothing stands at the end of a sequence. -/
theorem bind_last {following : α → Parser β} {first : α → Prop} {holds : β → Prop}
    (hp : p.Reads text next first)
    (hfollowing : ∀ value, first value → (following value).Reads [] next holds) :
    (p >>= following).Reads text next holds := by
  have h := Reads.bind (b := []) hp hfollowing
  rwa [List.append_nil] at h

/-- A value made of what is read. -/
theorem bind_pure {f : α → β} {first : α → Prop} {holds : β → Prop} (hp : p.Reads text next first)
    (hf : ∀ value, first value → holds (f value)) :
    (p >>= fun value => Pure.pure (f value)).Reads text next holds :=
  hp.bind_last fun value hvalue => pure (hf value hvalue)

/-- A changed value. -/
theorem map {f : α → β} {holds : β → Prop} (h : p.Reads text next fun value => holds (f value)) :
    (p.map f).Reads text next holds := by
  intro region tokens hregion htokens
  obtain ⟨value, used, later, hused, hlater, hrun, hvalue⟩ := h hregion htokens
  exact ⟨f value, used, later, hused, hlater, map_run_eq_ok.mpr ⟨value, hrun, rfl⟩, hvalue⟩

/-- Going back on failure changes nothing. -/
theorem attempt {holds : α → Prop} (h : p.Reads text next holds) :
    (attempt p).Reads text next holds := by
  intro region tokens hregion htokens
  obtain ⟨value, used, later, hused, hlater, hrun, hvalue⟩ := h hregion htokens
  exact ⟨value, used, later, hused, hlater, attempt_run_eq_ok.mpr hrun, hvalue⟩

/-- A parser that is built when it runs. -/
theorem delay {holds : α → Prop} (h : p.Reads text next holds) :
    (delay fun _ => p).Reads text next holds :=
  h

/-- The mark of a step changes nothing. -/
theorem step {holds : α → Prop} (h : p.Reads text next holds) (index : Nat) :
    (step index p).Reads text next holds := by
  intro region tokens hregion htokens
  obtain ⟨value, used, later, hused, hlater, hrun, hvalue⟩ := h hregion htokens
  exact ⟨value, used, later, hused, hlater, step_run_eq_ok.mpr hrun, hvalue⟩

/-- The captured source is what is read without the gap before it. -/
theorem capture {holds : α → Prop} (hgap : IsGapText gap) (htext : BeginsWith (isSolid ·) text)
    (h : p.Reads (gap ++ text) next holds) :
    (capture p).Reads (gap ++ text) next fun captured =>
      holds captured.1 ∧ captured.2.text = text := by
  intro region tokens hregion htokens
  obtain ⟨value, used, later, rfl, hlater, hrun, hvalue⟩ := h hregion htokens
  refine ⟨(value, excerptOf (consumed (used ++ later) later)
    (significantPosition (used ++ later) region.finish)), used, later, rfl, hlater,
    capture_run_eq_ok.mpr ⟨hrun, rfl⟩, hvalue, ?_⟩
  rw [consumed_append]
  exact hgap.trimmedSpelling_eq htext htokens hlater

/-- The source as written is what is read. -/
theorem rawValue {holds : α → Prop} (h : p.Reads text next holds) :
    (rawValue p).Reads text next (· = text) := by
  intro region tokens hregion htokens
  obtain ⟨value, used, later, rfl, hlater, hrun, hvalue⟩ := h hregion htokens
  refine ⟨spelling used, used, later, rfl, hlater, rawValue_run_eq_ok.mpr ⟨value, hrun, ?_⟩,
    htokens.spelling_left hlater⟩
  rw [consumed_append]

/-- A part that is found. -/
theorem optional {holds : α → Prop} (haccepts : ∀ next, p.accepts next)
    (h : p.Reads text next holds) :
    p.optional.Reads text next fun found => ∃ value, found = some value ∧ holds value := by
  intro region tokens hregion htokens
  obtain ⟨value, used, later, hused, hlater, hrun, hvalue⟩ := h hregion htokens
  exact ⟨some value, used, later, hused, hlater,
    optional_run_eq_ok.mpr (.inl ⟨value, rfl, haccepts _, hrun⟩), value, rfl, hvalue⟩

/-- A part that is left out. -/
theorem optional_of_refuses (h : p.RefusesText next) :
    p.optional.Reads [] next (· = none) :=
  fun _ tokens hregion htokens =>
    ⟨none, [], tokens, rfl, htokens, optional_run_of_refuses (h hregion htokens), rfl⟩

/-- A choice reads what its first alternative reads. -/
theorem firstOf {holds : α → Prop} (haccepts : ∀ next, p.accepts next)
    (h : p.Reads text next holds) (others : List (Parser α)) :
    (firstOf (p :: others)).Reads text next holds := by
  intro region tokens hregion htokens
  obtain ⟨value, used, later, hused, hlater, hrun, hvalue⟩ := h hregion htokens
  exact ⟨value, used, later, hused, hlater,
    firstOf_cons_run_eq_ok.mpr (.inl ⟨haccepts _, hrun⟩), hvalue⟩

/-- A choice reads what its other alternatives read where the first one declines. -/
theorem firstOf_of_declines {holds : α → Prop} {others : List (Parser α)}
    (hp : p.DeclinesText (text ++ next)) (h : (Parser.firstOf others).Reads text next holds) :
    (Parser.firstOf (p :: others)).Reads text next holds := by
  intro region tokens hregion htokens
  obtain ⟨value, used, later, hused, hlater, hrun, hvalue⟩ := h hregion htokens
  exact ⟨value, used, later, hused, hlater,
    firstOf_cons_run_eq_ok.mpr (.inr ⟨hp hregion htokens, hrun⟩), hvalue⟩

/-- A choice reads what an alternative reads when all alternatives before it decline. -/
theorem firstOf_append {holds : α → Prop} {front : List (Parser α)}
    (hfront : ∀ q ∈ front, q.DeclinesText (text ++ next)) (haccepts : ∀ next, p.accepts next)
    (h : p.Reads text next holds) (others : List (Parser α)) :
    (Parser.firstOf (front ++ p :: others)).Reads text next holds := by
  induction front with
  | nil => exact h.firstOf haccepts others
  | cons q front ih =>
    rw [List.forall_mem_cons] at hfront
    exact firstOf_of_declines hfront.1 (ih hfront.2)

/-- A repetition ends where its element is refused. -/
theorem many_nil (h : p.RefusesText next) : (many p).Reads [] next (· = []) := by
  intro region tokens hregion htokens
  refine ⟨[], [], tokens, rfl, htokens, ?_, rfl⟩
  change runMany p region tokens = _
  rw [runMany]
  split_ifs
  · rfl
  · rw [optional_run_of_refuses (h hregion htokens)]

/-- A repetition reads an element and then what it reads behind it. -/
theorem many_cons {first : α → Prop} {holds : List α → Prop} (haccepts : ∀ next, p.accepts next)
    (ha : a ≠ []) (hp : p.Reads a (b ++ next) first) (h : (many p).Reads b next holds) :
    (many p).Reads (a ++ b) next fun values =>
      ∃ value others, values = value :: others ∧ first value ∧ holds others := by
  intro region tokens hregion htokens
  rw [List.append_assoc] at htokens
  obtain ⟨value, used, middle, rfl, hmiddle, hrun, hvalue⟩ := hp hregion htokens
  have hused := htokens.ne_nil_left hmiddle ha
  obtain ⟨others, used', later, rfl, hlater, hrun', hothers⟩ := h hregion hmiddle
  refine ⟨value :: others, used ++ used', later, (List.append_assoc _ _ _).symm, hlater, ?_,
    value, others, rfl, hvalue, hothers⟩
  have hpos := List.length_pos_of_ne_nil hused
  change runMany p region (used' ++ later) = _ at hrun'
  change runMany p region (used ++ (used' ++ later)) = _
  rw [runMany, if_neg (by simp [hused]),
    optional_run_eq_ok.mpr (.inl ⟨value, rfl, haccepts _, hrun⟩)]
  dsimp only
  rw [if_pos (by simp only [List.length_append]; omega), hrun']
  rfl

/-- No further element follows where the separator is refused, or the element behind it. -/
theorem separated_nil {separator : Parser σ} (haccepts : ∀ next, separator.accepts next)
    (h : ∀ ⦃region tokens⦄, region.config = {} → Lexes next tokens →
      separator.Refuses region tokens ∨ ∃ sign middle,
        separator.run region tokens = ⟨.ok sign, middle⟩ ∧ p.Refuses region middle) :
    (separated separator p).Reads [] next (· = []) := by
  intro region tokens hregion htokens
  refine ⟨[], [], tokens, rfl, htokens, ?_, rfl⟩
  change runSeparated separator p region tokens = _
  rw [runSeparated]
  rcases h hregion htokens with hrefuses | ⟨sign, middle, hrun, hrefuses⟩
  · rw [optional_run_of_refuses hrefuses]
  · rw [optional_run_eq_ok.mpr (.inl ⟨sign, rfl, haccepts _, hrun⟩)]
    dsimp only
    rw [optional_run_of_refuses hrefuses]

/-- A separator and an element, and then what is read behind them. -/
theorem separated_cons {separator : Parser σ} {c : Text} {joint : σ → Prop} {first : α → Prop}
    {holds : List (σ × α) → Prop} (hjoint : ∀ next, separator.accepts next)
    (hfirst : ∀ next, p.accepts next) (hb : b ≠ [])
    (hseparator : separator.Reads a (b ++ (c ++ next)) joint) (hp : p.Reads b (c ++ next) first)
    (h : (separated separator p).Reads c next holds) :
    (separated separator p).Reads (a ++ (b ++ c)) next fun values =>
      ∃ sign value others, values = (sign, value) :: others ∧ first value ∧ holds others := by
  intro region tokens hregion htokens
  rw [List.append_assoc, List.append_assoc] at htokens
  obtain ⟨sign, before, front, rfl, hfront, hsign, _⟩ := hseparator hregion htokens
  obtain ⟨value, used, middle, rfl, hmiddle, hrun, hvalue⟩ := hp hregion hfront
  have hused := hfront.ne_nil_left hmiddle hb
  obtain ⟨others, between, later, rfl, hlater, hrun', hothers⟩ := h hregion hmiddle
  refine ⟨(sign, value) :: others, before ++ (used ++ between), later, by simp, hlater, ?_,
    sign, value, others, rfl, hvalue, hothers⟩
  have hpos := List.length_pos_of_ne_nil hused
  change runSeparated separator p region (between ++ later) = _ at hrun'
  change runSeparated separator p region (before ++ (used ++ (between ++ later))) = _
  rw [runSeparated, optional_run_eq_ok.mpr (.inl ⟨sign, rfl, hjoint _, hsign⟩)]
  dsimp only
  rw [optional_run_eq_ok.mpr (.inl ⟨value, rfl, hfirst _, hrun⟩)]
  dsimp only
  rw [if_pos (by simp only [List.length_append]; omega), hrun']
  rfl

/-- A list is an element and further ones behind separators. -/
theorem list {separator : Parser σ} {first : α → Prop} {holds : List (σ × α) → Prop}
    (haccepts : ∀ next, p.accepts next) (hp : p.Reads a (b ++ next) first)
    (h : (separated separator p).Reads b next holds) (allowEmpty : Bool) :
    (list p separator allowEmpty).Reads (a ++ b) next fun values =>
      ∃ value others, values = value :: others.map Prod.snd ∧ first value ∧ holds others := by
  apply (hp.optional haccepts).bind
  rintro found ⟨value, rfl, hvalue⟩
  exact h.bind_pure fun others hothers => ⟨value, others, rfl, hvalue, hothers⟩

end Reads

end Parser

end StyleSyntax
