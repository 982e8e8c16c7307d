import StyleSyntax.Proofs.Document.Extension
import StyleSyntax.Proofs.RuleSet.Statements

/-!
# Rule sets are recovered from their text

A list of items reads the outlines of its statements one after another, and a gap between them
leaves no outline. By induction on the nesting of rules the body of a rule is such a list, and so is
the whole document.
-/

namespace StyleSyntax.RuleSet

open StyleSyntax.Parser StyleSyntax.Grammar

variable {text next : Text} {tokens : List Token} {dialect : Dialect} {statement : Parser Node}
  {outline : Outline} {outlines : List Outline}

/-- The whole text is read as items with these outlines. -/
def ReadsItems (statement : Parser Node) (text : Text) (outlines : List Outline) : Prop :=
  (items statement).Reads text [] fun nodes => Node.outlines nodes = outlines

namespace ReadsItems

/-- The trivia before the first item leaves no outline. -/
theorem exists_items_iff (statement : Parser Node) (region : Region) (tokens : List Token)
    (outlines : List Outline) :
    (∃ nodes, (items statement).run region tokens = ⟨.ok nodes, []⟩ ∧
      Node.outlines nodes = outlines) ↔
    ∃ nodes, (items statement).run region (dropTrivia tokens) = ⟨.ok nodes, []⟩ ∧
      Node.outlines nodes = outlines := by
  cases tokens with
  | nil => exact Iff.rfl
  | cons token following =>
    by_cases htrivia : token.isTrivia
    · have hignored := ignored_run_of_isTrivia region following htrivia
      have hitem : (item statement).run region (token :: following) = _ :=
        (item_run_of_isTrivia htrivia).trans hignored
      have hdrop : dropTrivia (token :: following) = dropTrivia following :=
        List.dropWhile_cons_of_pos htrivia
      have hlength : (dropTrivia (token :: following)).length < (token :: following).length := by
        rw [hdrop, List.length_cons]
        exact Nat.lt_succ_of_le (List.dropWhile_sublist _).length_le
      unfold items
      constructor
      · rintro ⟨nodes, hrun, rfl⟩
        obtain ⟨node, middle, others, hfound, _, hothers, rfl⟩ := all_run_cons_eq_ok.mp hrun
        rw [hitem] at hfound
        cases hfound
        exact ⟨others, hothers, rfl⟩
      · rintro ⟨nodes, hrun, rfl⟩
        exact ⟨_, all_run_cons_eq_ok.mpr ⟨_, _, nodes, hitem, hlength, hrun, rfl⟩, rfl⟩
    · rw [dropTrivia_cons (by simpa [Token.isSignificant] using htrivia)]

/-- Nothing has no items. -/
theorem nil : ReadsItems statement [] [] := by
  intro region tokens _ htokens
  obtain rfl := Lexes.nil_iff.mp htokens
  exact ⟨[], [], [], rfl, htokens, all_run_nil _ _, rfl⟩

/-- A gap before items leaves their outlines as they are. -/
theorem gap {gap : Text} (hgap : IsGapText gap) (h : ReadsItems statement text outlines) :
    ReadsItems statement (gap ++ text) outlines := by
  intro region tokens hregion htokens
  rw [List.append_nil] at htokens
  obtain ⟨later, hlater, hdrop⟩ := hgap htokens
  obtain ⟨nodes, used, left, _, hleft, hrun, hnodes⟩ :=
    h hregion (by rwa [List.append_nil])
  obtain rfl := Lexes.nil_iff.mp hleft
  obtain ⟨nodes', hrun', hnodes'⟩ := (exists_items_iff statement region tokens outlines).mpr
    (hdrop ▸ (exists_items_iff statement region later outlines).mp ⟨nodes, hrun, hnodes⟩)
  exact ⟨nodes', tokens, [], by simp, hleft, hrun', hnodes'⟩

/-- A statement before items is one more of them. -/
theorem cons (hsolid : BeginsWith (isSolid ·) text)
    (hstatement : statement.Reads text next fun node => node.outline? = some outline)
    (h : ReadsItems statement next outlines) :
    ReadsItems statement (text ++ next) (outline :: outlines) := by
  intro region tokens hregion htokens
  rw [List.append_nil] at htokens
  obtain ⟨node, used, later, rfl, hlater, hrun, hnode⟩ := hstatement hregion htokens
  obtain ⟨nodes, used', left, rfl, hleft, hrun', hnodes⟩ :=
    h hregion (by rwa [List.append_nil])
  obtain rfl := Lexes.nil_iff.mp hleft
  have hne : used ≠ [] := by
    obtain ⟨c, rest, rfl, _⟩ := hsolid.exists_cons
    exact htokens.ne_nil_left hlater (List.cons_ne_nil c rest)
  obtain ⟨token, more, rfl⟩ := List.exists_cons_of_ne_nil hne
  have hsignificant : token.isSignificant := by
    obtain ⟨c, rest, rfl, hc⟩ := hsolid.exists_cons
    obtain ⟨first, following, hfirst, hsignificant, _⟩ := Lexes.exists_significant htokens hc
    obtain ⟨rfl, -⟩ := List.cons.inj hfirst
    exact hsignificant
  refine ⟨node :: nodes, token :: (more ++ (used' ++ [])), [], by simp, hleft, ?_, ?_⟩
  · refine all_run_cons_eq_ok.mpr ⟨node, used' ++ [], nodes, ?_, ?_, hrun', rfl⟩
    · exact (item_run_of_significant hsignificant).trans hrun
    · change _ < (more ++ (used' ++ [])).length + 1
      simp only [List.length_append]
      omega
  · change node.outline?.toList ++ Node.outlines nodes = _
    rw [hnode, hnodes]
    rfl

end ReadsItems

/-- A declaration of the model may stand in front of items that are read. -/
theorem ReadsItems.declaration {ending : Text} {declaration : Declaration} {bodies : Bodies}
    (hreadable : declaration.IsReadable dialect)
    (hends : EndsStatement ending (declaration.after.text ++ text))
    (h : ReadsItems (firstOf (ruleStatements bodies dialect)) text outlines) :
    ReadsItems (firstOf (ruleStatements bodies dialect))
      (declaration.text ++ ending ++ (declaration.after.text ++ text))
      (declaration.outline :: outlines) := by
  refine cons ?_ (reads_bodyStatement_declaration hreadable hends bodies)
    (h.gap (Gap.isGapText hreadable.clear.after))
  exact (((declaration.property.beginsSolid _).append _).append _).append _

/-- Declarations may stand in front of items that are read, and the last semicolon may be left out
where nothing but a gap follows. -/
theorem ReadsItems.declarations {declarations : List Declaration} {lastSemicolon : Bool}
    {bodies : Bodies}
    (hreadable : ∀ declaration ∈ declarations, declaration.IsReadable dialect)
    (hlast : lastSemicolon = false → ∃ gap : Gap, gap.IsClear ∧ text = gap.text)
    (h : ReadsItems (firstOf (ruleStatements bodies dialect)) text outlines) :
    ReadsItems (firstOf (ruleStatements bodies dialect))
      (declarationsText lastSemicolon declarations ++ text)
      (declarations.map Declaration.outline ++ outlines) := by
  fun_induction declarationsText lastSemicolon declarations with
  | case1 => exact h
  | case2 declaration =>
    rw [List.forall_mem_singleton] at hreadable
    rw [List.append_assoc]
    refine h.declaration hreadable ?_
    split_ifs with hsemicolon
    · exact .semicolon _
    · obtain ⟨gap, hgap, rfl⟩ := hlast (by simpa using hsemicolon)
      have htext : declaration.after.text ++ gap.text = Gap.text (declaration.after ++ gap) :=
        List.flatMap_append.symm
      rw [htext]
      exact .gap (List.forall_mem_append.mpr ⟨hreadable.clear.after, hgap⟩)
  | case3 declaration second rest ih =>
    rw [List.forall_mem_cons] at hreadable
    have htext : declaration.text ++ ';' :: declaration.after.text ++
          declarationsText lastSemicolon (second :: rest) ++ text =
        declaration.text ++ [';'] ++ (declaration.after.text ++
          (declarationsText lastSemicolon (second :: rest) ++ text)) := by
      simp
    rw [htext]
    exact (ih hreadable.2).declaration hreadable.1 (.semicolon _)

/-- A rule begins with a name or with the sign of a piece. -/
theorem Rule.beginsWith (rule : Rule) : BeginsWith (isCompoundStart ·) rule.text := by
  cases rule with
  | mk parts nested => exact ((parts.beginsWith.append _).append _).append _

/-- Rules are read as items when each of them is read as a statement. -/
theorem ReadsItems.rules {rules : List Rule}
    (hrules : ∀ rule ∈ rules, ∀ next,
      statement.Reads rule.text next fun node => node.outline? = some rule.outline)
    (h : ReadsItems statement text outlines) :
    ReadsItems statement (rulesText rules ++ text) (outlinesOf rules ++ outlines) := by
  induction rules with
  | nil => exact h
  | cons rule rules ih =>
    rw [List.forall_mem_cons] at hrules
    have hlater : ReadsItems statement ('\n' :: (rulesText rules ++ text))
        (outlinesOf rules ++ outlines) := by
      have hgap : IsGapText ['\n'] := fun _ _ h => Lexes.exists_of_space h (by decide)
      exact (ih hrules.2).gap hgap
    have htext : rulesText (rule :: rules) ++ text =
        rule.text ++ '\n' :: (rulesText rules ++ text) := by
      rw [rulesText, List.append_assoc, List.cons_append]
    rw [htext]
    have hsolid : BeginsWith (isSolid ·) rule.text :=
      rule.beginsWith.mono fun _ hc => (isSolid_of_isCompoundStart hc).1
    exact cons hsolid (hrules.1 _) hlater

/-- A rule without the rules nested in it. -/
def Rule.parts : Rule → RuleParts
  | .mk parts _ => parts

/-- The text of a rule is its selectors and what opens its body. -/
theorem Rule.exists_selectorsText (rule : Rule) (hgap : rule.parts.openGap.IsClear) (next : Text) :
    ∃ rest, rule.text ++ next = rule.parts.selectorsText ++ rest ∧ OpensBody rest := by
  cases rule with
  | mk parts nested =>
    rw [Rule.text, Rule.parts]
    simp only [List.append_assoc, List.cons_append]
    exact ⟨_, rfl, parts.openGap, _, hgap, rfl⟩

/-- A rule is read as a statement of a body in the extended language, unless it begins with a
keyword. -/
theorem Rule.reads_bodyStatement {bodies : Bodies} {holds : Node → Prop} (rule : Rule)
    (hgap : rule.parts.openGap.IsClear) (hkeyword : rule.parts.beginsWithKeyword = false)
    (h : (ruleBlock bodies .jss).Reads rule.text next holds) :
    (firstOf (ruleStatements bodies .jss)).Reads rule.text next holds := by
  obtain ⟨rest, htext, hopens⟩ := rule.exists_selectorsText hgap next
  have hfront := rule.parts.declines hopens hkeyword bodies
  rw [← htext] at hfront
  exact Reads.firstOf_append hfront (fun _ => rfl) h []

/-- A rule is read as a statement of a sheet, unless it begins with a keyword in the extended
language. -/
theorem Rule.reads_sheetStatement {bodies : Bodies} {holds : Node → Prop} (rule : Rule)
    (hgap : rule.parts.openGap.IsClear)
    (hkeyword : dialect = .jss → rule.parts.beginsWithKeyword = false)
    (h : (ruleBlock bodies dialect).Reads rule.text next holds) :
    (firstOf (sheetStatements bodies dialect)).Reads rule.text next holds := by
  obtain ⟨rest, htext, hopens⟩ := rule.exists_selectorsText hgap next
  cases dialect with
  | css =>
    have hfront : ∀ q ∈ [probe Token.isSemicolon straySemicolon,
        probe Token.isAt (atRule bodies .css)], q.DeclinesText (rule.text ++ next) := by
      rw [htext]
      intro q hq region tokens _ htokens
      obtain ⟨stop, back, hstop, hleads⟩ := rule.parts.exists_leadsTo hopens htokens
      exact declines_of_leadsTo hleads hstop .css q hq
    exact Reads.firstOf_append hfront (fun _ => rfl) h []
  | jss =>
    have hfront : ∀ q ∈ earlyStatements bodies ++ [probe isScriptKeyword script],
        q.DeclinesText (rule.text ++ next) := by
      rw [htext]
      intro q hq
      refine rule.parts.declines hopens (hkeyword rfl) bodies q ?_
      rcases List.mem_append.mp hq with hearly | hscript
      · exact List.mem_append_left _ hearly
      · exact List.mem_append_right _ (List.mem_cons_of_mem _
          (List.mem_cons.mpr (.inl (List.mem_singleton.mp hscript))))
    exact Reads.firstOf_append hfront (fun _ => rfl) h [script]

/-- The body of a rule is read when the rules nested directly in it are read as statements. -/
theorem reads_body {bodies : Bodies} (parts : RuleParts) (nested : List Rule)
    (hclear : parts.IsClear) (hplain : dialect = .css → parts.isPlain)
    (hnested : ∀ rule ∈ nested, ∀ next, (firstOf (ruleStatements bodies dialect)).Reads rule.text
      next fun node => node.outline? = some rule.outline) :
    (blockItems bodies dialect).Reads
      (declarationsText (!nested.isEmpty || parts.lastSemicolon) parts.declarations ++
        rulesText nested ++ parts.closeGap.text) []
      fun nodes => Node.outlines nodes =
        parts.declarations.map Declaration.outline ++ outlinesOf nested := by
  have hclose : ReadsItems (firstOf (ruleStatements bodies dialect)) parts.closeGap.text [] := by
    rw [← List.append_nil parts.closeGap.text]
    exact ReadsItems.nil.gap (Gap.isGapText hclear.closeGap)
  have hrules := ReadsItems.rules hnested hclose
  have hwords (hcss : dialect = .css) : ∀ declaration ∈ parts.declarations,
      ∀ word ∈ declaration.words, word.isPlain := by
    simpa [RuleParts.isPlain] using hplain hcss
  have hreadable (declaration : Declaration) (hmem : declaration ∈ parts.declarations) :
      declaration.IsReadable dialect :=
    ⟨hclear.declarations declaration hmem, fun hcss => hwords hcss declaration hmem⟩
  have hlast (h : (!nested.isEmpty || parts.lastSemicolon) = false) :
      ∃ gap : Gap, gap.IsClear ∧ rulesText nested ++ parts.closeGap.text = gap.text := by
    rw [Bool.or_eq_false_iff, Bool.not_eq_false', List.isEmpty_iff] at h
    exact ⟨parts.closeGap, hclear.closeGap, by rw [h.1]; rfl⟩
  rw [blockItems_eq, List.append_assoc, ← List.append_nil (outlinesOf nested)]
  exact hrules.declarations hreadable hlast

/-- What is asked of a rule so that its text can be read in a language: no comment in it ends early;
in the plain language no rule is nested in it and no value has an interpolation; in the extended
language neither it nor a rule nested in it begins with a keyword. -/
structure Rule.IsReadable (dialect : Dialect) (rule : Rule) : Prop where
  clear : ∀ parts ∈ rule.allParts, parts.IsClear
  isPlain : dialect = .css → rule.isPlain
  keyword : dialect = .jss → ∀ parts ∈ rule.allParts, parts.beginsWithKeyword = false

/-- The parts of a rule are among those of all its rules. -/
theorem Rule.parts_mem (rule : Rule) : rule.parts ∈ rule.allParts := by
  cases rule with
  | mk parts nested => exact List.mem_cons_self

/-- What is asked of a rule is asked of the rules nested in it, which only the extended language
has. -/
theorem Rule.IsReadable.nested {parts : RuleParts} {nested : List Rule} {rule : Rule}
    (h : (Rule.mk parts nested).IsReadable dialect) (hrule : rule ∈ nested) :
    dialect = .jss ∧ rule.IsReadable dialect := by
  cases dialect with
  | css =>
    have hnone := h.isPlain rfl
    rw [Rule.isPlain, Bool.and_eq_true, List.isEmpty_iff] at hnone
    rw [hnone.1] at hrule
    cases hrule
  | jss =>
    have hmem (parts' : RuleParts) (hparts : parts' ∈ rule.allParts) :
        parts' ∈ (Rule.mk parts nested).allParts :=
      List.mem_cons_of_mem _ (mem_allPartsOf hrule hparts)
    exact ⟨rfl, fun parts' hparts => h.clear parts' (hmem parts' hparts), by simp,
      fun hjss parts' hparts => h.keyword hjss parts' (hmem parts' hparts)⟩

/-- A readable rule is read with its outline when there are as many levels of bodies as its text has
characters. -/
theorem Rule.reads (rule : Rule) (h : rule.IsReadable dialect) {n : Nat}
    (hn : rule.text.length ≤ n) (next : Text) :
    (ruleBlock (.within n) dialect).Reads rule.text next
      fun node => node.outline? = some rule.outline := by
  induction rule using Rule.induction generalizing n next with
  | mk parts nested ih =>
    have hparts := h.clear parts List.mem_cons_self
    have hregular := RuleParts.isRegular_body hparts
      (fun rule hrule => rule.isRegular (h.nested hrule).2.clear)
      (!nested.isEmpty || parts.lastSemicolon)
    have hlength : (rulesText nested).length + 2 ≤ n := by
      refine le_trans ?_ hn
      simp only [Rule.text, List.length_append, List.length_cons]
      omega
    obtain ⟨depth, rfl⟩ : ∃ depth, n = depth + 1 := ⟨n - 1, by omega⟩
    have hnested (rule : Rule) (hrule : rule ∈ nested) (next : Text) :
        (firstOf (ruleStatements (.within depth) dialect)).Reads rule.text next
          fun node => node.outline? = some rule.outline := by
      obtain ⟨rfl, hreadable⟩ := h.nested hrule
      have hlt := length_text_lt hrule
      exact rule.reads_bodyStatement (hreadable.clear _ rule.parts_mem).openGap
        (hreadable.keyword rfl _ rule.parts_mem) (ih rule hrule hreadable (by omega) next)
    have hplain (hcss : dialect = .css) : parts.isPlain :=
      ((Bool.and_eq_true _ _).mp (h.isPlain hcss)).2
    have hitems : ((Bodies.within (depth + 1)).blockItems dialect).Reads _ [] _ :=
      (reads_body parts nested hparts hplain hnested).delay
    rw [Rule.text, List.append_assoc, List.append_assoc, Rule.outline]
    exact reads_ruleBlock parts hparts.openGap hregular hitems next

/-- The text of readable rules has no mark at its beginning. -/
theorem withoutMark_rulesText (rules : List Rule) :
    withoutMark (rulesText rules) = rulesText rules := by
  cases rules with
  | nil => rfl
  | cons rule rules =>
    obtain ⟨c, rest, htext, hc⟩ := (rule.beginsWith.append ('\n' :: rulesText rules)).exists_cons
    have hnone : isCompoundStart '\uFEFF' = false := by decide +kernel
    have hmark : c ≠ '\uFEFF' := by
      rintro rfl
      rw [hnone] at hc
      cases hc
    rw [rulesText, htext, withoutMark, if_neg hmark]

/-- Rules are recovered from their text: it is a document of the language, with the texts of the
selectors, the properties with their values, and the nesting, all in order. No comment may have a
body that begins with a slash, since it would end there. The plain language has neither nested rules
nor interpolations. In the extended language a rule may not begin with a keyword, also not with one
that is continued behind a dash, since it would be script. -/
theorem parseDocument_rulesText (dialect : Dialect) (rules : List Rule)
    (hcomments : ∀ parts ∈ allPartsOf rules, ∀ gap ∈ parts.gaps, ∀ part ∈ gap,
      part.endsEarly = false)
    (hcss : dialect = .css → ∀ rule ∈ rules, rule.isPlain)
    (hjss : dialect = .jss → ∀ parts ∈ allPartsOf rules, parts.beginsWithKeyword = false) :
    ∃ sheet, parseDocument (rulesText rules) {} dialect = .ok sheet ∧
      Node.outlines sheet = outlinesOf rules := by
  have hreadable (rule : Rule) (hrule : rule ∈ rules) : rule.IsReadable dialect := by
    refine ⟨fun parts hparts => ?_, fun h => hcss h rule hrule,
      fun h parts hparts => hjss h parts (mem_allPartsOf hrule hparts)⟩
    exact RuleParts.isClear_of_gaps (hcomments parts (mem_allPartsOf hrule hparts))
  have hregular : IsRegular (rulesText rules) :=
    isRegular_rulesText fun rule hrule => rule.isRegular (hreadable rule hrule).clear
  obtain ⟨tokens, htokens⟩ := hregular.exists_tokensOf .start
  have hlexes : Lexes (rulesText rules) tokens := ⟨_, htokens⟩
  have hstatement (rule : Rule) (hrule : rule ∈ rules) (next : Text) :
      (firstOf (sheetStatements (.within (rulesText rules).length) dialect)).Reads rule.text next
        fun node => node.outline? = some rule.outline := by
    have hrule' := hreadable rule hrule
    exact rule.reads_sheetStatement (hrule'.clear _ rule.parts_mem).openGap
      (fun h => hrule'.keyword h _ rule.parts_mem)
      (rule.reads hrule' (length_text_lt hrule).le next)
  have hitems := ReadsItems.rules hstatement .nil
  rw [List.append_nil, List.append_nil] at hitems
  obtain ⟨sheet, _, left, _, hleft, hrun, houtlines⟩ :=
    @hitems (.ofTokens {} tokens .start) tokens rfl (by rwa [List.append_nil])
  refine ⟨sheet, parseDocument_eq_ok.mpr ⟨tokens, ?_, parseTokens_eq_ok.mpr ⟨left, ?_⟩⟩, houtlines⟩
  · rw [withoutMark_rulesText]
    exact htokens
  · rw [hlexes.splitSymbolRuns_eq, hlexes.spelling_eq, stylesheetItems_eq]
    exact hrun

/-- A rule with comments, an interpolation and another rule nested in it. -/
def hoverRules : List Rule :=
  [.mk
    { first :=
        { first := ⟨some ⟨⟨['a'], by decide, by decide⟩, by decide⟩,
            [⟨.colon, ⟨"hover".toList, by decide, by decide⟩⟩], .inl rfl⟩
          others := [(.spaced '>' (by decide),
            ⟨none, [⟨.hash, ⟨['x'], by decide, by decide⟩⟩], .inr (by simp)⟩)] }
      others := []
      declarations :=
        [{ property := ⟨⟨"z-index".toList, by decide, by decide⟩, by decide⟩
           first := .interpolation ⟨['i'], by decide, by decide⟩
           others := [.plain "1.5px".toList (by simp) (by decide)]
           beforeColon := []
           afterColon := [.space ' ' (by decide)]
           after := [.comment "**".toList (by decide)] }]
      openGap := [.comment " note ".toList (by decide), .space '\n' (by decide)]
      closeGap := []
      lastSemicolon := false }
    [.mk
      { first := ⟨⟨none, [⟨.dot, ⟨['b'], by decide, by decide⟩⟩], .inr (by simp)⟩, []⟩
        others := []
        declarations := []
        openGap := []
        closeGap := []
        lastSemicolon := false } []]]

/-- The rule is recovered: the selectors without the comment behind them, the value with the words
of its interpolation, and the nested rule behind a comment. -/
theorem parseDocument_rulesText_hoverRules :
    (∀ parts ∈ allPartsOf hoverRules, ∀ gap ∈ parts.gaps, ∀ part ∈ gap, part.endsEarly = false) ∧
    (∀ parts ∈ allPartsOf hoverRules, parts.beginsWithKeyword = false) ∧
    ∃ sheet,
      parseDocument
        "a:hover > #x/* note */\n\x7bz-index: $\x7bi\x7d 1.5px;/****/.b\x7b\x7d\n\x7d\n".toList
        {} .jss = .ok sheet ∧
      Node.outlines sheet =
        [.rule ["a:hover > #x".toList]
          [.declaration "z-index".toList "$\x7bi\x7d 1.5px".toList, .rule [".b".toList] []]] := by
  have hcomments : ∀ parts ∈ allPartsOf hoverRules, ∀ gap ∈ parts.gaps, ∀ part ∈ gap,
      part.endsEarly = false := by
    decide
  have hkeyword : ∀ parts ∈ allPartsOf hoverRules, parts.beginsWithKeyword = false := by
    decide
  exact ⟨hcomments, hkeyword,
    parseDocument_rulesText .jss hoverRules hcomments (by simp) fun _ => hkeyword⟩

/-- A comment whose body is a slash ends before its end, and the rest of it stands in the way. -/
example : (parseDocument "a/*/*/\x7b\x7d\n".toList {} .css matches .failed _) = true := by
  decide +kernel

end StyleSyntax.RuleSet
