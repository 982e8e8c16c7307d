import StyleSyntax.Document.Basic
import StyleSyntax.Proofs.Document.SourceLines
import StyleSyntax.Proofs.Tree.Places
import StyleSyntax.Tree.Dump

/-!
# The lines of a dump

The dump is meant to be an outline: a line for each node, which begins with its type and position,
indented by its depth. Ignored text, script and the fragments of selectors are quoted, so they stay
on their line. All other texts are shown as they are, and a line feed in one of them breaks the line
of its node. So the dump of a tree is an outline just when none of these texts holds a line feed.
-/

namespace StyleSyntax

/-- The texts that the dump shows as they are for a node without a body. -/
def Leaf.shownTexts : Leaf → List Text
  | ignored _ | script _ | selector _ => []
  | importRule path queries _ => path :: queries.toList
  | charset name _ => [name]
  | declaration d => [d.property.text, d.value.text]
  | spread expression _ => [expression.text]

/-- The texts that the dump shows as they are for the part before the braces. -/
def Head.shownTexts : Head → List Text
  | rule _ selectors => selectors.map fun s => s.source.text
  | media queries => [queries.text]
  | page pseudo => pseudo.toList
  | variableBlock _ name _ => [name]

namespace Node

/-- The texts that the dump shows as they are for a node. -/
def shownTexts : Node → List Text
  | leaf l => l.shownTexts
  | block head _ _ => head.shownTexts

/-- The type and the position of a node, indented by two spaces for each level. -/
def lineOpening (depth : Nat) (node : Node) : Text :=
  List.replicate (2 * depth) ' ' ++ node.typeName ++ ' ' :: node.position.text

end Node

/-- The lines are one for each place of a tree in depth-first order. Each is the type and the
position of the node there, indented by its depth, and perhaps more behind a space. -/
def IsOutline (nodes : List Node) (lines : List Text) : Prop :=
  ∃ places, Node.IsDepthFirst nodes places ∧
    List.Forall₂ (fun place line => ∃ node, Node.at? nodes place = some node ∧
      (line = node.lineOpening (place.length - 1) ∨
        node.lineOpening (place.length - 1) ++ [' '] <+: line)) places lines

variable {c : Char} {depth : Nat} {nodes : List Node} {node : Node} {lines : List Text}

/-! ## Texts without line feeds -/

namespace Text

/-- A number is written with digits alone. -/
theorem notMem_toDigits (hc : ∀ digit, Nat.digitChar digit ≠ c) {base : Nat} (hbase : 1 < base)
    (n : Nat) : c ∉ Nat.toDigits base n := by
  induction n using Nat.strong_induction_on with
  | _ n ih =>
    rw [Nat.toDigits_eq_if hbase]
    split_ifs with hn
    · rw [List.mem_singleton]
      exact (hc n).symm
    · rw [List.mem_append, List.mem_singleton, not_or]
      have hless : n / base < n := Nat.div_lt_self (by omega) hbase
      exact ⟨ih _ hless, (hc _).symm⟩

/-- A quoted character is no line feed. -/
theorem lineFeed_notMem_escapeChar (c : Char) : '\n' ∉ escapeChar c := by
  have hcode : '\n' ∉ Nat.toDigits 16 c.toNat :=
    notMem_toDigits (fun digit => Nat.digitChar_ne '\n' rfl) (by decide) _
  have hprinted : isPrinted '\n' = false := by decide
  unfold escapeChar
  split_ifs with _ _ _ _ _ _ hc
  all_goals try decide
  · rw [List.mem_singleton]
    rintro rfl
    rw [hprinted] at hc
    cases hc
  · simp [hcode]

/-- A quoted text is on one line. -/
theorem lineFeed_notMem_quoted (text : Text) : '\n' ∉ quoted text := by
  simp [quoted, lineFeed_notMem_escapeChar]

/-- A character that is not in the separator is in one of the texts that are joined. -/
theorem mem_intercalate {separator : Text} (hc : c ∉ separator) (texts : List Text) :
    c ∈ List.intercalate separator texts ↔ ∃ text ∈ texts, c ∈ text := by
  rw [List.intercalate]
  fun_induction List.intersperse separator texts with
  | case1 => simp
  | case2 text => simp
  | case3 text next rest ih => simp [ih, hc]

/-- Quoted texts in brackets are on one line. -/
theorem lineFeed_notMem_quotedList (texts : List Text) : '\n' ∉ quotedList texts := by
  have hjoined : '\n' ∉ List.intercalate [',', ' '] (texts.map quoted) := by
    rw [mem_intercalate (by decide)]
    rintro ⟨text, htext, hfeed⟩
    obtain ⟨plain, -, rfl⟩ := List.mem_map.mp htext
    exact lineFeed_notMem_quoted plain hfeed
  simp [quotedList, hjoined]

end Text

/-! ## The parts of a line -/

/-- A line feed in what is shown of a node without a body comes from a text that is shown as it
is. -/
theorem Leaf.lineFeed_mem_details (l : Leaf) :
    '\n' ∈ l.details ↔ ∃ text ∈ l.shownTexts, '\n' ∈ text := by
  have hmark (important : Bool) : '\n' ∉ if important then " !important".toList else [] := by
    cases important <;> decide
  cases l with
  | ignored source => simp [details, shownTexts, Text.lineFeed_notMem_quoted]
  | script source => simp [details, shownTexts, Text.lineFeed_notMem_quoted]
  | importRule path queries source => cases queries <;> simp [details, shownTexts]
  | charset name source => simp [details, shownTexts]
  | declaration d =>
    have hblank : '\n' ≠ ' ' := by decide
    have hsign : '\n' ∉ " = ".toList := by decide
    rw [details, shownTexts, List.mem_append, List.mem_append, List.mem_append, List.mem_cons,
      List.exists_mem_cons_iff, List.exists_mem_cons_iff]
    simp only [hblank, hsign, hmark, List.not_mem_nil, false_and, exists_false, or_false, false_or]
  | selector s => simp [details, shownTexts, Text.lineFeed_notMem_quotedList]
  | spread expression source => simp [details, shownTexts]

/-- A line feed in what is shown of the part before the braces comes from a text that is shown as it
is. -/
theorem Head.lineFeed_mem_details (head : Head) :
    '\n' ∈ head.details ↔ ∃ text ∈ head.shownTexts, '\n' ∈ text := by
  have hblank : '\n' ≠ ' ' := by decide
  have hmark (exported : Bool) : '\n' ∉ if exported then " export".toList else [] := by
    cases exported <;> decide
  have hkeyword (keyword : VarKeyword) : '\n' ∉ keyword.text := by
    cases keyword <;> decide
  cases head with
  | rule dialect selectors => simp [details, shownTexts, Text.mem_intercalate]
  | media queries => simp [details, shownTexts]
  | page pseudo => cases pseudo <;> simp [details, shownTexts]
  | variableBlock keyword name exported =>
    rw [details, shownTexts, List.mem_append, List.mem_append, List.mem_cons, List.mem_cons,
      List.exists_mem_cons_iff]
    simp only [hblank, hmark, hkeyword, List.not_mem_nil, false_and, exists_false, or_false,
      false_or]

namespace Node

/-- A line feed in what is shown of a node comes from a text that is shown as it is. -/
theorem lineFeed_mem_details (node : Node) :
    '\n' ∈ node.details ↔ ∃ text ∈ node.shownTexts, '\n' ∈ text := by
  cases node with
  | leaf l => exact l.lineFeed_mem_details
  | block head items source => exact head.lineFeed_mem_details

/-- What is shown of a node behind its position is separated from it by a space. -/
theorem details_eq (node : Node) : node.details = [] ∨ ∃ more, node.details = ' ' :: more := by
  cases node with
  | leaf l =>
    cases l with
    | importRule path queries source => cases queries <;> exact .inr ⟨_, rfl⟩
    | _ => exact .inr ⟨_, rfl⟩
  | block head items source =>
    cases head with
    | page pseudo =>
      cases pseudo with
      | none => exact .inl rfl
      | some pseudo => exact .inr ⟨_, rfl⟩
    | variableBlock keyword name exported => cases exported <;> exact .inr ⟨_, rfl⟩
    | _ => exact .inr ⟨_, rfl⟩

/-- The line of a node is its opening and what is shown of it, up to a line feed. -/
theorem dumpLine_eq (depth : Nat) (node : Node) :
    node.dumpLine depth = node.lineOpening depth ++ node.details ++ ['\n'] := by
  simp [dumpLine, lineOpening]

/-- Types are named with letters alone. -/
theorem typeName_all_isAlpha (node : Node) : node.typeName.all Char.isAlpha := by
  cases node with
  | leaf l =>
    cases l with
    | declaration d => rcases d with ⟨_ | _⟩ <;> rfl
    | selector s => rcases s with ⟨_ | _⟩ <;> rfl
    | _ => rfl
  | block head items source =>
    cases head with
    | rule dialect selectors => cases dialect <;> rfl
    | _ => rfl

/-- The opening of a line holds no characters that end lines. -/
theorem notMem_lineOpening (hc : c = '\n' ∨ c = '\r') (depth : Nat) (node : Node) :
    c ∉ node.lineOpening depth := by
  have hdigits (n : Nat) : c ∉ Text.ofNat n := by
    refine Text.notMem_toDigits (fun digit => Nat.digitChar_ne c ?_) (by decide) n
    rcases hc with rfl | rfl <;> rfl
  have hname : c ∉ node.typeName := by
    intro hmem
    have hletter := List.all_eq_true.mp node.typeName_all_isAlpha c hmem
    rcases hc with rfl | rfl <;> cases hletter
  have hblank : c ≠ ' ' ∧ c ≠ ':' := by
    rcases hc with rfl | rfl <;> decide
  simp [lineOpening, Position.text, hdigits, hname, hblank]

/-- The line of a node, as it is shown, is its opening, or goes on behind it with a space. -/
theorem withoutReturn_lineOpening (depth : Nat) (node : Node) :
    Text.withoutReturn (node.lineOpening depth ++ node.details) = node.lineOpening depth ∨
      node.lineOpening depth ++ [' '] <+:
        Text.withoutReturn (node.lineOpening depth ++ node.details) := by
  rcases node.details_eq with hnone | ⟨more, hmore⟩
  · left
    rw [hnone, List.append_nil]
    exact Text.withoutReturn_of_notMem (node.notMem_lineOpening (.inr rfl) depth)
  · right
    have hblank : (node.lineOpening depth ++ [' ']).getLast? ≠ some '\r' := by simp
    have hprefix := Text.prefix_withoutReturn hblank more
    rw [List.append_assoc, List.singleton_append, ← hmore] at hprefix
    exact hprefix

end Node

/-! ## The lines of all nodes -/

section Lines

variable {entries : List (Nat × Node)}

/-- The line of the last node is closed as well. -/
theorem lastLine_dump (entries : List (Nat × Node)) :
    Text.lastLine (entries.flatMap fun entry => entry.2.dumpLine entry.1) = [] := by
  induction entries with
  | nil => rfl
  | cons entry entries ih =>
    rw [List.flatMap_cons, Node.dumpLine_eq, List.append_assoc, List.singleton_append,
      Text.lastLine_append, ih]

/-- There is a line feed for each node, and those in what is shown of it. -/
theorem count_dump (entries : List (Nat × Node)) :
    (entries.flatMap fun entry => entry.2.dumpLine entry.1).count '\n' =
      entries.length + (entries.flatMap fun entry => entry.2.details).count '\n' := by
  induction entries with
  | nil => rfl
  | cons entry entries ih =>
    have hopening := List.count_eq_zero_of_not_mem
      (entry.2.notMem_lineOpening (.inl rfl) entry.1)
    rw [List.flatMap_cons, List.flatMap_cons, List.count_append, List.count_append,
      Node.dumpLine_eq, List.count_append, List.count_append, hopening,
      List.count_singleton_self, ih, List.length_cons]
    omega

/-- There is a line for each node, and one more for each line feed in what is shown of it. -/
theorem length_sourceLines_dump (entries : List (Nat × Node)) :
    (sourceLines (entries.flatMap fun entry => entry.2.dumpLine entry.1)).length =
      entries.length + (entries.flatMap fun entry => entry.2.details).count '\n' := by
  rw [length_sourceLines, lastLine_dump, if_pos rfl, count_dump, Nat.add_zero]

/-- Where nothing that is shown holds a line feed the lines are those of the nodes. -/
theorem sourceLines_dump (h : ∀ entry ∈ entries, '\n' ∉ entry.2.details) :
    sourceLines (entries.flatMap fun entry => entry.2.dumpLine entry.1) =
      entries.map fun entry =>
        Text.withoutReturn (entry.2.lineOpening entry.1 ++ entry.2.details) := by
  induction entries with
  | nil => rfl
  | cons entry entries ih =>
    rw [List.forall_mem_cons] at h
    have hline : '\n' ∉ entry.2.lineOpening entry.1 ++ entry.2.details := by
      rw [List.mem_append, not_or]
      exact ⟨entry.2.notMem_lineOpening (.inl rfl) entry.1, h.1⟩
    rw [List.flatMap_cons, Node.dumpLine_eq, List.append_assoc, List.singleton_append,
      sourceLines_append hline, ih h.2, List.map_cons]

end Lines

/-- An outline has as many lines as the tree has nodes. -/
theorem IsOutline.length_eq (h : IsOutline nodes lines) :
    lines.length = (Node.listingOf 0 nodes).length := by
  obtain ⟨places, hplaces, hlines⟩ := h
  rw [← hlines.length_eq, hplaces.eq_placesOf, (Node.forall₂_placesOf 0 nodes).length_eq]

/-- No text that is shown as it is holds a line feed just when nothing that is shown of a node
does. -/
theorem forall_shownTexts_iff (nodes : List Node) :
    (∀ place node, Node.at? nodes place = some node → ∀ text ∈ node.shownTexts, '\n' ∉ text) ↔
      ∀ entry ∈ Node.listingOf 0 nodes, '\n' ∉ entry.2.details := by
  simp only [Node.lineFeed_mem_details, not_exists, not_and]
  constructor
  · intro h entry hentry
    obtain ⟨place, hplace⟩ := (Node.exists_mem_listingOf_iff 0).mp ⟨entry, hentry, rfl⟩
    exact h place entry.2 hplace
  · intro h place node hplace
    obtain ⟨entry, hentry, rfl⟩ := (Node.exists_mem_listingOf_iff 0).mpr ⟨place, hplace⟩
    exact h entry hentry

/-- The dump of a tree is an outline just when no text that it shows as it is holds a line feed. -/
theorem isOutline_dump_iff (nodes : List Node) :
    IsOutline nodes (sourceLines (dump nodes)) ↔
      ∀ place node, Node.at? nodes place = some node →
        ∀ text ∈ node.shownTexts, '\n' ∉ text := by
  rw [forall_shownTexts_iff]
  constructor
  · intro houtline entry hentry
    have hlength := houtline.length_eq
    rw [dump, length_sourceLines_dump, Nat.add_eq_left, List.count_eq_zero] at hlength
    exact fun hfeed => hlength (List.mem_flatMap.mpr ⟨entry, hentry, hfeed⟩)
  · intro hnone
    refine ⟨Node.placesOf nodes, Node.isDepthFirst_placesOf nodes, ?_⟩
    rw [dump, sourceLines_dump hnone, List.forall₂_map_right_iff]
    refine (Node.forall₂_placesOf 0 nodes).imp fun place entry h => ⟨entry.2, h.1, ?_⟩
    have hdepth : place.length - 1 = entry.1 := by
      have hlength := h.2
      omega
    rw [hdepth]
    exact entry.2.withoutReturn_lineOpening entry.1

/-- A value on two lines takes two lines of the dump. -/
theorem not_isOutline_dump_value :
    ∃ sheet, parseDocument "a\x7bb:c\nd\x7d".toList {} .css = .ok sheet ∧
      dump sheet = "CssBlock 1:1 a\n  CssDeclaration 1:3 b = c\nd\n".toList ∧
      ¬ IsOutline sheet (sourceLines (dump sheet)) := by
  have hparse : parseDocument "a\x7bb:c\nd\x7d".toList {} .css =
      .ok [.block (.rule .css [⟨.css, [['a']], ['a'], ⟨1, 1⟩⟩])
        [.leaf (.declaration ⟨.css, ⟨['b'], ⟨1, 3⟩⟩, ⟨"c\nd".toList, ⟨1, 5⟩⟩, false,
          "b:c\nd".toList⟩)]
        ⟨"a\x7bb:c\nd\x7d".toList, ⟨1, 1⟩⟩] := by
    decide +kernel
  refine ⟨_, hparse, by decide +kernel, fun houtline => ?_⟩
  have hlength := houtline.length_eq
  revert hlength
  decide +kernel

end StyleSyntax
