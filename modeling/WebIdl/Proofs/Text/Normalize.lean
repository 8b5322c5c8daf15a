import WebIdl.Proofs.Text.Dedent

/-!
# The normal form of a raw block

The text of a raw block is shown without the indentation that it has in its document. What is shown is
a normal form: it stays as it is, and a block that is indented further in has the same.

* `Text.normalizeBlock_eq`, `Text.lines_normalizeBlock` — what is shown has the dedented lines.
* `Text.indentLines` — a text with spaces and tabs in front of each of its lines;
  `Text.dedent_indentLines` says that they are taken off again.
* `Text.normalizeBlock_normal` — when nothing is shown, which form the lines have that are shown, which
  texts have the same normal form, and what is kept of a text.
-/

namespace WebIdl.Text

variable {cs line p q : List Char} {ls : List (List Char)}

/-! ### Ends of lines -/

theorem exists_blanks_of_dropReturn (line : List Char) :
    ∃ blanks, allBlank blanks = true ∧ line = dropReturn line ++ blanks := by
  unfold dropReturn
  split
  · rename_i hlast
    exact ⟨['\r'], rfl, (List.dropLast_append_getLast? '\r' hlast).symm⟩
  · exact ⟨[], rfl, (List.append_nil line).symm⟩

theorem ink_dropReturn (line : List Char) : ink (dropReturn line) = ink line := by
  obtain ⟨blanks, hblanks, hline⟩ := exists_blanks_of_dropReturn line
  conv_rhs => rw [hline, ink_append, allBlank_iff.mp hblanks, List.append_nil]

/-- The ink of a text is that of its lines. -/
theorem ink_eq_flatMap (cs : List Char) : ink cs = (lines cs).flatMap ink := by
  induction cs using linewise with
  | last line hline =>
    rw [lines_of_not_mem hline]
    cases line <;> simp [ink]
  | more line cs hline ih =>
    have hfeed : ink ('\n' :: cs) = ink cs := rfl
    rw [lines_append hline, ink_append, hfeed, List.flatMap_cons, ink_dropReturn, ih]

theorem ink_intercalate (ls : List (List Char)) : ink (['\n'].intercalate ls) = ls.flatMap ink := by
  induction ls with
  | nil => rfl
  | cons l ls ih =>
    cases ls with
    | nil => simp
    | cons next rest =>
      have hfeed : ink ['\n'] = [] := rfl
      rw [List.intercalate_cons_cons, ink_append, ink_append, hfeed, List.append_nil, ih,
        ← List.flatMap_cons]

/-! ### The lines that are shown -/

theorem normalizeBlock_eq (raw : String) :
    (normalizeBlock raw).toList = ['\n'].intercalate (dedent (lines raw.toList)) := by
  have hline : (String.toList ∘ fun l => String.ofList
      (dedentLine (commonIndent (dropBlankEnds (lines raw.toList))) l)) =
        dedentLine (commonIndent (dropBlankEnds (lines raw.toList))) :=
    funext fun _ => String.toList_ofList
  rw [normalizeBlock, String.toList_intercalate, List.map_map, hline]
  rfl

theorem not_mem_of_mem_dedent {l : List Char} (h : l ∈ dedent (lines cs)) : '\n' ∉ l := by
  obtain ⟨front, back, -, hlines⟩ := exists_surrounded (lines cs)
  obtain ⟨l, hl, rfl⟩ := List.mem_map.mp h
  have hmem : l ∈ lines cs := by
    rw [hlines]
    exact List.mem_append_left _ (List.mem_append_right _ hl)
  intro hfeed
  exact not_mem_of_mem_lines hmem
    ((isPrefix_trimEnd l).subset ((List.drop_suffix _ (trimEnd l)).subset hfeed))

/-- No line that is shown has an end that could be taken for that of a line, and the last one is not
empty. -/
theorem lines_normalizeBlock (raw : String) :
    lines (normalizeBlock raw).toList = dedent (lines raw.toList) := by
  rw [normalizeBlock_eq]
  by_cases hnil : dedent (lines raw.toList) = []
  · rw [hnil]
    rfl
  · have hdedented := dedented_dedent hnil
    apply lines_intercalate fun l => not_mem_of_mem_dedent
    · intro l hl hreturn
      have hblank := hdedented.ends l hl '\r' hreturn
      cases hblank
    · obtain ⟨last, hlast, hink⟩ := hdedented.last
      rw [hlast]
      intro hempty
      rw [Option.some.inj hempty] at hink
      cases hink

theorem dedent_dedent (ls : List (List Char)) : dedent (dedent ls) = dedent ls := by
  by_cases hnil : dedent ls = []
  · rw [hnil]
    rfl
  · exact (dedented_dedent hnil).dedent_eq

/-- What is shown of a text depends on what is left of its lines. -/
theorem normalizeBlock_congr {raw raw' : String}
    (h : dedent (lines raw'.toList) = dedent (lines raw.toList)) :
    normalizeBlock raw' = normalizeBlock raw := by
  rw [← String.toList_inj, normalizeBlock_eq, normalizeBlock_eq, h]

theorem normalizeBlock_eq_empty_iff (raw : String) :
    normalizeBlock raw = "" ↔ ∀ l ∈ lines raw.toList, allBlank l = true := by
  rw [← dedent_eq_nil_iff]
  constructor
  · intro hempty
    rw [← lines_normalizeBlock, hempty]
    rfl
  · intro hnil
    rw [← String.toList_inj, normalizeBlock_eq, hnil]
    rfl

/-! ### Indented texts -/

/-- The rest of a text, at the start of a line or inside one, with `p` in front of each line. -/
def indentFrom (p : List Char) : Bool → List Char → List Char
  | _, [] => []
  | start, c :: cs => (if start then p else []) ++ c :: indentFrom p (c == '\n') cs

/-- A text with `p` in front of each of its lines. A line feed at the very end opens no further one. -/
def indentLines (p cs : List Char) : List Char := indentFrom p true cs

theorem indentFrom_append (p : List Char) (h : '\n' ∉ line) (rest : List Char) :
    indentFrom p false (line ++ rest) = line ++ indentFrom p false rest := by
  induction line with
  | nil => rfl
  | cons c line ih =>
    rw [List.mem_cons, not_or] at h
    rw [List.cons_append, indentFrom, beq_false_of_ne (Ne.symm h.1), ih h.2]
    rfl

/-- The first line of a text, if there is something in it. -/
theorem indentLines_append_of_ne_nil (p : List Char) (h : '\n' ∉ line) (hne : line ≠ [])
    (rest : List Char) : indentLines p (line ++ rest) = p ++ line ++ indentFrom p false rest := by
  obtain ⟨c, line, rfl⟩ := List.exists_cons_of_ne_nil hne
  rw [List.mem_cons, not_or] at h
  rw [indentLines, List.cons_append, indentFrom, beq_false_of_ne (Ne.symm h.1),
    indentFrom_append p h.2, if_pos rfl, List.append_assoc]
  rfl

theorem indentLines_append (p : List Char) (h : '\n' ∉ line) (cs : List Char) :
    indentLines p (line ++ '\n' :: cs) = (p ++ line) ++ '\n' :: indentLines p cs := by
  by_cases hne : line = []
  · simp [hne, indentLines, indentFrom]
  · rw [indentLines_append_of_ne_nil p h hne]
    rfl

theorem indentLines_of_ne_nil (p : List Char) (h : '\n' ∉ line) (hne : line ≠ []) :
    indentLines p line = p ++ line := by
  have hline := indentLines_append_of_ne_nil p h hne []
  rwa [List.append_nil, indentFrom, List.append_nil] at hline

/-- The carriage return at the end of a line is not one of the characters in front of it. -/
theorem dropReturn_append (hp : IsIndentation p) (line : List Char) :
    dropReturn (p ++ line) = p ++ dropReturn line := by
  cases hline : line with
  | nil =>
    have hkept : p.getLast? ≠ some '\r' := fun hlast =>
      hp.not_mem (by decide) (by decide) (List.mem_of_getLast? hlast)
    rw [List.append_nil, dropReturn_eq_self hkept]
    exact (List.append_nil p).symm
  | cons c rest =>
    rw [← hline]
    have hne : line ≠ [] := by simp [hline]
    unfold dropReturn
    rw [List.getLast?_append_of_ne_nil _ hne, List.dropLast_append_of_ne_nil hne]
    split <;> rfl

/-- The lines of an indented text are its lines with the indentation, but for blanks at their ends; a
blank line may follow. -/
theorem exists_lines_indentLines (hp : IsIndentation p) (hq : IsIndentation q) (cs : List Char) :
    ∃ extra, (∀ l ∈ extra, allBlank l = true) ∧
      (lines (indentLines p cs ++ q)).map trimEnd =
        ((lines cs).map (p ++ ·) ++ extra).map trimEnd := by
  have hpfeed : '\n' ∉ p := hp.not_mem (by decide) (by decide)
  have hqfeed : '\n' ∉ q := hq.not_mem (by decide) (by decide)
  induction cs using linewise with
  | last line hline =>
    by_cases hempty : line = []
    · refine ⟨lines q, ?_, by rw [hempty]; rfl⟩
      intro l hl
      rw [lines_of_not_mem hqfeed] at hl
      split at hl
      · cases hl
      · rw [List.mem_singleton.mp hl]
        exact hq.allBlank_eq
    · have hone : '\n' ∉ p ++ line ++ q := by simp [hpfeed, hline, hqfeed]
      have hne : p ++ line ++ q ≠ [] := by simp [hempty]
      refine ⟨[], by simp, ?_⟩
      rw [indentLines_of_ne_nil p hline hempty, lines_of_ne_nil hone hne,
        lines_of_ne_nil hline hempty, List.append_nil, List.map_singleton, List.map_singleton,
        List.map_singleton, trimEnd_append_right hq.allBlank_eq]
  | more line cs hline ih =>
    obtain ⟨extra, hextra, hlines⟩ := ih
    have hone : '\n' ∉ p ++ line := by simp [hpfeed, hline]
    refine ⟨extra, hextra, ?_⟩
    rw [indentLines_append p hline, List.append_assoc, List.cons_append, lines_append hone,
      lines_append hline, dropReturn_append hp, List.map_cons, List.map_cons, List.cons_append,
      List.map_cons, hlines]

/-- What is put in front of every line is taken off again. -/
theorem dedent_indentLines (hp : IsIndentation p) (hq : IsIndentation q) (cs : List Char) :
    dedent (lines (indentLines p cs ++ q)) = dedent (lines cs) := by
  obtain ⟨extra, hextra, hlines⟩ := exists_lines_indentLines hp hq cs
  calc dedent (lines (indentLines p cs ++ q))
      = dedent ((lines (indentLines p cs ++ q)).map trimEnd) := (dedent_map_trimEnd _).symm
    _ = dedent (((lines cs).map (p ++ ·) ++ extra).map trimEnd) := by rw [hlines]
    _ = dedent ((lines cs).map (p ++ ·) ++ extra) := dedent_map_trimEnd _
    _ = dedent ((lines cs).map (p ++ ·)) := dedent_append hextra _
    _ = dedent (lines cs) := dedent_map_indented hp _

/-! ### The normal form -/

/-- **What is shown of a raw block is a normal form of its text. Nothing is shown exactly if all lines
are blank, and otherwise the text consists of dedented lines with line feeds between them. Showing it
again changes nothing, and spaces and tabs in front of all lines of the raw text, and at its end, make
no difference. The characters that are not white space are kept in order, and all lines with any of
them lose the same indentation.** -/
theorem normalizeBlock_normal (raw : String) :
    (normalizeBlock raw = "" ↔ ∀ l ∈ lines raw.toList, allBlank l = true) ∧
      let shown := lines (normalizeBlock raw).toList
      (normalizeBlock raw).toList = ['\n'].intercalate shown ∧
      (normalizeBlock raw = "" ∨ Dedented shown) ∧
      normalizeBlock (normalizeBlock raw) = normalizeBlock raw ∧
      (∀ p q, IsIndentation p → IsIndentation q →
        normalizeBlock (String.ofList (indentLines p raw.toList ++ q)) = normalizeBlock raw) ∧
      ink (normalizeBlock raw).toList = ink raw.toList ∧
      ∃ n, ((lines raw.toList).filter (!allBlank ·)).map indentOf =
        (shown.filter (!allBlank ·)).map (indentOf · + n) := by
  refine ⟨normalizeBlock_eq_empty_iff raw, ?_⟩
  intro shown
  have hshown : shown = dedent (lines raw.toList) := lines_normalizeBlock raw
  refine ⟨?_, ?_, ?_, ?_, ?_, ?_⟩
  · rw [hshown]
    exact normalizeBlock_eq raw
  · rw [normalizeBlock_eq_empty_iff, ← dedent_eq_nil_iff, hshown]
    exact or_iff_not_imp_left.mpr dedented_dedent
  · apply normalizeBlock_congr
    rw [lines_normalizeBlock, dedent_dedent]
  · intro p q hp hq
    apply normalizeBlock_congr
    rw [String.toList_ofList, dedent_indentLines hp hq]
  · rw [normalizeBlock_eq, ink_intercalate, flatMap_ink_dedent, ← ink_eq_flatMap]
  · rw [hshown]
    exact ⟨_, map_indentOf_dedent (lines raw.toList)⟩

/-- A block with a tab, spaces and both ends of lines, indented by a space and a tab. -/
theorem normalizeBlock_normal_indented :
    let raw := "\n\t  interface A \x7b\r\n\t    attribute long x;  \n \r\n   \x7d;\n"
    IsIndentation [' ', '\t'] ∧
      normalizeBlock raw = "interface A \x7b\n  attribute long x;\n\n\x7d;" ∧
      normalizeBlock (String.ofList (indentLines [' ', '\t'] raw.toList ++ [' ', '\t'])) =
        normalizeBlock raw := by
  intro raw
  have hp : IsIndentation [' ', '\t'] := by simp [IsIndentation]
  exact ⟨hp, by decide +kernel, (normalizeBlock_normal raw).2.2.2.2.1 _ _ hp hp⟩

end WebIdl.Text
