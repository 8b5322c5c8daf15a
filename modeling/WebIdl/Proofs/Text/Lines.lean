import WebIdl.Text.Blank

/-!
# Lines of a text

A text is a row of lines with line feeds between them, so facts about it go by induction on its
lines (`Text.linewise`): it is one line, or a line, a line feed and another text. What is shown as
the lines of a text is these, without the carriage returns at their ends and, at the very end,
without an empty line.

* `Text.splitLines_eq_splitOn` — the pieces between line feeds are those of the library.
* `Text.lines_append`, `Text.lines_of_not_mem` — the lines of a text, one by one.
* `Text.allLines` — the lines with the empty one that a final line feed opens;
  `Text.allLines_eq` says when this is one more.
* `Text.lines_intercalate` — lines that are joined by line feeds are read back.
-/

namespace WebIdl.Text

variable {cs line : List Char}

/-! ### Pieces between line feeds -/

theorem splitLines_eq_splitOn (cs : List Char) : splitLines cs = cs.splitOn '\n' := by
  induction cs with
  | nil => rfl
  | cons c cs ih =>
    rw [List.splitOn_cons_eq_if_modifyHead, splitLines, ih]
    by_cases hc : c = '\n'
    · simp [hc]
    · cases h : cs.splitOn '\n' with
      | nil => exact absurd h (List.splitOn_ne_nil _ _)
      | cons line rest => simp [hc]

theorem splitLines_ne_nil (cs : List Char) : splitLines cs ≠ [] := by
  rw [splitLines_eq_splitOn]
  exact List.splitOn_ne_nil _ _

theorem splitLines_of_not_mem (h : '\n' ∉ line) : splitLines line = [line] := by
  rw [splitLines_eq_splitOn]
  exact List.splitOn_eq_singleton h

theorem splitLines_append (h : '\n' ∉ line) (cs : List Char) :
    splitLines (line ++ '\n' :: cs) = line :: splitLines cs := by
  rw [splitLines_eq_splitOn, splitLines_eq_splitOn]
  exact List.splitOn_append_cons_self_of_not_mem h cs

/-- Induction on the lines of a text. -/
theorem linewise {motive : List Char → Prop} (last : ∀ line, '\n' ∉ line → motive line)
    (more : ∀ line cs, '\n' ∉ line → motive cs → motive (line ++ '\n' :: cs)) (cs : List Char) :
    motive cs := by
  -- a character in front of a text belongs to its first line, so that line is left open
  suffices h : ∀ line, '\n' ∉ line → motive (line ++ cs) from h [] List.not_mem_nil
  induction cs with
  | nil =>
    intro line hline
    rw [List.append_nil]
    exact last line hline
  | cons c cs ih =>
    intro line hline
    by_cases hc : c = '\n'
    · subst hc
      exact more line cs hline (ih [] List.not_mem_nil)
    · have hlonger : '\n' ∉ line ++ [c] := by simp [hline, Ne.symm hc]
      have hmotive := ih (line ++ [c]) hlonger
      rwa [List.append_assoc] at hmotive

/-! ### Lines one by one -/

theorem lines_of_not_mem (h : '\n' ∉ line) : lines line = if line.isEmpty then [] else [line] := by
  rw [lines, splitLines_of_not_mem h, closeLines]

theorem lines_of_ne_nil (h : '\n' ∉ line) (hne : line ≠ []) : lines line = [line] := by
  rw [lines_of_not_mem h, if_neg (mt List.isEmpty_iff.mp hne)]

theorem lines_append (h : '\n' ∉ line) (cs : List Char) :
    lines (line ++ '\n' :: cs) = dropReturn line :: lines cs := by
  rw [lines, splitLines_append h, lines]
  cases hrest : splitLines cs with
  | nil => exact absurd hrest (splitLines_ne_nil cs)
  | cons next rest => rfl

theorem isPrefix_dropReturn (line : List Char) : dropReturn line <+: line := by
  unfold dropReturn
  split
  · exact List.dropLast_prefix line
  · exact List.prefix_refl line

theorem not_mem_of_mem_lines {l : List Char} (h : l ∈ lines cs) : '\n' ∉ l := by
  induction cs using linewise with
  | last line hline =>
    rw [lines_of_not_mem hline] at h
    split at h
    · cases h
    · rwa [List.mem_singleton.mp h]
  | more line cs hline ih =>
    rw [lines_append hline] at h
    rcases List.mem_cons.mp h with rfl | h
    · exact fun hmem => hline ((isPrefix_dropReturn line).subset hmem)
    · exact ih h

/-- A line that keeps its end. -/
theorem dropReturn_eq_self (h : line.getLast? ≠ some '\r') : dropReturn line = line := if_neg h

/-- Lines that have no ends of their own are read back from the text that they make up, unless the
last one is empty. -/
theorem lines_intercalate {ls : List (List Char)} (hfeed : ∀ l ∈ ls, '\n' ∉ l)
    (hreturn : ∀ l ∈ ls, l.getLast? ≠ some '\r') (hlast : ls.getLast? ≠ some []) :
    lines (['\n'].intercalate ls) = ls := by
  induction ls with
  | nil => rfl
  | cons l ls ih =>
    have hl : '\n' ∉ l := hfeed l List.mem_cons_self
    cases ls with
    | nil =>
      have hne : l ≠ [] := by simpa using hlast
      rw [List.intercalate_singleton, lines_of_ne_nil hl hne]
    | cons next rest =>
      rw [List.getLast?_cons_cons] at hlast
      have hrest := ih (fun l hmem => hfeed l (List.mem_cons_of_mem _ hmem))
        (fun l hmem => hreturn l (List.mem_cons_of_mem _ hmem)) hlast
      rw [List.intercalate_cons_cons, List.append_assoc, List.singleton_append, lines_append hl,
        dropReturn_eq_self (hreturn l List.mem_cons_self), hrest]

/-! ### The last line -/

/-- The pieces between line feeds as lines, of which the last may be empty. -/
def closeAll : List (List Char) → List (List Char)
  | [] => []
  | [last] => [last]
  | line :: rest => dropReturn line :: closeAll rest

/-- All lines of a text without their ends: a line feed at the very end opens one more, which is
empty, and a text without characters is one empty line. -/
def allLines (cs : List Char) : List (List Char) := closeAll (splitLines cs)

/-- The last line is empty: nothing stands after the last line feed, if there is one. -/
def EndsEmpty (cs : List Char) : Prop := ∀ c ∈ cs.getLast?, c = '\n'

instance (cs : List Char) : Decidable (EndsEmpty cs) :=
  inferInstanceAs (Decidable (∀ c ∈ cs.getLast?, c = '\n'))

theorem allLines_of_not_mem (h : '\n' ∉ line) : allLines line = [line] := by
  rw [allLines, splitLines_of_not_mem h, closeAll]

theorem allLines_append (h : '\n' ∉ line) (cs : List Char) :
    allLines (line ++ '\n' :: cs) = dropReturn line :: allLines cs := by
  rw [allLines, splitLines_append h, allLines]
  cases hrest : splitLines cs with
  | nil => exact absurd hrest (splitLines_ne_nil cs)
  | cons next rest => rfl

theorem endsEmpty_iff_of_not_mem (h : '\n' ∉ line) : EndsEmpty line ↔ line = [] := by
  constructor
  · intro hends
    cases hlast : line.getLast? with
    | none => exact List.getLast?_eq_none_iff.mp hlast
    | some c =>
      obtain rfl := hends c hlast
      exact absurd (List.mem_of_getLast? hlast) h
  · rintro rfl
    simp [EndsEmpty]

theorem endsEmpty_append (line cs : List Char) :
    EndsEmpty (line ++ '\n' :: cs) ↔ EndsEmpty cs := by
  rw [EndsEmpty, EndsEmpty, List.getLast?_append, List.getLast?_cons]
  cases cs.getLast? <;> simp

theorem allLines_eq (cs : List Char) :
    allLines cs = if EndsEmpty cs then lines cs ++ [[]] else lines cs := by
  induction cs using linewise with
  | last line hline =>
    rw [allLines_of_not_mem hline, lines_of_not_mem hline]
    simp only [endsEmpty_iff_of_not_mem hline]
    by_cases hempty : line = [] <;> simp [hempty]
  | more line cs hline ih =>
    rw [allLines_append hline, lines_append hline, ih]
    simp only [endsEmpty_append]
    split <;> rfl

end WebIdl.Text
