import WebIdl.Proofs.Text.Position

/-!
# The line above the caret

An excerpt ends in a caret under the column of a position. Above it stands the line of the position,
after up to two lines before it, unless that line is an empty one at the very end of the text: no
line is shown for it, and the caret stands under the line before.

* `Text.framed` — lines above a caret.
* `Text.excerpt_eq` — the lines that an excerpt shows.
* `Text.excerpt_position_iff` — the line above the caret is that of the position, unless the position
  is at the end of a text whose last line is empty.
-/

namespace WebIdl.Text

/-- Lines, each with a line feed after it, above a caret. -/
def framed (shown : List (List Char)) (column : Nat) : String :=
  String.join (shown.map fun line => String.ofList line ++ "\n") ++ "".pushn ' ' column ++ "^ "

/-- The lines before a line, of which no more than two are shown with it. -/
def above (all : List (List Char)) (line : Nat) : List (List Char) :=
  (all.take line).drop (line - 2)

/-- One line more makes a longer text. -/
theorem framed_append_ne (shown : List (List Char)) (line : List Char) (column : Nat) :
    framed (shown ++ [line]) column ≠ framed shown column := by
  intro h
  have hsize := congrArg String.utf8ByteSize h
  simp only [framed, List.map_append, List.map_cons, List.map_nil, String.join_append,
    String.join_cons, String.join_nil, String.utf8ByteSize_append] at hsize
  have hfeed : "\n".utf8ByteSize = 1 := rfl
  omega

variable {source : String} {p : Position}

/-- A line and those above it are what is cut from the lines of a text. -/
theorem above_append {all : List (List Char)} {n : Nat} {line : List Char}
    (h : all[n]? = some line) : above all n ++ [line] = (all.take (n + 1)).drop (n - 2) := by
  have hn : n < all.length := (List.getElem?_eq_some_iff.mp h).1
  rw [above, List.take_add_one, h, Option.toList_some, List.drop_append_of_le_length]
  rw [List.length_take]
  omega

/-- The lines of an excerpt: the line of the position is missing if it is empty and the last. -/
theorem excerpt_eq {line : List Char} (h : (allLines source.toList)[p.line]? = some line) :
    excerpt source p =
      if EndsEmpty source.toList ∧ p.line + 1 = (allLines source.toList).length then
        framed (above (allLines source.toList) p.line) p.column
      else framed (above (allLines source.toList) p.line ++ [line]) p.column := by
  have hlines := allLines_eq source.toList
  have hlt : p.line < (allLines source.toList).length := (List.getElem?_eq_some_iff.mp h).1
  rw [above_append h]
  unfold excerpt framed above
  split
  · rename_i hlast
    obtain ⟨hends, hlength⟩ := hlast
    rw [if_pos hends] at hlines
    rw [hlines, List.length_append, List.length_singleton, Nat.add_right_cancel_iff] at hlength
    rw [hlines, hlength, List.take_left' rfl, List.take_of_length_le (Nat.le_succ _)]
  · rename_i hlast
    by_cases hends : EndsEmpty source.toList
    · have hne : p.line + 1 ≠ (allLines source.toList).length := fun heq => hlast ⟨hends, heq⟩
      rw [if_pos hends] at hlines
      rw [hlines, List.length_append, List.length_singleton] at hlt hne
      rw [hlines, List.take_append_of_le_length (by omega)]
    · rw [if_neg hends] at hlines
      rw [hlines]

/-- **The line above the caret of an excerpt is the line of the position, and up to two lines stand
before it, unless the offset is at the end of a text whose last line is empty: then that line is not
shown, and the line above the caret is the one before.** -/
theorem excerpt_position_iff (source : String) (offset : Nat) :
    let p := (LineIndex.ofText source).position offset
    let all := allLines source.toList
    let AtEnd := EndsEmpty source.toList ∧ source.utf8ByteSize ≤ offset
    ∃ line, all[p.line]? = some line ∧
      (excerpt source p = framed (above all p.line ++ [line]) p.column ↔ ¬AtEnd) ∧
      (excerpt source p = framed (above all p.line) p.column ↔ AtEnd) := by
  intro p all AtEnd
  have hlt : p.line < all.length := by
    have h := LineIndex.line_lt_length source.toList offset
    rwa [String.ofList_toList] at h
  have hline : all[p.line]? = some all[p.line] := List.getElem?_eq_getElem hlt
  have hatEnd : (EndsEmpty source.toList ∧ p.line + 1 = all.length) ↔ AtEnd := by
    apply and_congr_right
    intro hends
    have h := LineIndex.isLast_iff hends offset
    rwa [String.ofList_toList] at h
  have hexcerpt : excerpt source p =
      if EndsEmpty source.toList ∧ p.line + 1 = all.length then framed (above all p.line) p.column
      else framed (above all p.line ++ [all[p.line]]) p.column := excerpt_eq hline
  have hne := framed_append_ne (above all p.line) all[p.line] p.column
  refine ⟨all[p.line], hline, ?_⟩
  rw [← hatEnd]
  by_cases hlast : EndsEmpty source.toList ∧ p.line + 1 = all.length
  · rw [if_pos hlast] at hexcerpt
    rw [hexcerpt]
    exact ⟨iff_of_false hne.symm (not_not_intro hlast), iff_of_true rfl hlast⟩
  · rw [if_neg hlast] at hexcerpt
    rw [hexcerpt]
    exact ⟨iff_of_true rfl hlast, iff_of_false hne hlast⟩

/-- The text ends after its only line feed, which opens another line. The caret belongs to that line,
but stands right under the first one. -/
theorem excerpt_position_ne :
    let source := "interface A\n"
    let p := (LineIndex.ofText source).position 12
    let all := allLines source.toList
    12 ≤ source.utf8ByteSize ∧ p = ⟨1, 0⟩ ∧ all = ["interface A".toList, []] ∧
      excerpt source p = "interface A\n^ " ∧
      excerpt source p ≠ framed (above all p.line ++ [[]]) p.column := by
  decide +kernel

end WebIdl.Text
