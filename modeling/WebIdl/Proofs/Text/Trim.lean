import Mathlib.Data.List.Basic
import WebIdl.Text.Blank

/-!
# Blanks at the end of a text

What is trimmed from the end of a text is blank, so a text keeps its ink: the characters that are not
white space, in their order.

* `Text.exists_blanks_of_trimEnd`, `Text.trimEnd_append_blanks` — a text is what is left of it, and
  blanks.
* `Text.ink` — what there is to see of a text; `Text.ink_trimEnd` says that trimming keeps it.
* `Text.trimEnd_append` — what stands in front of a text that is not blank is not trimmed.
-/

namespace WebIdl.Text

variable {cs w blanks : List Char}

theorem trimEnd_append_blanks (hblanks : allBlank blanks = true)
    (hw : ∀ c, w.getLast? = some c → isBlank c = false) : trimEnd (w ++ blanks) = w := by
  have hall : ∀ c ∈ blanks.reverse, isBlank c = true := fun c hc =>
    List.all_eq_true.mp hblanks c (List.mem_reverse.mp hc)
  rw [trimEnd, List.reverse_append, List.dropWhile_append_of_pos hall]
  cases hlast : w.reverse with
  | nil => simpa using hlast.symm
  | cons c rest =>
    have hc : isBlank c = false := hw c (by rw [List.getLast?_eq_head?_reverse, hlast]; rfl)
    rw [List.dropWhile_cons_of_neg (by simp [hc]), ← hlast, List.reverse_reverse]

theorem exists_blanks_of_trimEnd (cs : List Char) :
    ∃ blanks, allBlank blanks = true ∧ cs = trimEnd cs ++ blanks := by
  refine ⟨(cs.reverse.takeWhile isBlank).reverse, ?_, ?_⟩
  · rw [allBlank, List.all_reverse]
    exact List.all_takeWhile
  · rw [trimEnd, ← List.reverse_append, List.takeWhile_append_dropWhile, List.reverse_reverse]

theorem trimEnd_trimEnd (cs : List Char) : trimEnd (trimEnd cs) = trimEnd cs :=
  trimEnd_eq_self_iff.mpr fun _ => isBlank_getLast?_trimEnd

/-! ### Ink -/

/-- The characters of a text that are not white space. -/
def ink (cs : List Char) : List Char := cs.filter (!isBlank ·)

@[simp] theorem ink_append (cs ds : List Char) : ink (cs ++ ds) = ink cs ++ ink ds :=
  List.filter_append ..

theorem allBlank_iff : allBlank cs = true ↔ ink cs = [] := by
  rw [allBlank, ink, List.all_eq_true, List.filter_eq_nil_iff]
  simp only [Bool.not_eq_true', Bool.not_eq_false]

/-- Texts with the same ink are blank together. -/
theorem allBlank_congr {ds : List Char} (h : ink cs = ink ds) : allBlank cs = allBlank ds := by
  rw [Bool.eq_iff_iff, allBlank_iff, allBlank_iff, h]

@[simp] theorem ink_trimEnd (cs : List Char) : ink (trimEnd cs) = ink cs := by
  obtain ⟨blanks, hblanks, hcs⟩ := exists_blanks_of_trimEnd cs
  conv_rhs => rw [hcs, ink_append, allBlank_iff.mp hblanks, List.append_nil]

@[simp] theorem allBlank_trimEnd (cs : List Char) : allBlank (trimEnd cs) = allBlank cs :=
  allBlank_congr (ink_trimEnd cs)

theorem trimEnd_eq_nil_of_allBlank (h : allBlank cs = true) : trimEnd cs = [] :=
  trimEnd_append_blanks (w := []) h (by simp)

/-- Blanks that follow a text are trimmed with those at its end. -/
theorem trimEnd_append_right (h : allBlank blanks = true) (cs : List Char) :
    trimEnd (cs ++ blanks) = trimEnd cs := by
  obtain ⟨trimmed, htrimmed, hcs⟩ := exists_blanks_of_trimEnd cs
  have hall : allBlank (trimmed ++ blanks) = true := by
    rw [allBlank_iff, ink_append, allBlank_iff.mp htrimmed, allBlank_iff.mp h, List.append_nil]
  conv_lhs => rw [hcs, List.append_assoc]
  exact trimEnd_append_blanks hall fun _ => isBlank_getLast?_trimEnd

/-- Blanks in front of a text that is not blank stay. -/
theorem trimEnd_append (front : List Char) (h : allBlank cs = false) :
    trimEnd (front ++ cs) = front ++ trimEnd cs := by
  obtain ⟨blanks, hblanks, hcs⟩ := exists_blanks_of_trimEnd cs
  have hne : trimEnd cs ≠ [] := by
    intro hnil
    rw [← allBlank_trimEnd, hnil] at h
    cases h
  have hlast : ∀ c, (front ++ trimEnd cs).getLast? = some c → isBlank c = false := by
    intro c hc
    rw [List.getLast?_append_of_ne_nil _ hne] at hc
    exact isBlank_getLast?_trimEnd hc
  conv_lhs => rw [hcs, ← List.append_assoc]
  exact trimEnd_append_blanks hblanks hlast

end WebIdl.Text
