import WebIdl.Proofs.Text.Lines
import WebIdl.Proofs.Text.Slice
import WebIdl.Text.Position

/-!
# Positions, line by line

A position is found among the starts of all lines at once, but it can also be found by going through
the lines: an offset that is not past the first line is in it, and any other is in the text after it
(`Text.LineIndex.position_append`). Facts about positions go by induction on the lines from there.

* `Text.LineIndex.line_lt_length` — the line of a position is one of the text.
* `Text.LineIndex.isLast_iff` — when it is the last one, in a text whose last line is empty.
-/

namespace WebIdl.Text

variable {cs line : List Char}

/-! ### Starts of lines -/

theorem startsAfter_add (k offset : Nat) (cs : List Char) :
    startsAfter (k + offset) cs = (startsAfter offset cs).map (k + ·) := by
  induction cs generalizing offset with
  | nil => rfl
  | cons c cs ih =>
    rw [startsAfter, startsAfter, Nat.add_assoc, ih]
    split <;> rfl

/-- No line starts inside another. -/
theorem startsAfter_append (h : '\n' ∉ line) (offset : Nat) (rest : List Char) :
    startsAfter offset (line ++ rest) =
      startsAfter (offset + (String.ofList line).utf8ByteSize) rest := by
  induction line generalizing offset with
  | nil => rfl
  | cons c line ih =>
    rw [List.mem_cons, not_or] at h
    rw [List.cons_append, startsAfter, if_neg (Ne.symm h.1), ih h.2, utf8ByteSize_ofList_cons,
      Nat.add_assoc]

theorem startsAfter_of_not_mem (h : '\n' ∉ line) (offset : Nat) : startsAfter offset line = [] := by
  have hstarts := startsAfter_append h offset []
  rwa [List.append_nil] at hstarts

theorem startsAfter_line (h : '\n' ∉ line) (offset : Nat) (cs : List Char) :
    startsAfter offset (line ++ '\n' :: cs) =
      (offset + ((String.ofList line).utf8ByteSize + 1)) ::
        startsAfter (offset + ((String.ofList line).utf8ByteSize + 1)) cs := by
  rw [startsAfter_append h, startsAfter, if_pos rfl, ← Nat.add_assoc]
  rfl

/-- The bytes of a line with the line feed after it. -/
theorem utf8ByteSize_ofList_line (line cs : List Char) :
    (String.ofList (line ++ '\n' :: cs)).utf8ByteSize =
      ((String.ofList line).utf8ByteSize + 1) + (String.ofList cs).utf8ByteSize := by
  rw [String.ofList_append, String.utf8ByteSize_append, utf8ByteSize_ofList_cons, Nat.add_assoc]
  rfl

/-! ### Positions -/

namespace LineIndex

theorem position_of_not_mem (h : '\n' ∉ line) (offset : Nat) :
    (ofText (String.ofList line)).position offset = ⟨0, offset⟩ := by
  simp [ofText, position, startsAfter_of_not_mem h]

/-- Starts that are moved on by `k` are reached by the offsets that are moved with them. -/
theorem filter_map_add (starts : List Nat) (k offset : Nat) (h : k ≤ offset) :
    (starts.map (k + ·)).filter (· ≤ offset) =
      (starts.filter (· ≤ offset - k)).map (k + ·) := by
  rw [List.filter_map]
  congr 2
  funext start
  simp only [Function.comp_apply]
  exact decide_eq_decide.mpr (by omega)

/-- An offset before `k` reaches none of them. -/
theorem filter_map_add_of_lt (starts : List Nat) {k offset : Nat} (h : offset < k) :
    (starts.map (k + ·)).filter (· ≤ offset) = [] := by
  rw [List.filter_eq_nil_iff]
  intro start hstart
  obtain ⟨n, -, rfl⟩ := List.mem_map.mp hstart
  simp only [decide_eq_true_eq]
  omega

/-- **The position of an offset, one line at a time.** -/
theorem position_append (h : '\n' ∉ line) (cs : List Char) (offset : Nat) :
    (ofText (String.ofList (line ++ '\n' :: cs))).position offset =
      if offset ≤ (String.ofList line).utf8ByteSize then ⟨0, offset⟩
      else
        let p := (ofText (String.ofList cs)).position
          (offset - ((String.ofList line).utf8ByteSize + 1))
        ⟨p.line + 1, p.column⟩ := by
  have hstarts : (ofText (String.ofList (line ++ '\n' :: cs))).starts =
      0 :: (ofText (String.ofList cs)).starts.map
        (((String.ofList line).utf8ByteSize + 1) + ·) := by
    rw [ofText, ofText, String.toList_ofList, String.toList_ofList, startsAfter_line h,
      Nat.zero_add, List.map_cons, ← startsAfter_add, Nat.add_zero]
  generalize hk : (String.ofList line).utf8ByteSize + 1 = k at hstarts ⊢
  have hsize : offset ≤ (String.ofList line).utf8ByteSize ↔ offset < k := by omega
  rw [position, hstarts, List.filter_cons_of_pos (by simp)]
  simp only [hsize]
  split
  · rename_i hlt
    rw [filter_map_add_of_lt _ hlt]
    rfl
  · rename_i hge
    rw [filter_map_add _ _ _ (Nat.le_of_not_lt hge)]
    -- the text after the line starts at 0, so it has a start that is reached
    have hfirst : (ofText (String.ofList cs)).starts.filter (· ≤ offset - k) =
        0 :: (startsAfter 0 cs).filter (· ≤ offset - k) := by
      rw [ofText, String.toList_ofList, List.filter_cons_of_pos (by simp)]
    rw [position, hfirst]
    generalize (startsAfter 0 cs).filter (· ≤ offset - k) = reached
    simp only [List.map_cons, List.length_cons, List.length_map, List.getLast?_map,
      List.getLast?_cons, Option.getD_some]
    congr 1
    cases reached.getLast? <;> exact Nat.sub_add_eq ..

/-- The line of a position is a line of the text. -/
theorem line_lt_length (cs : List Char) (offset : Nat) :
    ((ofText (String.ofList cs)).position offset).line < (allLines cs).length := by
  induction cs using linewise generalizing offset with
  | last line hline =>
    rw [position_of_not_mem hline, allLines_of_not_mem hline]
    exact Nat.zero_lt_one
  | more line cs hline ih =>
    rw [position_append hline, allLines_append hline, List.length_cons]
    split
    · exact Nat.succ_pos _
    · exact Nat.succ_lt_succ (ih _)

/-- An empty last line is reached only at the end of the text. -/
theorem isLast_iff (hends : EndsEmpty cs) (offset : Nat) :
    ((ofText (String.ofList cs)).position offset).line + 1 = (allLines cs).length ↔
      (String.ofList cs).utf8ByteSize ≤ offset := by
  induction cs using linewise generalizing offset with
  | last line hline =>
    rw [position_of_not_mem hline, allLines_of_not_mem hline]
    obtain rfl := (endsEmpty_iff_of_not_mem hline).mp hends
    simp
  | more line cs hline ih =>
    have hpos : 0 < (allLines cs).length := Nat.zero_lt_of_lt (line_lt_length cs 0)
    have hrest := ih ((endsEmpty_append line cs).mp hends)
      (offset - ((String.ofList line).utf8ByteSize + 1))
    rw [position_append hline, allLines_append hline, List.length_cons, utf8ByteSize_ofList_line]
    split
    · simp only
      omega
    · simp only [Nat.add_right_cancel_iff]
      rw [hrest]
      omega

end LineIndex

end WebIdl.Text
