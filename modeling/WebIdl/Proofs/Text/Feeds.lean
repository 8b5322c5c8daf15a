import Mathlib.Data.List.Sort
import Mathlib.Data.Prod.Lex
import WebIdl.Proofs.Text.Position

/-!
# Positions count line feeds

The starts that are recorded for a text are 0 and the bytes just after its line feeds, in ascending
order. So the starts that an offset has reached are the first ones, one for each line feed before it
and the 0, and the position of the offset is told by those line feeds alone.

* `Text.FeedAt`, `Text.feedsBelow` — where the line feeds of a text stand.
* `Text.LineIndex.reached_eq` — the starts that an offset has reached.
* `Text.LineIndex.position_exact` — the line of an offset is the number of line feeds before it, the
  column is the distance from the byte after the last of them, and positions are ordered as offsets
  are.
-/

namespace WebIdl.Text

variable {source : String} {cs : List Char} {offset i n : Nat}

/-! ### Line feeds -/

/-- A line feed stands at byte `i` of the text. -/
def FeedAt (source : String) (i : Nat) : Prop := slice? source ⟨i, i + 1⟩ = some "\n"

instance (source : String) : DecidablePred (FeedAt source) :=
  fun i => inferInstanceAs (Decidable (slice? source ⟨i, i + 1⟩ = some "\n"))

theorem feedAt_iff :
    FeedAt source i ↔
      ∃ front back, source.toList = front ++ '\n' :: back ∧
        (String.ofList front).utf8ByteSize = i := by
  rw [FeedAt, slice?_eq_some_iff]
  constructor
  · rintro ⟨front, back, rfl, hstart, -⟩
    exact ⟨front.toList, back.toList, by simp, by simpa using hstart⟩
  · rintro ⟨front, back, hsource, hsize⟩
    refine ⟨String.ofList front, String.ofList back, ?_, hsize, ?_⟩
    · rw [← String.toList_inj, hsource]
      simp
    · rw [String.utf8ByteSize_append, hsize]
      rfl

/-- The bytes before an offset at which line feeds stand, in ascending order. -/
def feedsBelow (source : String) (offset : Nat) : List Nat :=
  (List.range offset).filter (FeedAt source ·)

/-- The byte just after the last of some line feeds, and 0 if there is none. -/
def afterLast (feeds : List Nat) : Nat := feeds.getLast?.elim 0 (· + 1)

theorem mem_feedsBelow : i ∈ feedsBelow source offset ↔ i < offset ∧ FeedAt source i := by
  simp [feedsBelow]

theorem pairwise_feedsBelow (source : String) (offset : Nat) :
    (feedsBelow source offset).Pairwise (· < ·) :=
  List.pairwise_lt_range.filter _

/-- A later offset has the same line feeds before it, and perhaps more after those. -/
theorem feedsBelow_prefix {offset' : Nat} (h : offset ≤ offset') :
    feedsBelow source offset <+: feedsBelow source offset' := by
  obtain ⟨more, rfl⟩ := Nat.exists_eq_add_of_le h
  rw [feedsBelow, feedsBelow, List.range_add, List.filter_append]
  exact List.prefix_append _ _

/-! ### Starts -/

theorem mem_startsAfter :
    n ∈ startsAfter offset cs ↔
      ∃ front back, cs = front ++ '\n' :: back ∧
        n = offset + (String.ofList front).utf8ByteSize + 1 := by
  induction cs using linewise generalizing offset with
  | last line hline =>
    rw [startsAfter_of_not_mem hline]
    constructor
    · exact nofun
    · rintro ⟨front, back, rfl, -⟩
      exact absurd (List.mem_append_right _ List.mem_cons_self) hline
  | more line cs hline ih =>
    rw [startsAfter_line hline, List.mem_cons, ih]
    constructor
    · rintro (rfl | ⟨front, back, rfl, rfl⟩)
      · exact ⟨line, cs, rfl, Nat.add_assoc .. |>.symm⟩
      · refine ⟨line ++ '\n' :: front, back, by simp, ?_⟩
        rw [utf8ByteSize_ofList_line]
        omega
    · rintro ⟨front, back, hcs, rfl⟩
      rcases List.append_eq_append_iff.mp hcs with ⟨mid, rfl, hmid⟩ | ⟨mid, rfl, hmid⟩
      · -- the line feed stands after the first one, or is the first one
        cases mid with
        | nil => exact .inl (by simp; omega)
        | cons c mid =>
          obtain ⟨rfl, rfl⟩ := List.cons.inj hmid
          refine .inr ⟨mid, back, rfl, ?_⟩
          rw [utf8ByteSize_ofList_line]
          omega
      · cases mid with
        | nil => exact .inl (by simp; omega)
        | cons c mid =>
          obtain ⟨rfl, -⟩ := List.cons.inj hmid
          exact absurd (List.mem_append_right _ List.mem_cons_self) hline

theorem pairwise_startsAfter (offset : Nat) (cs : List Char) :
    (startsAfter offset cs).Pairwise (· < ·) := by
  induction cs using linewise generalizing offset with
  | last line hline =>
    rw [startsAfter_of_not_mem hline]
    exact .nil
  | more line cs hline ih =>
    rw [startsAfter_line hline]
    refine List.pairwise_cons.mpr ⟨?_, ih _⟩
    intro n hn
    obtain ⟨front, back, -, rfl⟩ := mem_startsAfter.mp hn
    omega

namespace LineIndex

/-- Lines start at 0 and after the line feeds. -/
theorem mem_starts : n ∈ (ofText source).starts ↔ n = 0 ∨ ∃ i, FeedAt source i ∧ n = i + 1 := by
  rw [ofText, List.mem_cons, mem_startsAfter]
  apply or_congr_right
  constructor
  · rintro ⟨front, back, hsource, rfl⟩
    exact ⟨_, feedAt_iff.mpr ⟨front, back, hsource, rfl⟩, by omega⟩
  · rintro ⟨i, hi, rfl⟩
    obtain ⟨front, back, hsource, rfl⟩ := feedAt_iff.mp hi
    exact ⟨front, back, hsource, by omega⟩

theorem pairwise_starts (source : String) : (ofText source).starts.Pairwise (· < ·) := by
  refine List.pairwise_cons.mpr ⟨?_, pairwise_startsAfter 0 _⟩
  intro n hn
  obtain ⟨front, back, -, rfl⟩ := mem_startsAfter.mp hn
  omega

/-- The starts that an offset has reached: that of the text and one for each line feed before it. -/
theorem reached_eq (source : String) (offset : Nat) :
    (ofText source).starts.filter (· ≤ offset) =
      0 :: (feedsBelow source offset).map (· + 1) := by
  have hfeeds : (0 :: (feedsBelow source offset).map (· + 1)).Pairwise (· < ·) := by
    refine List.pairwise_cons.mpr ⟨?_, ?_⟩
    · intro n hn
      obtain ⟨i, -, rfl⟩ := List.mem_map.mp hn
      exact Nat.succ_pos i
    · exact List.pairwise_map.mpr
        ((pairwise_feedsBelow source offset).imp (fun h => Nat.succ_lt_succ h))
  -- both lists ascend, so it is enough that they have the same members
  refine ((pairwise_starts source).filter _).eq_of_mem_iff hfeeds ?_
  intro n
  rw [List.mem_filter, mem_starts, decide_eq_true_iff, List.mem_cons, List.mem_map]
  constructor
  · rintro ⟨rfl | ⟨i, hi, rfl⟩, hle⟩
    · exact .inl rfl
    · exact .inr ⟨i, mem_feedsBelow.mpr ⟨hle, hi⟩, rfl⟩
  · rintro (rfl | ⟨i, hi, rfl⟩)
    · exact ⟨.inl rfl, Nat.zero_le _⟩
    · obtain ⟨hlt, hi⟩ := mem_feedsBelow.mp hi
      exact ⟨.inr ⟨i, hi, rfl⟩, hlt⟩

/-- The starts reached come before all others, so a search by halves finds where they end. -/
theorem reached_eq_take (source : String) (offset : Nat) :
    (ofText source).starts.filter (· ≤ offset) =
      (ofText source).starts.take ((ofText source).starts.filter (· ≤ offset)).length := by
  have hsorted := pairwise_starts source
  generalize (ofText source).starts = starts at hsorted
  induction starts with
  | nil => rfl
  | cons start starts ih =>
    obtain ⟨hbelow, hsorted⟩ := List.pairwise_cons.mp hsorted
    by_cases hle : start ≤ offset
    · rw [List.filter_cons_of_pos (by simpa using hle), List.length_cons, List.take_succ_cons]
      exact congrArg _ (ih hsorted)
    · have hnone : (start :: starts).filter (· ≤ offset) = [] := by
        rw [List.filter_eq_nil_iff]
        rintro n hn
        rcases List.mem_cons.mp hn with rfl | hn
        · simpa using hle
        · have := hbelow n hn
          simp only [decide_eq_true_eq]
          omega
      rw [hnone]
      rfl

/-! ### Positions -/

theorem line_position (source : String) (offset : Nat) :
    ((ofText source).position offset).line = (feedsBelow source offset).length := by
  simp only [position, reached_eq, List.length_cons, List.length_map, Nat.add_sub_cancel]

theorem afterLast_feedsBelow_le (source : String) (offset : Nat) :
    afterLast (feedsBelow source offset) ≤ offset := by
  rw [afterLast]
  cases hlast : (feedsBelow source offset).getLast? with
  | none => exact Nat.zero_le offset
  | some i => exact (mem_feedsBelow.mp (List.mem_of_getLast? hlast)).1

theorem column_position (source : String) (offset : Nat) :
    ((ofText source).position offset).column + afterLast (feedsBelow source offset) = offset := by
  have hstart : (0 :: (feedsBelow source offset).map (· + 1)).getLast?.getD 0 =
      afterLast (feedsBelow source offset) := by
    rw [List.getLast?_cons, List.getLast?_map, Option.getD_some, afterLast]
    cases (feedsBelow source offset).getLast? <;> rfl
  simp only [position, reached_eq, hstart]
  exact Nat.sub_add_cancel (afterLast_feedsBelow_le source offset)

/-- A later offset is on a later line, or on the same line in a later column. -/
theorem position_lt_position {offset' : Nat} (h : offset < offset') :
    ((ofText source).position offset).line < ((ofText source).position offset').line ∨
      ((ofText source).position offset).line = ((ofText source).position offset').line ∧
        ((ofText source).position offset).column < ((ofText source).position offset').column := by
  have hfront : feedsBelow source offset <+: feedsBelow source offset' :=
    feedsBelow_prefix (Nat.le_of_lt h)
  rw [line_position, line_position]
  rcases Nat.lt_or_eq_of_le hfront.length_le with hlt | heq
  · exact .inl hlt
  · have hcolumn := column_position source offset
    rw [hfront.eq_of_length heq] at hcolumn
    have hcolumn' := column_position source offset'
    exact .inr ⟨heq, by omega⟩

/-- **Positions are exact.** The line of an offset, also of one past the end, is the number of line
feeds before it, and its column is the distance from the byte just after the last of them, which is
not past it. The starts that it has reached are as many as come first among all. Positions go by
line and then by column in the order of the offsets. -/
theorem position_exact (source : String) :
    let index := ofText source
    (∀ offset,
      let p := index.position offset
      let feeds := feedsBelow source offset
      p.line = feeds.length ∧ p.column + afterLast feeds = offset ∧
        index.starts.filter (· ≤ offset) = index.starts.take (p.line + 1)) ∧
    ∀ offset offset',
      let p := index.position offset
      let p' := index.position offset'
      toLex (p.line, p.column) < toLex (p'.line, p'.column) ↔ offset < offset' := by
  intro index
  refine ⟨fun offset => ⟨line_position source offset, column_position source offset, ?_⟩, ?_⟩
  · have hcount : (index.starts.filter (· ≤ offset)).length =
        (index.position offset).line + 1 := by
      rw [line_position, reached_eq, List.length_cons, List.length_map]
    rw [← hcount]
    exact reached_eq_take source offset
  · intro offset offset' p p'
    rw [Prod.Lex.toLex_lt_toLex]
    constructor
    · intro h
      by_contra hle
      rcases Nat.lt_or_eq_of_le (Nat.le_of_not_lt hle) with hlt | heq
      · have hback : p'.line < p.line ∨ p'.line = p.line ∧ p'.column < p.column :=
          position_lt_position hlt
        simp only at h
        omega
      · have hsame : p' = p := congrArg index.position heq
        rw [hsame] at h
        simp only at h
        omega
    · exact position_lt_position

end LineIndex

end WebIdl.Text
