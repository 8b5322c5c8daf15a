import Mathlib.Data.List.TakeWhile
import WebIdl.Host
import WebIdl.Proofs.Text.Lines
import WebIdl.Proofs.Text.Trim

/-!
# Dedented lines

The lines of a raw block are brought into a form that does not depend on how the block is indented:
the lines from the first that is not blank to the last, each with less in front of it and nothing
blank behind it.

* `Text.Surrounded` — lines between blank ones; `Text.exists_surrounded` takes any lines apart so.
* `Text.commonIndent_eq_iff` — the common indentation is the least one.
* `Text.dedent` — what is left of lines.
* `Text.Dedented`, `Text.dedented_dedent`, `Text.Dedented.dedent_eq` — the form that this has, and
  that nothing is left off lines in it.
* `Text.dedent_map` — lines that are changed alike have the same left of them.
* `Text.flatMap_ink_dedent`, `Text.map_indentOf_dedent` — what is kept of the lines.
-/

namespace WebIdl.Text

variable {ls front body back : List (List Char)} {l p q : List Char}

/-! ### Blank lines at the ends -/

/-- Blank lines around others, of which the first and the last are not blank. -/
structure Surrounded (front body back : List (List Char)) : Prop where
  front : ∀ l ∈ front, allBlank l = true
  first : ∀ l ∈ body.head?, allBlank l = false
  last : ∀ l ∈ body.getLast?, allBlank l = false
  back : ∀ l ∈ back, allBlank l = true

theorem Surrounded.dropBlankEnds_eq (h : Surrounded front body back) :
    dropBlankEnds (front ++ body ++ back) = body := by
  rw [dropBlankEnds, List.append_assoc, List.dropWhile_append_of_pos h.front]
  cases hbody : body with
  | nil =>
    rw [List.nil_append, List.dropWhile_eq_nil_iff.mpr h.back]
    rfl
  | cons line rest =>
    have hline : allBlank line = false := h.first line (by rw [hbody]; rfl)
    have hback : ∀ l ∈ back.reverse, allBlank l = true := fun l hl =>
      h.back l (List.mem_reverse.mp hl)
    rw [List.cons_append, List.dropWhile_cons_of_neg (by simp [hline]), ← List.cons_append,
      List.reverse_append, List.dropWhile_append_of_pos hback, ← hbody]
    cases hlast : body.reverse with
    | nil =>
      rw [List.reverse_eq_nil_iff.mp hlast] at hbody
      cases hbody
    | cons last others =>
      have hlastline : allBlank last = false :=
        h.last last (by rw [List.getLast?_eq_head?_reverse, hlast]; rfl)
      rw [List.dropWhile_cons_of_neg (by simp [hlastline]), ← hlast, List.reverse_reverse]

theorem exists_surrounded (ls : List (List Char)) :
    ∃ front back, Surrounded front (dropBlankEnds ls) back ∧
      ls = front ++ dropBlankEnds ls ++ back := by
  generalize hrest : ls.dropWhile allBlank = rest
  have hls : ls = ls.takeWhile allBlank ++ rest := by
    rw [← hrest, List.takeWhile_append_dropWhile]
  have hbody : rest = dropBlankEnds ls ++ (rest.reverse.takeWhile allBlank).reverse := by
    rw [dropBlankEnds, hrest, ← List.reverse_append, List.takeWhile_append_dropWhile,
      List.reverse_reverse]
  refine ⟨ls.takeWhile allBlank, (rest.reverse.takeWhile allBlank).reverse, ?_, ?_⟩
  · constructor
    · exact fun l hl => List.mem_takeWhile_imp hl
    · intro l hl
      have hhead := List.head?_dropWhile_not allBlank ls
      rw [hrest, hbody, List.head?_append, hl] at hhead
      simpa using hhead
    · intro l hl
      have hhead := List.head?_dropWhile_not allBlank rest.reverse
      rw [dropBlankEnds, hrest, List.getLast?_reverse] at hl
      rw [hl] at hhead
      simpa using hhead
    · exact fun l hl => List.mem_takeWhile_imp (List.mem_reverse.mp hl)
  · rw [List.append_assoc, ← hbody]
    exact hls

/-- Blank lines after others make no difference. -/
theorem dropBlankEnds_append {extra : List (List Char)} (h : ∀ l ∈ extra, allBlank l = true) :
    dropBlankEnds (ls ++ extra) = dropBlankEnds ls := by
  obtain ⟨front, back, hsurrounded, hls⟩ := exists_surrounded ls
  have hmore : Surrounded front (dropBlankEnds ls) (back ++ extra) :=
    { hsurrounded with
      back := fun l hl => (List.mem_append.mp hl).elim (hsurrounded.back l) (h l) }
  conv_lhs => rw [hls, List.append_assoc]
  exact hmore.dropBlankEnds_eq

theorem dropBlankEnds_map {f : List Char → List Char} (h : ∀ l, allBlank (f l) = allBlank l)
    (ls : List (List Char)) : dropBlankEnds (ls.map f) = (dropBlankEnds ls).map f := by
  obtain ⟨front, back, hsurrounded, hls⟩ := exists_surrounded ls
  have hmap : Surrounded (front.map f) ((dropBlankEnds ls).map f) (back.map f) := by
    constructor
    · simpa [h] using hsurrounded.front
    · simpa [h] using hsurrounded.first
    · simpa [h] using hsurrounded.last
    · simpa [h] using hsurrounded.back
  conv_lhs => rw [hls, List.map_append, List.map_append]
  exact hmap.dropBlankEnds_eq

/-- There is nothing between the blank lines only if all lines are blank. -/
theorem dropBlankEnds_eq_nil_iff : dropBlankEnds ls = [] ↔ ∀ l ∈ ls, allBlank l = true := by
  obtain ⟨front, back, hsurrounded, hls⟩ := exists_surrounded ls
  constructor
  · intro hnil l hl
    rw [hls, hnil, List.append_nil] at hl
    exact (List.mem_append.mp hl).elim (hsurrounded.front l) (hsurrounded.back l)
  · intro hall
    rw [dropBlankEnds, List.dropWhile_eq_nil_iff.mpr hall]
    rfl

/-- A line between the ends that is not blank: the first one. -/
theorem exists_of_dropBlankEnds_ne_nil (h : dropBlankEnds ls ≠ []) :
    ∃ l ∈ dropBlankEnds ls, allBlank l = false := by
  obtain ⟨front, back, hsurrounded, -⟩ := exists_surrounded ls
  obtain ⟨l, rest, hbody⟩ := List.exists_cons_of_ne_nil h
  exact ⟨l, by rw [hbody]; exact List.mem_cons_self, hsurrounded.first l (by rw [hbody]; rfl)⟩

/-! ### Indentation -/

/-- The number of spaces and tabs that a line starts with. -/
def indentOf (l : List Char) : Nat := (l.takeWhile isIndent).length

/-- Spaces and tabs only. -/
def IsIndentation (cs : List Char) : Prop := ∀ c ∈ cs, c = ' ' ∨ c = '\t'

theorem isIndent_iff {c : Char} : isIndent c = true ↔ c = ' ' ∨ c = '\t' := by
  rw [isIndent, Bool.or_eq_true, beq_iff_eq, beq_iff_eq]

theorem isBlank_of_isIndent {c : Char} (h : isIndent c = true) : isBlank c = true := by
  rcases isIndent_iff.mp h with rfl | rfl <;> decide

theorem IsIndentation.ink_eq (h : IsIndentation p) : ink p = [] := by
  rw [ink, List.filter_eq_nil_iff]
  intro c hc
  simp [isBlank_of_isIndent (isIndent_iff.mpr (h c hc))]

theorem IsIndentation.allBlank_eq (h : IsIndentation p) : allBlank p = true :=
  allBlank_iff.mpr h.ink_eq

theorem IsIndentation.not_mem (h : IsIndentation p) {c : Char} (hspace : c ≠ ' ')
    (htab : c ≠ '\t') : c ∉ p := fun hmem => (h c hmem).elim hspace htab

/-- The indentation of a line ends at a character, unless the line is blank. -/
theorem exists_ne_isIndent (h : allBlank l = false) : ∃ c ∈ l, isIndent c = false := by
  obtain ⟨c, hc, hblank⟩ := List.all_eq_false.mp h
  refine ⟨c, hc, ?_⟩
  rw [← Bool.not_eq_true]
  exact mt isBlank_of_isIndent hblank

theorem indentOf_append (h : allBlank l = false) (back : List Char) :
    indentOf (l ++ back) = indentOf l := by
  obtain ⟨c, hc, hindent⟩ := exists_ne_isIndent h
  rw [indentOf, indentOf, List.takeWhile_append, if_neg]
  intro hlength
  have hall : l.takeWhile isIndent = l := (List.takeWhile_prefix isIndent).eq_of_length hlength
  rw [← hall] at hc
  rw [List.mem_takeWhile_imp hc] at hindent
  cases hindent

theorem indentOf_trimEnd (h : allBlank l = false) : indentOf (trimEnd l) = indentOf l := by
  obtain ⟨blanks, -, hl⟩ := exists_blanks_of_trimEnd l
  conv_rhs => rw [hl]
  exact (indentOf_append (by rwa [allBlank_trimEnd]) blanks).symm

theorem indentOf_indented (hp : IsIndentation p) (l : List Char) :
    indentOf (p ++ l) = indentOf l + p.length := by
  rw [indentOf, List.takeWhile_append_of_pos fun c hc => isIndent_iff.mpr (hp c hc),
    List.length_append, Nat.add_comm, indentOf]

theorem isIndentation_take {n : Nat} (h : n ≤ indentOf l) : IsIndentation (l.take n) := by
  have hfront : l.take n <+: l.takeWhile isIndent :=
    List.prefix_of_prefix_length_le (List.take_prefix n l) (List.takeWhile_prefix isIndent)
      (Nat.le_trans (List.length_take_le n l) h)
  intro c hc
  exact isIndent_iff.mp (List.mem_takeWhile_imp (hfront.subset hc))

/-- Dropping some of the indentation of a line takes it off. -/
theorem indentOf_drop {n : Nat} (h : n ≤ indentOf l) : indentOf (l.drop n) + n = indentOf l := by
  have hlength : (l.take n).length = n :=
    List.length_take_of_le (Nat.le_trans h (List.takeWhile_prefix isIndent).length_le)
  have hindent := indentOf_indented (isIndentation_take h) (l.drop n)
  rw [List.take_append_drop, hlength] at hindent
  exact hindent.symm

theorem ink_drop {n : Nat} (h : n ≤ indentOf l) : ink (l.drop n) = ink l := by
  conv_rhs => rw [← List.take_append_drop n l, ink_append, (isIndentation_take h).ink_eq,
    List.nil_append]

/-- The common indentation is the least one of a line that is not blank. -/
theorem commonIndent_eq_iff (h : ∃ l ∈ ls, allBlank l = false) {n : Nat} :
    commonIndent ls = n ↔ (∃ l ∈ ls, allBlank l = false ∧ indentOf l = n) ∧
      ∀ l ∈ ls, allBlank l = false → n ≤ indentOf l := by
  have hmin (m : Nat) : ((ls.filter (!allBlank ·)).map indentOf).min? = some m ↔
      (∃ l ∈ ls, allBlank l = false ∧ indentOf l = m) ∧
        ∀ l ∈ ls, allBlank l = false → m ≤ indentOf l := by
    rw [List.min?_eq_some_iff, List.forall_mem_map]
    simp only [List.mem_map, List.mem_filter, Bool.not_eq_true', and_imp, and_assoc]
  change ((ls.filter (!allBlank ·)).map indentOf).min?.getD 0 = n ↔ _
  rw [← hmin]
  cases hsome : ((ls.filter (!allBlank ·)).map indentOf).min? with
  | none =>
    obtain ⟨l, hl, hblank⟩ := h
    rw [List.min?_eq_none_iff, List.map_eq_nil_iff, List.filter_eq_nil_iff] at hsome
    exact absurd (hsome l hl) (by simp [hblank])
  | some m => simp

theorem commonIndent_le (hl : l ∈ ls) (h : allBlank l = false) : commonIndent ls ≤ indentOf l :=
  ((commonIndent_eq_iff ⟨l, hl, h⟩).mp rfl).2 l hl h

/-! ### One line -/

theorem dedentLine_of_allBlank (h : allBlank l = true) (n : Nat) : dedentLine n l = [] := by
  rw [dedentLine, trimEnd_eq_nil_of_allBlank h, List.drop_nil]

/-- A line loses no more than its indentation, and the blanks at its end. -/
theorem ink_dedentLine (hl : l ∈ ls) : ink (dedentLine (commonIndent ls) l) = ink l := by
  cases hblank : allBlank l with
  | true => rw [dedentLine_of_allBlank hblank, allBlank_iff.mp hblank, ink, List.filter_nil]
  | false =>
    have hle := commonIndent_le hl hblank
    rw [← indentOf_trimEnd hblank] at hle
    rw [dedentLine, ink_drop hle, ink_trimEnd]

theorem indentOf_dedentLine (hl : l ∈ ls) (h : allBlank l = false) :
    indentOf (dedentLine (commonIndent ls) l) + commonIndent ls = indentOf l := by
  have hle := commonIndent_le hl h
  rw [← indentOf_trimEnd h] at hle ⊢
  exact indentOf_drop hle

theorem isBlank_getLast?_dedentLine {n : Nat} {c : Char}
    (h : (dedentLine n l).getLast? = some c) : isBlank c = false := by
  rw [dedentLine, List.getLast?_drop] at h
  split at h
  · cases h
  · exact isBlank_getLast?_trimEnd h

/-! ### The lines of the result -/

/-- Lines without the blank ones at the ends, without blanks behind them and without their common
indentation. -/
def dedent (ls : List (List Char)) : List (List Char) :=
  (dropBlankEnds ls).map (dedentLine (commonIndent (dropBlankEnds ls)))

/-- The normal form of lines: nothing blank stands around them or behind one of them, and one of them
is not indented. -/
structure Dedented (ls : List (List Char)) : Prop where
  first : ∃ l, ls.head? = some l ∧ allBlank l = false
  last : ∃ l, ls.getLast? = some l ∧ allBlank l = false
  ends : ∀ l ∈ ls, ∀ c ∈ l.getLast?, isBlank c = false
  flush : ∃ l ∈ ls, allBlank l = false ∧ ∀ c ∈ l.head?, c ≠ ' ' ∧ c ≠ '\t'

theorem indentOf_eq_zero_iff : indentOf l = 0 ↔ ∀ c ∈ l.head?, c ≠ ' ' ∧ c ≠ '\t' := by
  cases l with
  | nil => simp [indentOf]
  | cons c l =>
    rw [indentOf, List.length_eq_zero_iff, List.takeWhile_cons, List.head?_cons]
    simp [← not_or, ← isIndent_iff]

theorem dedent_eq_nil_iff : dedent ls = [] ↔ ∀ l ∈ ls, allBlank l = true := by
  rw [dedent, List.map_eq_nil_iff, dropBlankEnds_eq_nil_iff]

/-- A line between the ends is as blank as what is left of it. -/
theorem allBlank_dedentLine (hl : l ∈ ls) :
    allBlank (dedentLine (commonIndent ls) l) = allBlank l := allBlank_congr (ink_dedentLine hl)

theorem dedented_dedent (h : dedent ls ≠ []) : Dedented (dedent ls) := by
  obtain ⟨front, back, hsurrounded, -⟩ := exists_surrounded ls
  have hne : dropBlankEnds ls ≠ [] := mt List.map_eq_nil_iff.mpr h
  unfold dedent
  generalize dropBlankEnds ls = body at hsurrounded hne
  constructor
  · refine ⟨_, by rw [List.head?_map, List.head?_eq_some_head hne]; rfl, ?_⟩
    rw [allBlank_dedentLine (List.head_mem hne)]
    exact hsurrounded.first _ (List.head?_eq_some_head hne)
  · refine ⟨_, by rw [List.getLast?_map, List.getLast?_eq_some_getLast hne]; rfl, ?_⟩
    rw [allBlank_dedentLine (List.getLast_mem hne)]
    exact hsurrounded.last _ (List.getLast?_eq_some_getLast hne)
  · intro l hl c hc
    obtain ⟨line, -, rfl⟩ := List.mem_map.mp hl
    exact isBlank_getLast?_dedentLine hc
  · have hsome : ∃ l ∈ body, allBlank l = false :=
      ⟨_, List.head_mem hne, hsurrounded.first _ (List.head?_eq_some_head hne)⟩
    obtain ⟨⟨l, hl, hblank, hleast⟩, -⟩ := (commonIndent_eq_iff hsome).mp rfl
    refine ⟨_, List.mem_map_of_mem hl, ?_, ?_⟩
    · rw [allBlank_dedentLine hl]
      exact hblank
    · rw [← indentOf_eq_zero_iff]
      have hindent := indentOf_dedentLine hl hblank
      omega

/-- Lines in normal form stay as they are. -/
theorem Dedented.dedent_eq (h : Dedented ls) : dedent ls = ls := by
  obtain ⟨first, hfirst, hfirstink⟩ := h.first
  obtain ⟨last, hlast, hlastink⟩ := h.last
  obtain ⟨l, hl, hblank, hflush⟩ := h.flush
  have hsurrounded : Surrounded [] ls [] := by
    constructor
    · simp
    · simpa [hfirst] using hfirstink
    · simpa [hlast] using hlastink
    · simp
  have hbody : dropBlankEnds ls = ls := by
    have heq := hsurrounded.dropBlankEnds_eq
    rwa [List.nil_append, List.append_nil] at heq
  have hindent : commonIndent ls = 0 := by
    have hle := commonIndent_le hl hblank
    rw [indentOf_eq_zero_iff.mpr hflush] at hle
    exact Nat.le_zero.mp hle
  have hline (l : List Char) (hl : l ∈ ls) : dedentLine 0 l = l := by
    rw [dedentLine, List.drop_zero]
    exact trimEnd_eq_self_iff.mpr fun c hc => h.ends l hl c hc
  rw [dedent, hbody, hindent, List.map_congr_left hline, List.map_id']

/-! ### Lines that are changed alike -/

section Alike

variable {f : List Char → List Char} {k : Nat} (hblank : ∀ l, allBlank (f l) = allBlank l)
  (hindent : ∀ l, allBlank l = false → indentOf (f l) = indentOf l + k)

include hblank hindent

theorem commonIndent_map (h : ∃ l ∈ ls, allBlank l = false) :
    commonIndent (ls.map f) = commonIndent ls + k := by
  obtain ⟨⟨l, hl, hink, hleast⟩, hall⟩ := (commonIndent_eq_iff h).mp rfl
  have hmapped : allBlank (f l) = false := (hblank l).trans hink
  apply (commonIndent_eq_iff ⟨f l, List.mem_map_of_mem hl, hmapped⟩).mpr
  constructor
  · exact ⟨f l, List.mem_map_of_mem hl, hmapped, by rw [hindent l hink, hleast]⟩
  · intro l' hl' hink'
    obtain ⟨l, hl, rfl⟩ := List.mem_map.mp hl'
    rw [hblank] at hink'
    rw [hindent l hink']
    exact Nat.add_le_add_right (hall l hl hink') k

/-- Lines that become longer by the same indentation, and else keep what is shown of them. -/
theorem dedent_map (hline : ∀ l n, dedentLine (n + k) (f l) = dedentLine n l)
    (ls : List (List Char)) : dedent (ls.map f) = dedent ls := by
  rw [dedent, dropBlankEnds_map hblank]
  by_cases hnil : dropBlankEnds ls = []
  · rw [dedent, hnil]
    rfl
  · rw [commonIndent_map hblank hindent (exists_of_dropBlankEnds_ne_nil hnil), List.map_map, dedent]
    exact List.map_congr_left fun l _ => hline l _

end Alike

theorem dedent_map_trimEnd (ls : List (List Char)) : dedent (ls.map trimEnd) = dedent ls := by
  apply dedent_map (k := 0) allBlank_trimEnd
  · exact fun l => indentOf_trimEnd
  · intro l n
    rw [dedentLine, trimEnd_trimEnd, Nat.add_zero, dedentLine]

theorem dedent_map_indented (hp : IsIndentation p) (ls : List (List Char)) :
    dedent (ls.map (p ++ ·)) = dedent ls := by
  have hblank (l : List Char) : allBlank (p ++ l) = allBlank l :=
    allBlank_congr (by rw [ink_append, hp.ink_eq, List.nil_append])
  apply dedent_map hblank
  · exact fun l _ => indentOf_indented hp l
  · intro l n
    cases hl : allBlank l with
    | true => rw [dedentLine_of_allBlank hl, dedentLine_of_allBlank ((hblank l).trans hl)]
    | false =>
      rw [dedentLine, dedentLine, trimEnd_append p hl, Nat.add_comm, List.drop_append]
      simp

theorem dedent_append {extra : List (List Char)} (h : ∀ l ∈ extra, allBlank l = true)
    (ls : List (List Char)) : dedent (ls ++ extra) = dedent ls := by
  rw [dedent, dropBlankEnds_append h, dedent]

/-! ### What is kept -/

theorem flatMap_ink_dedent (ls : List (List Char)) : (dedent ls).flatMap ink = ls.flatMap ink := by
  obtain ⟨front, back, hsurrounded, hls⟩ := exists_surrounded ls
  have hempty {blank : List (List Char)} (h : ∀ l ∈ blank, allBlank l = true) :
      blank.flatMap ink = [] :=
    List.flatMap_eq_nil_iff.mpr fun l hl => allBlank_iff.mp (h l hl)
  have hbody : (dedent ls).flatMap ink = (dropBlankEnds ls).flatMap ink := by
    rw [dedent, List.flatMap_map]
    exact List.flatMap_congr fun l hl => ink_dedentLine hl
  conv_rhs => rw [hls, List.flatMap_append, List.flatMap_append, hempty hsurrounded.front,
    hempty hsurrounded.back, List.append_nil, List.nil_append]
  exact hbody

/-- Every line that is not blank loses the common indentation. -/
theorem map_indentOf_dedent (ls : List (List Char)) :
    (ls.filter (!allBlank ·)).map indentOf =
      ((dedent ls).filter (!allBlank ·)).map (indentOf · + commonIndent (dropBlankEnds ls)) := by
  obtain ⟨front, back, hsurrounded, hls⟩ := exists_surrounded ls
  have hempty {blank : List (List Char)} (h : ∀ l ∈ blank, allBlank l = true) :
      blank.filter (!allBlank ·) = [] :=
    List.filter_eq_nil_iff.mpr fun l hl => by simp [h l hl]
  have hinner : ls.filter (!allBlank ·) = (dropBlankEnds ls).filter (!allBlank ·) := by
    conv_lhs => rw [hls, List.filter_append, List.filter_append, hempty hsurrounded.front,
      hempty hsurrounded.back, List.append_nil, List.nil_append]
  have hkept : (dropBlankEnds ls).filter
      ((!allBlank ·) ∘ dedentLine (commonIndent (dropBlankEnds ls))) =
        (dropBlankEnds ls).filter (!allBlank ·) := by
    apply List.filter_congr
    intro l hl
    rw [Function.comp_apply, allBlank_dedentLine hl]
  rw [hinner, dedent, List.filter_map, hkept, List.map_map]
  apply List.map_congr_left
  intro l hl
  obtain ⟨hmem, hink⟩ := List.mem_filter.mp hl
  exact (indentOf_dedentLine hmem (by simpa using hink)).symm

end WebIdl.Text
