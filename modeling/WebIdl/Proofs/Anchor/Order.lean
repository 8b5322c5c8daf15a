import WebIdl.Proofs.Anchor.Plan

/-!
# The order of a document

A place has a path: the number of its block, that of its definition in the block, and, for a member,
that of the member in the definition. Document order is the lexicographic order of paths, in which
the path of a definition comes before those of its members.

* `take_eq_filter_of_pairwise` — in a list in ascending order, the items that stand before one are
  those that are less.
* `map_countP_of_pairwise` — counting for each item those that are less numbers the items from 0.
* `pairwise_placed`, `pairwise_placedMembers` — definitions and members are listed in document order.
-/

namespace WebIdl

/-! ### Lists in ascending order -/

section Ascending

variable {α : Type} {r : α → α → Prop} {xs : List α}

theorem pairwise_zipIdx_snd (xs : List α) : xs.zipIdx.Pairwise fun x y => x.2 < y.2 := by
  rw [← List.pairwise_map (f := Prod.snd) (R := (· < ·)), List.zipIdx_map_snd]
  exact List.pairwise_lt_range'

/-- The first item that satisfies `p` is the one that no lesser item comes before. -/
theorem find?_eq_some_of_pairwise (h : xs.Pairwise r) {p : α → Bool} {a : α} (ha : a ∈ xs)
    (hp : p a = true) (hbefore : ∀ b ∈ xs, r b a → p b = false) : xs.find? p = some a := by
  obtain ⟨before, after, rfl⟩ := List.append_of_mem ha
  refine List.find?_eq_some_iff_append.mpr ⟨hp, before, after, rfl, fun b hb => ?_⟩
  have hlt : r b a := (List.pairwise_append.mp h).2.2 b hb a List.mem_cons_self
  simp [hbefore b (List.mem_append_left _ hb) hlt]

variable [DecidableRel r]

theorem take_eq_filter_of_pairwise (hasymm : ∀ a b, r a b → ¬ r b a) (h : xs.Pairwise r) {i : Nat}
    {a : α} (hi : xs[i]? = some a) : xs.take i = xs.filter fun b => decide (r b a) := by
  induction xs generalizing i with
  | nil => cases hi
  | cons x xs ih =>
    obtain ⟨hfirst, hrest⟩ := List.pairwise_cons.mp h
    cases i with
    | zero =>
      obtain rfl : x = a := Option.some.inj hi
      -- neither the item itself nor one after it is less
      symm
      rw [List.take_zero, List.filter_eq_nil_iff]
      intro b hb
      rw [decide_eq_true_eq]
      rcases List.mem_cons.mp hb with rfl | hb
      · exact fun hself => hasymm b b hself hself
      · exact hasymm x b (hfirst b hb)
    | succ i =>
      have ha : r x a := hfirst a (List.mem_of_getElem? hi)
      rw [List.take_succ_cons, List.filter_cons_of_pos (by simpa using ha), ih hrest hi]

theorem countP_of_pairwise (hasymm : ∀ a b, r a b → ¬ r b a) (h : xs.Pairwise r) {i : Nat} {a : α}
    (hi : xs[i]? = some a) : xs.countP (fun b => decide (r b a)) = i := by
  rw [List.countP_eq_length_filter, ← take_eq_filter_of_pairwise hasymm h hi, List.length_take]
  exact Nat.min_eq_left (Nat.le_of_lt (List.getElem?_eq_some_iff.mp hi).1)

/-- Counting for each item those that are less numbers the items from 0. -/
theorem map_countP_of_pairwise (hasymm : ∀ a b, r a b → ¬ r b a) (h : xs.Pairwise r) :
    xs.map (fun a => xs.countP fun b => decide (r b a)) = List.range xs.length := by
  refine List.ext_getElem (by simp) ?_
  intro i hi hi'
  rw [List.getElem_map, List.getElem_range]
  exact countP_of_pairwise hasymm h (List.getElem?_eq_getElem (by simpa using hi))

end Ascending

/-! ### Paths -/

def Place.path (place : Place) : List Nat := [place.block, place.definition]

def MemberPlace.path (place : MemberPlace) : List Nat :=
  [place.block, place.definition, place.member]

theorem Place.path_lt_iff {p q : Place} :
    p.path < q.path ↔ p.block < q.block ∨ p.block = q.block ∧ p.definition < q.definition := by
  simp [path, List.cons_lt_cons_iff]

/-- What is inside of a definition does not matter against another definition. -/
theorem Place.path_append_lt {p q : Place} (h : p.path < q.path) (xs ys : List Nat) :
    p.path ++ xs < q.path ++ ys := by
  rcases path_lt_iff.mp h with hblock | ⟨hblock, hdefinition⟩
  · exact List.cons_lt_cons_iff.mpr (.inl hblock)
  · exact List.cons_lt_cons_iff.mpr
      (.inr ⟨hblock, List.cons_lt_cons_iff.mpr (.inl hdefinition)⟩)

/-- Members of the same definition are in the order of their numbers, and others in that of their
definitions. -/
theorem MemberPlace.path_member_lt_iff {p q : Place} {i j : Nat} :
    (p.member i).path < (q.member j).path ↔ p.path < q.path ∨ p = q ∧ i < j := by
  obtain ⟨b, d⟩ := p
  obtain ⟨c, e⟩ := q
  simp only [path, Place.member, Place.path, Place.mk.injEq, List.cons_lt_cons_iff,
    List.not_lt_nil, and_false, or_false]
  omega

/-! ### The order of a document -/

variable (blocks : List (List Definition))

theorem pairwise_placed : (placed blocks).Pairwise fun x y => x.1.path < y.1.path := by
  unfold placed
  rw [List.pairwise_flatMap]
  constructor
  · rintro ⟨definitions, block⟩ -
    rw [List.pairwise_map]
    refine (pairwise_zipIdx_snd definitions).imp ?_
    intro x y hlt
    exact Place.path_lt_iff.mpr (.inr ⟨rfl, hlt⟩)
  · refine (pairwise_zipIdx_snd blocks).imp ?_
    rintro ⟨xs, b⟩ ⟨ys, c⟩ hlt x hx y hy
    have hb : x.1.block = b := block_eq_of_mem (List.mem_map_of_mem hx)
    have hc : y.1.block = c := block_eq_of_mem (List.mem_map_of_mem hy)
    exact Place.path_lt_iff.mpr (.inl (by rw [hb, hc]; exact hlt))

theorem pairwise_membersOf {definitions : List (Place × Definition)}
    (h : definitions.Pairwise fun x y => x.1.path < y.1.path) :
    (membersOf definitions).Pairwise fun x y => x.1.path < y.1.path := by
  unfold membersOf
  rw [List.pairwise_flatMap]
  constructor
  · rintro entry -
    rw [List.pairwise_map]
    refine (pairwise_zipIdx_snd entry.2.members).imp ?_
    intro x y hlt
    exact MemberPlace.path_member_lt_iff.mpr (.inr ⟨rfl, hlt⟩)
  · refine h.imp ?_
    intro entry other hlt x hx y hy
    obtain ⟨_, -, rfl⟩ := List.mem_map.mp hx
    obtain ⟨_, -, rfl⟩ := List.mem_map.mp hy
    exact MemberPlace.path_member_lt_iff.mpr (.inl hlt)

theorem pairwise_placedMembers :
    (placedMembers blocks).Pairwise fun x y => x.1.path < y.1.path :=
  pairwise_membersOf (pairwise_placed blocks)

end WebIdl
