import Mathlib.Data.List.Nodup

/-!
# Lists without repetitions

* `nodup_eraseDups` — what is left of a list without its repetitions has none.
* `sublist_map_filterMap` — the keys of what a list is filtered to are some of its keys.
* `lookup_eq_some_iff_of_nodup` — in a list of pairs whose keys do not repeat, a key is found with
  what it is paired with.
-/

namespace WebIdl

variable {α β : Type}

theorem nodup_eraseDups [BEq α] [LawfulBEq α] (xs : List α) : xs.eraseDups.Nodup := by
  match xs with
  | [] => exact List.nodup_nil
  | x :: xs =>
    rw [List.eraseDups_cons, List.nodup_cons]
    constructor
    · intro hmem
      have hfilter := List.mem_eraseDups.mp hmem
      simp at hfilter
    · exact nodup_eraseDups (xs.filter fun y => !y == x)
termination_by xs.length
decreasing_by exact Nat.lt_succ_of_le (List.length_filter_le _ _)

/-- Leaving out some items leaves out their keys. -/
theorem sublist_map_filterMap {κ : Type} {f : α → Option β} {key : α → κ} {key' : β → κ}
    (h : ∀ a b, f a = some b → key' b = key a) (xs : List α) :
    List.Sublist ((xs.filterMap f).map key') (xs.map key) := by
  induction xs with
  | nil => exact .slnil
  | cons a xs ih =>
    rw [List.filterMap_cons]
    cases hf : f a with
    | none => exact ih.cons _
    | some b =>
      rw [List.map_cons, List.map_cons, h a b hf]
      exact ih.cons_cons _

theorem lookup_eq_some_iff_of_nodup [BEq α] [LawfulBEq α] {pairs : List (α × β)}
    (h : (pairs.map (·.1)).Nodup) {key : α} {value : β} :
    pairs.lookup key = some value ↔ (key, value) ∈ pairs := by
  induction pairs with
  | nil => simp
  | cons pair pairs ih =>
    obtain ⟨k, v⟩ := pair
    rw [List.map_cons, List.nodup_cons] at h
    obtain ⟨hnew, hrest⟩ := h
    by_cases hkey : key = k
    · subst hkey
      have hother : (key, value) ∉ pairs := by
        intro hmem
        exact hnew (List.mem_map.mpr ⟨_, hmem, rfl⟩)
      simp [hother, eq_comm]
    · have hfirst : (key, value) ≠ (k, v) := fun heq => hkey (Prod.mk.inj heq).1
      simp [List.lookup_cons, beq_false_of_ne hkey, ih hrest, hkey]

end WebIdl
