import Mathlib.Data.List.Nodup
import WebIdl.Anchor.Plan

/-!
# What the anchor plan says

The plan is made in one pass over all blocks. Seen from one place, it says the following.

* `Anchor.Plan.overload_ofBlocks` — the number of a member is the number of members before it in
  the document that have the same key.
* `Anchor.Plan.owns_ofBlocks` — a definition owns its name if it is a base definition and none
  before it in the document has a name with the same slug.
-/

namespace WebIdl

/-! ### Places -/

/-- The members of definitions with their places, in order. -/
def membersOf (definitions : List (Place × Definition)) : List (MemberPlace × Member) :=
  definitions.flatMap fun entry =>
    entry.2.members.zipIdx.map fun (m, index) => (entry.1.member index, m)

/-- The members of a document with their places, in order. -/
def placedMembers (blocks : List (List Definition)) : List (MemberPlace × Member) :=
  membersOf (placed blocks)

@[simp] theorem membersOf_nil : membersOf [] = [] := rfl

theorem membersOf_cons (entry : Place × Definition) (rest : List (Place × Definition)) :
    membersOf (entry :: rest) =
      (entry.2.members.zipIdx.map fun (m, index) => (entry.1.member index, m)) ++ membersOf rest :=
  rfl

theorem Place.member_inj {p q : Place} {i j : Nat} (h : p.member i = q.member j) :
    p = q ∧ i = j := by
  obtain ⟨hblock, hdefinition, hindex⟩ := MemberPlace.mk.inj h
  cases p
  cases q
  exact ⟨by simp_all, hindex⟩

theorem nodup_zipIdx_snd {α : Type} (xs : List α) : (xs.zipIdx.map (·.2)).Nodup := by
  rw [List.zipIdx_map_snd]
  exact List.nodup_range'

theorem block_eq_of_mem {definitions : List Definition} {block : Nat} {place : Place}
    (h : place ∈
      (definitions.zipIdx.map fun (d, index) => ((⟨block, index⟩ : Place), d)).map (·.1)) :
    place.block = block := by
  simp only [List.map_map, List.mem_map] at h
  obtain ⟨_, -, rfl⟩ := h
  rfl

/-- No two definitions of a document stand in one place. -/
theorem nodup_placed (blocks : List (List Definition)) : ((placed blocks).map (·.1)).Nodup := by
  unfold placed
  rw [List.map_flatMap, List.nodup_flatMap]
  constructor
  · rintro ⟨definitions, block⟩ -
    rw [List.map_map]
    refine List.Nodup.of_map Place.definition ?_
    rw [List.map_map]
    exact nodup_zipIdx_snd definitions
  · have hpairwise := List.pairwise_map.mp (nodup_zipIdx_snd blocks)
    refine hpairwise.imp ?_
    rintro ⟨xs, b⟩ ⟨ys, c⟩ hne place hx hy
    exact hne ((block_eq_of_mem hx).symm.trans (block_eq_of_mem hy))

theorem eq_of_mem_placed {blocks : List (List Definition)} {place : Place} {d e : Definition}
    (hd : (place, d) ∈ placed blocks) (he : (place, e) ∈ placed blocks) : d = e :=
  (Prod.mk.inj (List.inj_on_of_nodup_map (nodup_placed blocks) hd he rfl)).2

theorem map_snd_membersOf_cons (entry : Place × Definition) (rest : List (Place × Definition)) :
    (membersOf (entry :: rest)).map (·.2) = entry.2.members ++ (membersOf rest).map (·.2) := by
  rw [membersOf_cons, List.map_append, List.map_map]
  congr 1
  exact List.zipIdx_map_fst 0 entry.2.members

/-- A member stands in a definition of the document. -/
theorem exists_of_mem_membersOf {definitions : List (Place × Definition)} {place : MemberPlace}
    {m : Member} (h : (place, m) ∈ membersOf definitions) :
    ∃ d, (⟨place.block, place.definition⟩, d) ∈ definitions ∧
      d.members[place.member]? = some m := by
  simp only [membersOf, List.mem_flatMap, List.mem_map, Prod.exists, Prod.mk.injEq] at h
  obtain ⟨_, d, hd, m, index, hm, rfl, rfl⟩ := h
  exact ⟨d, hd, List.mem_zipIdx_iff_getElem?.mp hm⟩

/-- The members of the first definition come first, and the others after them. -/
theorem membersOf_cons_getElem? {entry : Place × Definition} {rest : List (Place × Definition)}
    {i : Nat} {place : MemberPlace} {m : Member}
    (h : (membersOf (entry :: rest))[i]? = some (place, m)) :
    (entry.2.members[i]? = some m ∧ place = entry.1.member i) ∨
      ∃ j, i = entry.2.members.length + j ∧ (membersOf rest)[j]? = some (place, m) := by
  rw [membersOf_cons] at h
  by_cases hi : i < entry.2.members.length
  · rw [List.getElem?_append_left (by simpa using hi)] at h
    left
    simpa [List.getElem?_zipIdx, hi, and_comm, eq_comm] using h
  · right
    rw [List.getElem?_append_right (by simpa using hi)] at h
    exact ⟨i - entry.2.members.length, by omega, by simpa using h⟩

namespace Anchor.Plan

/-! ### Numbers of members -/

theorem number_snd (seen : List (String × String)) (ms : List Member) :
    (number seen ms).2 = (ms.filterMap memberKey?).reverse ++ seen := by
  induction ms generalizing seen with
  | nil => rfl
  | cons m ms ih =>
    unfold number
    cases hkey : memberKey? m with
    | none => simp [hkey, ih]
    | some key => simp [hkey, ih]

/-- The number of a member is how often its key has been seen before it. -/
theorem number_fst_getElem? (seen : List (String × String)) (ms : List Member) (i : Nat) :
    (number seen ms).1[i]? = ms[i]?.map fun m => (memberKey? m).map fun key =>
      (number seen (ms.take i)).2.count key := by
  induction ms generalizing seen i with
  | nil => rfl
  | cons m ms ih =>
    cases i with
    | zero => cases hkey : memberKey? m <;> simp [number, hkey]
    | succ i => cases hkey : memberKey? m <;> simp [number, hkey, ih]

theorem find?_plan_overloads {definitions : List (Place × Definition)}
    (hnodup : (definitions.map (·.1)).Nodup) (slugs : List String) (seen : List (String × String))
    {i : Nat} {place : MemberPlace} {m : Member}
    (h : (membersOf definitions)[i]? = some (place, m)) :
    ((plan slugs seen definitions).find? (·.place == ⟨place.block, place.definition⟩)).bind
        (·.overloads[place.member]?) =
      some ((memberKey? m).map fun key =>
        (number seen (((membersOf definitions).map (·.2)).take i)).2.count key) := by
  induction definitions generalizing slugs seen i with
  | nil => simp at h
  | cons entry rest ih =>
    obtain ⟨start, d⟩ := entry
    obtain ⟨hhead, hrest⟩ := List.nodup_cons.mp hnodup
    rw [map_snd_membersOf_cons]
    unfold plan
    rcases membersOf_cons_getElem? h with ⟨hm, rfl⟩ | ⟨j, rfl, hj⟩
    · -- the member stands in the first definition, which the entry found is for
      have hlt : i < d.members.length := (List.getElem?_eq_some_iff.mp hm).1
      rw [List.take_append_of_le_length (Nat.le_of_lt hlt),
        List.find?_cons_of_pos (by simp [Place.member]), Option.bind_some, Place.member,
        number_fst_getElem?, hm, Option.map_some]
    · have hne : start ≠ ⟨place.block, place.definition⟩ := by
        rintro rfl
        obtain ⟨d', hd', -⟩ := exists_of_mem_membersOf (List.mem_of_getElem? hj)
        exact hhead (List.mem_map.mpr ⟨_, hd', rfl⟩)
      rw [List.take_length_add_append, List.find?_cons_of_neg (by simpa using hne), ih hrest _ _ hj]
      simp only [number_snd, List.filterMap_append, List.reverse_append, List.append_assoc]

/-- The number of a member is how many members before it in the document have its key. -/
theorem overload_ofBlocks {blocks : List (List Definition)} {i : Nat} {place : MemberPlace}
    {m : Member} {key : String × String} (h : (placedMembers blocks)[i]? = some (place, m))
    (hkey : memberKey? m = some key) :
    (ofBlocks blocks).overload place =
      ((((placedMembers blocks).map (·.2)).take i).filterMap memberKey?).count key := by
  have hfind := find?_plan_overloads (nodup_placed blocks) [] [] h
  rw [hkey, number_snd, List.append_nil, Option.map_some] at hfind
  obtain ⟨entry, hentry, hnumber⟩ := Option.bind_eq_some_iff.mp hfind
  have hentry : Plan.entry? (ofBlocks blocks) ⟨place.block, place.definition⟩ = some entry := hentry
  simp [overload, hentry, hnumber, placedMembers]

/-- Two members of a document that have one key have different numbers. -/
theorem overload_ne {blocks : List (List Definition)} {i j : Nat} {p q : MemberPlace} {m n : Member}
    {key : String × String} (hij : i < j) (hi : (placedMembers blocks)[i]? = some (p, m))
    (hj : (placedMembers blocks)[j]? = some (q, n)) (hm : memberKey? m = some key)
    (hn : memberKey? n = some key) :
    (ofBlocks blocks).overload p ≠ (ofBlocks blocks).overload q := by
  rw [overload_ofBlocks hi hm, overload_ofBlocks hj hn]
  -- the members before the second are those before the first, the first, and others
  have hget : ((placedMembers blocks).map (·.2))[i]? = some m := by simp [hi]
  obtain ⟨others, hothers⟩ :
      (((placedMembers blocks).map (·.2)).take (i + 1)) <+:
        (((placedMembers blocks).map (·.2)).take j) := List.take_prefix_take_left hij
  rw [← hothers, List.take_add_one, hget]
  simp only [Option.toList_some, List.filterMap_append, List.filterMap_cons_some hm,
    List.filterMap_nil, List.count_append, List.count_singleton_self]
  omega

/-! ### Owners of names -/

/-- The slugs that are taken once a definition has been passed: also that of a base definition. -/
theorem contains_owned (slugs : List String) (d : Definition) (s : String) :
    (if d.isBase && !slugs.contains (slug d.name) then slug d.name :: slugs else slugs).contains s =
      (slugs.contains s || (d.isBase && slug d.name == s)) := by
  by_cases hslug : slug d.name = s
  · subst hslug
    by_cases htaken : slug d.name ∈ slugs <;> cases d.isBase <;> simp [htaken]
  · have hne : (slug d.name == s) = false := by simpa using hslug
    split
    · rw [List.contains_cons, hne, Bool.and_false, Bool.or_false]
      simp [Ne.symm hslug]
    · rw [hne, Bool.and_false, Bool.or_false]

theorem find?_plan_owns {definitions : List (Place × Definition)}
    (hnodup : (definitions.map (·.1)).Nodup) (slugs : List String) (seen : List (String × String))
    {i : Nat} {place : Place} {d : Definition} (h : definitions[i]? = some (place, d)) :
    ((plan slugs seen definitions).find? (·.place == place)).any (·.owns) =
      (d.isBase && !(slugs.contains (slug d.name) ||
        (definitions.take i).any fun entry =>
          entry.2.isBase && slug entry.2.name == slug d.name)) := by
  induction definitions generalizing slugs seen i with
  | nil => simp at h
  | cons entry rest ih =>
    obtain ⟨start, e⟩ := entry
    obtain ⟨hhead, hrest⟩ := List.nodup_cons.mp hnodup
    unfold plan
    cases i with
    | zero =>
      obtain ⟨rfl, rfl⟩ : start = place ∧ e = d := by simpa using h
      simp
    | succ i =>
      have h : rest[i]? = some (place, d) := by simpa using h
      have hne : start ≠ place := by
        rintro rfl
        exact hhead (List.mem_map.mpr ⟨_, List.mem_of_getElem? h, rfl⟩)
      rw [List.find?_cons_of_neg (by simpa using hne), ih hrest _ _ h, List.take_succ_cons,
        List.any_cons, contains_owned, Bool.or_assoc]

/-- A definition owns its name if it is a base definition and none before it in the document has a
name with the same slug. -/
theorem owns_ofBlocks {blocks : List (List Definition)} {i : Nat} {place : Place} {d : Definition}
    (h : (placed blocks)[i]? = some (place, d)) :
    (ofBlocks blocks).owns place =
      (d.isBase && !((placed blocks).take i).any fun entry =>
        entry.2.isBase && slug entry.2.name == slug d.name) := by
  have howns := find?_plan_owns (nodup_placed blocks) [] [] h
  simpa [owns, entry?, ofBlocks] using howns

variable {blocks : List (List Definition)} {p q : Place} {d e : Definition}

theorem isBase_of_owns (h : (p, d) ∈ placed blocks) (howns : (ofBlocks blocks).owns p = true) :
    d.isBase = true := by
  obtain ⟨i, hi⟩ := List.mem_iff_getElem?.mp h
  rw [owns_ofBlocks hi, Bool.and_eq_true] at howns
  exact howns.1

/-- Two owners have names with different slugs. -/
theorem slug_ne_of_owns {i j : Nat} (hij : i < j) (hi : (placed blocks)[i]? = some (p, d))
    (hj : (placed blocks)[j]? = some (q, e)) (hp : (ofBlocks blocks).owns p = true)
    (hq : (ofBlocks blocks).owns q = true) : slug d.name ≠ slug e.name := by
  intro hslug
  have hbase := isBase_of_owns (List.mem_of_getElem? hi) hp
  have hmem : (p, d) ∈ (placed blocks).take j := by
    rw [List.mem_take_iff_getElem]
    obtain ⟨hlt, hget⟩ := List.getElem?_eq_some_iff.mp hi
    exact ⟨i, by omega, hget⟩
  have hany : ((placed blocks).take j).any (fun entry =>
      entry.2.isBase && slug entry.2.name == slug e.name) = true :=
    List.any_eq_true.mpr ⟨_, hmem, by simp [hbase, hslug]⟩
  rw [owns_ofBlocks hj, hany] at hq
  simp at hq

/-- The first base definition of every slug owns it. -/
theorem exists_owner (h : (p, d) ∈ placed blocks) (hbase : d.isBase = true) :
    ∃ q e, (q, e) ∈ placed blocks ∧ slug e.name = slug d.name ∧
      (ofBlocks blocks).owns q = true := by
  obtain ⟨j, hj⟩ := List.mem_iff_getElem?.mp h
  induction j using Nat.strongRecOn generalizing p d with
  | ind j ih =>
    by_cases hany : ((placed blocks).take j).any (fun entry =>
        entry.2.isBase && slug entry.2.name == slug d.name) = true
    · -- a base definition of the slug before this one is nearer to the first
      obtain ⟨⟨q, e⟩, hmem, hq⟩ := List.any_eq_true.mp hany
      obtain ⟨hebase, hslug⟩ : e.isBase = true ∧ slug e.name = slug d.name := by simpa using hq
      obtain ⟨i, hlt, hi⟩ := List.mem_take_iff_getElem.mp hmem
      have hi : (placed blocks)[i]? = some (q, e) := List.getElem?_eq_some_iff.mpr ⟨_, hi⟩
      obtain ⟨r, f, hr, hf, howns⟩ := ih i (by omega) (List.mem_of_getElem? hi) hebase hi
      exact ⟨r, f, hr, hf.trans hslug, howns⟩
    · refine ⟨p, d, h, rfl, ?_⟩
      rw [owns_ofBlocks hj, hbase]
      simpa using hany

end Anchor.Plan

end WebIdl
