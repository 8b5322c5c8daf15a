import WebIdl.Proofs.Anchor.Order
import WebIdl.Proofs.Catalog.Fragments

/-!
# The anchor plan in document order

The plan is made in one pass that remembers what it has seen. In terms of the order of the document
alone, it ranks members by their keys and gives each slug to the first base definition of it.

* `Anchor.Plan.overload_eq_countP` — the number of a member counts the members of its key before it.
* `Anchor.Plan.map_overload_eq_range` — the members of a key are numbered from 0 without gaps.
* `Anchor.Plan.owns_iff` — a base definition owns its name if none before it has the slug.
* `Anchor.Plan.base?_of_owns` — an owner is what the catalog finds under its name.
* `Anchor.Plan.ranks_ofBlocks` — all of this for a document.
-/

namespace WebIdl.Anchor.Plan

variable {blocks : List (List Definition)}

/-! ### Numbers -/

/-- The number of a member is the number of members before it in the document that have its key. -/
theorem overload_eq_countP {p : MemberPlace} {m : Member} {key : String × String}
    (h : (p, m) ∈ placedMembers blocks) (hkey : memberKey? m = some key) :
    (ofBlocks blocks).overload p =
      (placedMembers blocks).countP fun (q, n) =>
        decide (q.path < p.path) && memberKey? n == some key := by
  obtain ⟨i, hi⟩ := List.mem_iff_getElem?.mp h
  have hbefore : (placedMembers blocks).take i =
      (placedMembers blocks).filter fun x => decide (x.1.path < p.path) :=
    take_eq_filter_of_pairwise (fun _ _ => List.lt_asymm) (pairwise_placedMembers blocks) hi
  rw [overload_ofBlocks hi hkey, ← List.map_take, hbefore, List.count_filterMap, List.countP_map,
    List.countP_filter]
  congr 1
  funext x
  exact Bool.and_comm _ _

/-- The members of a key, in document order, are numbered from 0 without gaps. -/
theorem map_overload_eq_range (key : String × String) :
    let members := (placedMembers blocks).filter fun (_, n) => memberKey? n == some key
    members.map (fun (p, _) => (ofBlocks blocks).overload p) = List.range members.length := by
  intro members
  have hsorted : members.Pairwise fun x y => x.1.path < y.1.path :=
    (pairwise_placedMembers blocks).filter _
  rw [← map_countP_of_pairwise (fun _ _ => List.lt_asymm) hsorted]
  refine List.map_congr_left ?_
  rintro ⟨p, m⟩ hm
  obtain ⟨hm, hkey⟩ := List.mem_filter.mp hm
  dsimp only
  rw [overload_eq_countP hm (by simpa using hkey), List.countP_filter]

/-! ### Owners -/

/-- A definition owns its name if it is a base definition and none before it has its slug. -/
theorem owns_iff {p : Place} {d : Definition} (h : (p, d) ∈ placed blocks) :
    (ofBlocks blocks).owns p = true ↔ d.isBase = true ∧
      ∀ q e, (q, e) ∈ placed blocks → q.path < p.path → e.isBase = true →
        slug e.name ≠ slug d.name := by
  obtain ⟨i, hi⟩ := List.mem_iff_getElem?.mp h
  have hbefore : (placed blocks).take i =
      (placed blocks).filter fun x => decide (x.1.path < p.path) :=
    take_eq_filter_of_pairwise (fun _ _ => List.lt_asymm) (pairwise_placed blocks) hi
  rw [owns_ofBlocks hi, hbefore]
  simp

/-- An owner is what the catalog finds under its name, in its family or without regard to it. -/
theorem base?_of_owns {p : Place} {d : Definition} (h : (p, d) ∈ placed blocks)
    (howns : (ofBlocks blocks).owns p = true) {family : Option Definition.Family}
    (hfamily : family = none ∨ family = d.family) :
    (Catalog.ofBlocks blocks).base? d.name family = some ⟨p.block, p.definition, d⟩ := by
  obtain ⟨hbase, hfirst⟩ := (owns_iff h).mp howns
  unfold Catalog.base?
  rw [Catalog.fragments_ofBlocks, List.find?_map]
  rw [find?_eq_some_of_pairwise (pairwise_placed blocks) h]
  · rfl
  · rcases hfamily with rfl | rfl
    · simp [Fragment.name, hbase]
    · cases hd : d.family <;> simp [Fragment.name, hbase, hd]
  · -- a base definition of the same name before it would have the same slug
    rintro ⟨q, e⟩ he hlt
    have hne : e.isBase = true → e.name ≠ d.name := fun hebase hname =>
      hfirst q e he hlt hebase (congrArg slug hname)
    cases hebase : e.isBase with
    | false => simp [hebase]
    | true => simp [Fragment.name, hne hebase]

/-! ### All of the plan -/

/-- **The plan numbers each member by how many members before it in the document have the slugs of
its container and its name, so those that share them get 0, 1, 2 and so on; a definition owns its
name exactly when it is neither partial nor an includes statement and no such definition before it
has the same slug; and the catalog finds an owner under its name.** -/
theorem ranks_ofBlocks (blocks : List (List Definition)) :
    (∀ p m name, (p, m) ∈ placedMembers blocks → m.name? = some name →
      (ofBlocks blocks).overload p =
        (placedMembers blocks).countP fun (q, n) =>
          decide (q.path < p.path) && memberKey? n == some (slug m.scope, memberSlug name)) ∧
      (∀ key,
        let members := (placedMembers blocks).filter fun (_, n) => memberKey? n == some key
        members.map (fun (p, _) => (ofBlocks blocks).overload p) = List.range members.length) ∧
      ∀ p d, (p, d) ∈ placed blocks →
        ((ofBlocks blocks).owns p = true ↔
          d.isPartial = false ∧ d.kind ≠ .includes ∧
            ∀ q e, (q, e) ∈ placed blocks → q.path < p.path → e.isPartial = false →
              e.kind ≠ .includes → slug e.name ≠ slug d.name) ∧
        ((ofBlocks blocks).owns p = true → ∀ family, family = none ∨ family = d.family →
          (Catalog.ofBlocks blocks).base? d.name family = some ⟨p.block, p.definition, d⟩) := by
  refine ⟨?_, map_overload_eq_range, fun p d hd => ⟨?_, ?_⟩⟩
  · intro p m name hm hname
    exact overload_eq_countP hm (by simp [memberKey?, hname])
  · rw [owns_iff hd, Definition.isBase_iff, and_assoc]
    simp only [Definition.isBase_iff, and_imp]
  · intro howns family hfamily
    exact base?_of_owns hd howns hfamily

end WebIdl.Anchor.Plan
