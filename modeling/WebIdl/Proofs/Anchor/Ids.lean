import Mathlib.Data.List.Perm.Basic
import WebIdl.Proofs.Anchor.Plan
import WebIdl.Proofs.Anchor.Slug

/-!
# Which generated ids are unique

The anchor plan gives ids to the definitions that own their names and to the members that have
names. Definitions of one slug, overloads, partial definitions and repeated names never get one id
twice. Two ids are the same only where slugs that are not the same make the same text once they are
joined by hyphens.

* `Anchor.NamesApart` — no definition has a name like a container and a member in a row.
* `Anchor.MembersApart` — members whose slugs differ but make the same text have different numbers.
* `Anchor.nodup_allIds_iff` — the ids of a document are pairwise distinct exactly when both hold.
-/

namespace WebIdl

/-! ### Ids of members and definitions -/

namespace Member

/-- There is an element around the member that can carry an id. -/
def isWrapped (m : Member) : Bool :=
  match m.form with
  | .enumValue .. => false
  | _ => true

/-- The name of the member defines it. The name of a default `toJSON` links to its specification. -/
def definesItself (m : Member) : Bool :=
  !(m.kind == .operation && m.name?.getD "" == "toJSON" && hasExtAttr m.attrs "Default")

end Member

namespace Anchor.Plan

/-- The id of the element around a member, if it has one. -/
def wrapperIds (plan : Plan) (place : MemberPlace) (m : Member) : List String :=
  if m.isWrapped then
    (m.name?.map fun name => memberWrapper m.scope name (plan.overload place)).toList
  else []

/-- The id of the name of a member, if it has one. -/
def nameIds (plan : Plan) (place : MemberPlace) (m : Member) : List String :=
  if m.definesItself then
    (m.name?.map fun name => memberName m.scope name (plan.overload place)).toList
  else []

/-- The ids of a member: that of the element around it, and that of its name. -/
def memberIds (plan : Plan) (place : MemberPlace) (m : Member) : List String :=
  plan.wrapperIds place m ++ plan.nameIds place m

/-- The ids of a definition: that of the element around it, and that of its name. -/
def definitionIds (plan : Plan) (place : Place) (d : Definition) : List String :=
  if plan.owns place then [definitionWrapper d.name, definitionName d.name] else []

variable {plan : Plan}

theorem mem_definitionIds {place : Place} {d : Definition} {id : String} :
    id ∈ plan.definitionIds place d ↔
      plan.owns place = true ∧ (id = definitionWrapper d.name ∨ id = definitionName d.name) := by
  unfold definitionIds
  cases plan.owns place <;> simp

theorem mem_memberIds {place : MemberPlace} {m : Member} {id : String} :
    id ∈ plan.memberIds place m ↔ ∃ name, m.name? = some name ∧
      (m.isWrapped = true ∧ id = memberWrapper m.scope name (plan.overload place) ∨
        m.definesItself = true ∧ id = memberName m.scope name (plan.overload place)) := by
  unfold memberIds wrapperIds nameIds
  cases m.name? <;> cases m.isWrapped <;> cases m.definesItself <;> simp

/-- Every member with a name carries an id. -/
theorem isWrapped_or_definesItself (m : Member) :
    m.isWrapped = true ∨ m.definesItself = true := by
  obtain ⟨attrs, scope, form⟩ := m
  cases form with
  | enumValue value separator => exact .inr rfl
  | _ => exact .inl rfl

theorem nodup_definitionIds_at (place : Place) (d : Definition) :
    (plan.definitionIds place d).Nodup := by
  unfold definitionIds
  cases plan.owns place <;> simp [definitionName_ne_definitionWrapper.symm]

theorem nodup_memberIds_at (place : MemberPlace) (m : Member) :
    (plan.memberIds place m).Nodup := by
  unfold memberIds wrapperIds nameIds
  cases m.name? <;> cases m.isWrapped <;> cases m.definesItself <;>
    simp [memberName_ne_memberWrapper.symm]

theorem memberKey?_eq_some {m : Member} {name : String} (h : m.name? = some name) :
    memberKey? m = some (slug m.scope, memberSlug name) := by
  simp [memberKey?, h]

theorem exists_name_of_memberKey? {m : Member} {key : String × String}
    (h : memberKey? m = some key) :
    ∃ name, m.name? = some name ∧ key = (slug m.scope, memberSlug name) := by
  obtain ⟨name, hname, rfl⟩ := Option.map_eq_some_iff.mp h
  exact ⟨name, hname, rfl⟩

end Anchor.Plan

namespace Anchor

open Plan

/-! ### What keeps ids apart -/

/-- No base definition has a name like a container and a member in a row. -/
def NamesApart (blocks : List (List Definition)) : Prop :=
  ∀ p d q m key, (p, d) ∈ placed blocks → d.isBase = true → (q, m) ∈ placedMembers blocks →
    memberKey? m = some key → slug d.name ≠ joined key

/-- Two members both carry an id of their element, or both carry an id of their name. -/
def SharesKindOfId (m n : Member) : Prop :=
  m.isWrapped = true ∧ n.isWrapped = true ∨ m.definesItself = true ∧ n.definesItself = true

/-- Members whose slugs differ but make the same text have different numbers. -/
def MembersApart (blocks : List (List Definition)) : Prop :=
  ∀ p m key q n key', (p, m) ∈ placedMembers blocks → (q, n) ∈ placedMembers blocks →
    memberKey? m = some key → memberKey? n = some key' → key ≠ key' → joined key = joined key' →
    SharesKindOfId m n → (ofBlocks blocks).overload p ≠ (ofBlocks blocks).overload q

variable (blocks : List (List Definition))

/-- The ids of the definitions of a document. -/
def definitionIds : List String :=
  (placed blocks).flatMap fun (p, d) => (ofBlocks blocks).definitionIds p d

/-- The ids of the members of a document. -/
def memberIds : List String :=
  (placedMembers blocks).flatMap fun (p, m) => (ofBlocks blocks).memberIds p m

/-! ### Definitions -/

theorem nodup_definitionIds_all : (definitionIds blocks).Nodup := by
  unfold definitionIds
  rw [List.nodup_flatMap]
  constructor
  · rintro ⟨p, d⟩ -
    exact nodup_definitionIds_at p d
  · rw [List.pairwise_iff_getElem]
    rintro i j hi hj hij id hid hid'
    obtain ⟨hp, hid⟩ := mem_definitionIds.mp hid
    obtain ⟨hq, hid'⟩ := mem_definitionIds.mp hid'
    have hslug := slug_ne_of_owns hij (List.getElem?_eq_getElem hi) (List.getElem?_eq_getElem hj)
      hp hq
    rcases hid with rfl | rfl <;> rcases hid' with h | h
    · exact hslug (definitionWrapper_inj.mp h)
    · exact definitionName_ne_definitionWrapper h.symm
    · exact definitionName_ne_definitionWrapper h
    · exact hslug (definitionName_inj.mp h)

/-! ### A definition and a member -/

/-- The first member of every key has the number 0. -/
theorem exists_first {q : MemberPlace} {m : Member} {key : String × String}
    (h : (q, m) ∈ placedMembers blocks) (hkey : memberKey? m = some key) :
    ∃ p n, (p, n) ∈ placedMembers blocks ∧ memberKey? n = some key ∧
      (ofBlocks blocks).overload p = 0 := by
  obtain ⟨j, hj⟩ := List.mem_iff_getElem?.mp h
  induction j using Nat.strongRecOn generalizing q m with
  | ind j ih =>
    by_cases hseen :
        key ∈ (((placedMembers blocks).map (·.2)).take j).filterMap memberKey?
    · -- a member of the key before this one is nearer to the first
      obtain ⟨n, hn, hnkey⟩ := List.mem_filterMap.mp hseen
      obtain ⟨i, hlt, hi⟩ := List.mem_take_iff_getElem.mp hn
      have hi : ((placedMembers blocks).map (·.2))[i]? = some n :=
        List.getElem?_eq_some_iff.mpr ⟨_, hi⟩
      rw [List.getElem?_map] at hi
      obtain ⟨⟨p, n⟩, hp, rfl⟩ := Option.map_eq_some_iff.mp hi
      exact ih i (by omega) (List.mem_of_getElem? hp) hnkey hp
    · refine ⟨q, m, h, hkey, ?_⟩
      rw [overload_ofBlocks hj hkey]
      exact List.count_eq_zero.mpr hseen

variable {blocks}

/-- Where a base definition has a name like a container and a member in a row, the owner of the slug
and the first member of the key have an id in common. -/
theorem exists_shared_id {p : Place} {d : Definition} {q : MemberPlace} {m : Member}
    {key : String × String} (hd : (p, d) ∈ placed blocks) (hbase : d.isBase = true)
    (hm : (q, m) ∈ placedMembers blocks) (hkey : memberKey? m = some key)
    (hslug : slug d.name = joined key) :
    ∃ id, id ∈ definitionIds blocks ∧ id ∈ memberIds blocks := by
  obtain ⟨r, e, he, heslug, howns⟩ := exists_owner hd hbase
  obtain ⟨s, n, hn, hnkey, hzero⟩ := exists_first blocks hm hkey
  obtain ⟨name, hname, rfl⟩ := exists_name_of_memberKey? hnkey
  have hjoined : slug e.name = joined (slug n.scope, memberSlug name) := heslug.trans hslug
  rcases isWrapped_or_definesItself n with hwrapped | hself
  · have hid : definitionWrapper e.name = memberWrapper n.scope name _ :=
      definitionWrapper_eq_memberWrapper.mpr ⟨hjoined, hzero⟩
    refine ⟨definitionWrapper e.name, List.mem_flatMap.mpr ⟨_, he, ?_⟩,
      List.mem_flatMap.mpr ⟨_, hn, ?_⟩⟩
    · exact mem_definitionIds.mpr ⟨howns, .inl rfl⟩
    · exact mem_memberIds.mpr ⟨name, hname, .inl ⟨hwrapped, hid⟩⟩
  · have hid : definitionName e.name = memberName n.scope name _ :=
      definitionName_eq_memberName.mpr ⟨hjoined, hzero⟩
    refine ⟨definitionName e.name, List.mem_flatMap.mpr ⟨_, he, ?_⟩,
      List.mem_flatMap.mpr ⟨_, hn, ?_⟩⟩
    · exact mem_definitionIds.mpr ⟨howns, .inr rfl⟩
    · exact mem_memberIds.mpr ⟨name, hname, .inr ⟨hself, hid⟩⟩

/-- The ids of definitions and those of members differ exactly when no definition has a name like a
container and a member in a row. -/
theorem disjoint_ids_iff :
    (definitionIds blocks).Disjoint (memberIds blocks) ↔ NamesApart blocks := by
  constructor
  · intro h p d q m key hd hbase hm hkey hslug
    obtain ⟨id, hdefinition, hmember⟩ := exists_shared_id hd hbase hm hkey hslug
    exact h hdefinition hmember
  · intro hapart id hdefinition hmember
    obtain ⟨⟨p, d⟩, hd, hid⟩ := List.mem_flatMap.mp hdefinition
    obtain ⟨⟨q, m⟩, hm, hid'⟩ := List.mem_flatMap.mp hmember
    obtain ⟨howns, hid⟩ := mem_definitionIds.mp hid
    obtain ⟨name, hname, hid'⟩ := mem_memberIds.mp hid'
    have hne := hapart p d q m _ hd (isBase_of_owns hd howns) hm (memberKey?_eq_some hname)
    rcases hid with rfl | rfl <;> rcases hid' with ⟨-, h⟩ | ⟨-, h⟩
    · exact hne (definitionWrapper_eq_memberWrapper.mp h).1
    · exact memberName_ne_definitionWrapper h.symm
    · exact definitionName_ne_memberWrapper h
    · exact hne (definitionName_eq_memberName.mp h).1

/-! ### Two members -/

/-- Two members have an id in common exactly when their slugs make the same text, their numbers are
the same, and they carry ids of the same kind. -/
theorem not_disjoint_memberIds_iff {plan : Plan} {p q : MemberPlace} {m n : Member} :
    ¬ (plan.memberIds p m).Disjoint (plan.memberIds q n) ↔
      ∃ key key', memberKey? m = some key ∧ memberKey? n = some key' ∧
        joined key = joined key' ∧ plan.overload p = plan.overload q ∧ SharesKindOfId m n := by
  constructor
  · intro h
    obtain ⟨id, hid, hid'⟩ : ∃ id, id ∈ plan.memberIds p m ∧ id ∈ plan.memberIds q n := by
      simpa [List.Disjoint] using h
    obtain ⟨name, hname, hid⟩ := mem_memberIds.mp hid
    obtain ⟨name', hname', hid'⟩ := mem_memberIds.mp hid'
    refine ⟨_, _, memberKey?_eq_some hname, memberKey?_eq_some hname', ?_⟩
    rcases hid with ⟨hm, rfl⟩ | ⟨hm, rfl⟩ <;> rcases hid' with ⟨hn, h⟩ | ⟨hn, h⟩
    · obtain ⟨hjoined, hnumber⟩ := memberWrapper_inj.mp h
      exact ⟨hjoined, hnumber, .inl ⟨hm, hn⟩⟩
    · exact absurd h.symm memberName_ne_memberWrapper
    · exact absurd h memberName_ne_memberWrapper
    · obtain ⟨hjoined, hnumber⟩ := memberName_inj.mp h
      exact ⟨hjoined, hnumber, .inr ⟨hm, hn⟩⟩
  · rintro ⟨key, key', hkey, hkey', hjoined, hnumber, hkind⟩ hdisjoint
    obtain ⟨name, hname, rfl⟩ := exists_name_of_memberKey? hkey
    obtain ⟨name', hname', rfl⟩ := exists_name_of_memberKey? hkey'
    rcases hkind with ⟨hm, hn⟩ | ⟨hm, hn⟩
    · exact hdisjoint (mem_memberIds.mpr ⟨name, hname, .inl ⟨hm, rfl⟩⟩)
        (mem_memberIds.mpr ⟨name', hname', .inl ⟨hn, memberWrapper_inj.mpr ⟨hjoined, hnumber⟩⟩⟩)
    · exact hdisjoint (mem_memberIds.mpr ⟨name, hname, .inr ⟨hm, rfl⟩⟩)
        (mem_memberIds.mpr ⟨name', hname', .inr ⟨hn, memberName_inj.mpr ⟨hjoined, hnumber⟩⟩⟩)

theorem nodup_memberIds_iff : (memberIds blocks).Nodup ↔ MembersApart blocks := by
  unfold memberIds
  rw [List.nodup_flatMap, List.pairwise_iff_getElem]
  refine Iff.trans (and_iff_right fun (p, m) _ => nodup_memberIds_at p m) ?_
  constructor
  · intro h p m key q n key' hm hn hkey hkey' hne hjoined hkind hnumber
    obtain ⟨i, hi, hpm⟩ := List.mem_iff_getElem.mp hm
    obtain ⟨j, hj, hqn⟩ := List.mem_iff_getElem.mp hn
    have hshared := not_disjoint_memberIds_iff.mpr ⟨_, _, hkey, hkey', hjoined, hnumber, hkind⟩
    rcases Nat.lt_trichotomy i j with hij | rfl | hij
    · have hdisjoint := h i j hi hj hij
      rw [Function.onFun_apply, hpm, hqn] at hdisjoint
      exact hshared hdisjoint
    · obtain ⟨rfl, rfl⟩ : p = q ∧ m = n := by simpa [hpm] using hqn
      exact hne (Option.some_inj.mp (hkey.symm.trans hkey'))
    · have hdisjoint := h j i hj hi hij
      rw [Function.onFun_apply, hpm, hqn] at hdisjoint
      exact hshared (List.disjoint_comm.mp hdisjoint)
  · intro hapart i j hi hj hij
    by_contra hshared
    obtain ⟨key, key', hkey, hkey', hjoined, hnumber, hkind⟩ :=
      not_disjoint_memberIds_iff.mp hshared
    by_cases hne : key = key'
    · -- members of one key are numbered apart
      subst hne
      exact overload_ne hij (List.getElem?_eq_getElem hi) (List.getElem?_eq_getElem hj) hkey hkey'
        hnumber
    · exact hapart _ _ _ _ _ _ (List.getElem_mem hi) (List.getElem_mem hj) hkey hkey' hne hjoined
        hkind hnumber

/-! ### All ids -/

variable (blocks)

/-- The ids of a document, those of every definition followed by those of its members. -/
def allIds : List String :=
  (placed blocks).flatMap fun (p, d) =>
    (ofBlocks blocks).definitionIds p d ++ d.members.zipIdx.flatMap fun (m, index) =>
      (ofBlocks blocks).memberIds (p.member index) m

variable {blocks}

theorem allIds_perm : (allIds blocks).Perm (definitionIds blocks ++ memberIds blocks) := by
  have hmembers : memberIds blocks = (placed blocks).flatMap fun (p, d) =>
      d.members.zipIdx.flatMap fun (m, index) =>
        (ofBlocks blocks).memberIds (p.member index) m := by
    simp only [memberIds, placedMembers, membersOf, List.flatMap_assoc, List.flatMap_map]
  rw [hmembers]
  exact (List.flatMap_append_perm ..).symm

/-- The ids of a document are pairwise distinct exactly when its names and its members are apart. -/
theorem nodup_allIds_iff : (allIds blocks).Nodup ↔ NamesApart blocks ∧ MembersApart blocks := by
  rw [allIds_perm.nodup_iff, List.nodup_append', disjoint_ids_iff, nodup_memberIds_iff,
    and_iff_right (nodup_definitionIds_all blocks), and_comm]

end Anchor

end WebIdl
