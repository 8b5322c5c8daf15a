import WebIdl.Proofs.Markup.Links

/-!
# The elements that define names in markup

* `DfnTag`, `StartTag.dfn?` — what the tag that defines a name says: its id, and whether other
  documents may link to it.
* `Rendering.mem_dfns_definition` — in the markup of a definition, these are the tag of its own name
  and those of its members, as far as no term of the host has been taken for the name.
* `Markup.mem_ids_of_mem_dfns` — the ids that they have are ids in the markup.
-/

namespace WebIdl

open Markup

/-- What the tag that defines a name says. -/
structure DfnTag where
  id : Option String
  /-- Other documents may link to the name. -/
  exported : Bool
deriving DecidableEq, Repr

/-! ### Start tags that define names -/

namespace StartTag

/-- What a start tag says if it defines a name. -/
def dfn? (head : StartTag) : Option DfnTag :=
  if head.tag = .dfn then some ⟨head.id?, (head.attr? "data-export").isSome⟩ else none

theorem dfn?_of_tag_ne {head : StartTag} (h : head.tag ≠ .dfn) : head.dfn? = none := by
  simp [dfn?, h]

theorem attr?_setAttr? (head : StartTag) {name key : String} (value : Option String)
    (h : key ≠ name) : (head.setAttr? name value).attr? key = head.attr? key := by
  cases value with
  | none => rfl
  | some value => exact (attr?_setAttr ..).trans (if_neg h)

@[simp] theorem attr?_ofTag (tag : Tag) (key : String) : (ofTag tag).attr? key = none := rfl

end StartTag

namespace Markup

/-- The id of a tag that defines a name is an id in the markup. -/
theorem mem_ids_of_mem_dfns {nodes : List Markup} {id : String} {exported : Bool}
    (h : ⟨some id, exported⟩ ∈ collect StartTag.dfn? nodes) : id ∈ ids nodes := by
  obtain ⟨e, he, hdfn⟩ := List.mem_filterMap.mp h
  refine List.mem_filterMap.mpr ⟨e, he, ?_⟩
  unfold StartTag.dfn? at hdfn
  split at hdfn
  · exact congrArg DfnTag.id (Option.some.inj hdfn)
  · cases hdfn

end Markup

namespace Anchor.Plan

variable (plan : Plan)

/-- What the tag that defines the name of a definition says. -/
def definitionTag (d : Definition) (place : Place) : DfnTag :=
  ⟨if plan.owns place then some (definitionName d.name) else none, plan.owns place⟩

/-- What the tag that defines the name of a member says. -/
def memberTag (owner : Definition) (m : Member) (place : MemberPlace) : DfnTag :=
  ⟨some (memberName m.scope (m.name?.getD "") (plan.overload place)), !owner.isPartial⟩

end Anchor.Plan

namespace Rendering

open StartTag

theorem tag_linkHead (target : Target) (c : Option String) : (linkHead target c).tag = .a := by
  cases c <;> cases hinternal : target.isInternal <;> simp [linkHead, hinternal]

theorem dfn?_linkHead (target : Target) (c : Option String) : (linkHead target c).dfn? = none := by
  apply dfn?_of_tag_ne
  simp [tag_linkHead]

variable (rendering : Rendering)

/-- The name that is defined at a site of the definition at a place. -/
def define? (d : Definition) (place : Place) : Site → Option DfnTag
  | .type .. | .extAttr _ => none
  | .definition =>
    if (rendering.claims.definition? place).isSome then none
    else some (rendering.plan.definitionTag d place)
  | .member index definesItself =>
    if (rendering.claims.member? (place.member index)).isSome || !definesItself then none
    else d.members[index]?.map (rendering.plan.memberTag d · (place.member index))

theorem dfn?_definitionDfn (d : Definition) (place : Place) :
    (rendering.definitionDfn d place).dfn? = some (rendering.plan.definitionTag d place) := by
  unfold definitionDfn Anchor.Plan.definitionTag
  cases rendering.plan.owns place <;> simp [dfn?, attr?_setAttr, attr?_setAttr?]

theorem dfn?_memberDfn (owner : Definition) (m : Member) (place : MemberPlace) (c : String) :
    (rendering.memberDfn owner m place c).dfn? = some (rendering.plan.memberTag owner m place) := by
  unfold memberDfn Anchor.Plan.memberTag
  cases owner.isPartial <;> simp [dfn?, attr?_setAttr, attr?_setAttr?]

theorem dfn?_nameHead (d : Definition) (place : Place) :
    (rendering.nameHead d place).dfn? = rendering.define? d place d.nameSite := by
  unfold nameHead Definition.nameSite
  split
  · rw [define?]
    apply dfn?_of_tag_ne
    unfold partialHead
    split <;> simp [tag_linkHead]
  · rw [define?]
    cases rendering.claims.definition? place with
    | some designation =>
      apply dfn?_of_tag_ne
      simp [termLinkHead]
    | none => exact rendering.dfn?_definitionDfn d place

theorem dfn?_memberNameHead (owner : Definition) {m : Member} (place : Place) {index : Nat}
    (hm : (m, index) ∈ owner.members.zipIdx) (c : String) :
    (rendering.memberNameHead owner m (place.member index) c).dfn? =
      rendering.define? owner place (.member index m.definesItself) := by
  have hget : owner.members[index]? = some m := List.mem_zipIdx_iff_getElem?.mp hm
  unfold memberNameHead
  rw [define?, hget]
  cases rendering.claims.member? (place.member index) with
  | some designation =>
    apply dfn?_of_tag_ne
    simp [termLinkHead]
  | none =>
    cases m.definesItself with
    | true => exact rendering.dfn?_memberDfn owner m _ c
    | false => exact dfn?_linkHead rendering.resolver.defaultToJson (some c)

theorem sees_dfns (d : Definition) (place : Place) :
    rendering.SeesNames d place dfn? (rendering.define? d place) where
  span c := dfn?_of_tag_ne (by simp)
  type name nested := by simp [define?, dfn?_linkHead]
  extAttr name := by simp [define?, dfn?_linkHead]
  frame head htag := by
    apply dfn?_of_tag_ne
    rcases htag with htag | htag <;> simp [htag]
  superclass target := by rw [dfn?_linkHead, dfn?_linkHead]
  name := rendering.dfn?_nameHead d place
  member _ _ hm _ c _ := rendering.dfn?_memberNameHead d place hm c

/-- **The names that a definition defines are its own, if it is a base definition, and those of its
members, but for a default `toJSON`.** A name for which the host has a term is not among them. -/
theorem mem_dfns_definition {d : Definition} {place : Place} {tag : DfnTag} :
    tag ∈ collect dfn? (rendering.definition d place) ↔
      (d.isBase = true ∧ rendering.claims.definition? place = none ∧
        tag = rendering.plan.definitionTag d place) ∨
      ∃ m index, (m, index) ∈ d.members.zipIdx ∧ m.name?.isSome = true ∧ m.definesItself = true ∧
        rendering.claims.member? (place.member index) = none ∧
        tag = rendering.plan.memberTag d m (place.member index) := by
  rw [collect_definition (rendering.sees_dfns d place), List.mem_filterMap]
  constructor
  · rintro ⟨site, hsite, htag⟩
    cases site with
    | type | extAttr => cases htag
    | definition =>
      left
      cases hclaim : rendering.claims.definition? place with
      | some designation => simp [define?, hclaim] at htag
      | none =>
        rw [define?, hclaim] at htag
        exact ⟨Definition.mem_sites_definition.mp hsite, rfl, (Option.some.inj htag).symm⟩
    | member index definesItself =>
      right
      obtain ⟨m, hm, hname, rfl⟩ := Definition.mem_sites_member.mp hsite
      have hget : d.members[index]? = some m := List.mem_zipIdx_iff_getElem?.mp hm
      rw [define?, hget] at htag
      cases hclaim : rendering.claims.member? (place.member index) with
      | some designation => simp [hclaim] at htag
      | none =>
        cases hself : m.definesItself with
        | false => simp [hself] at htag
        | true =>
          rw [hclaim, hself] at htag
          exact ⟨m, index, hm, hname, hself, hclaim, (Option.some.inj htag).symm⟩
  · rintro (⟨hbase, hclaim, rfl⟩ | ⟨m, index, hm, hname, hself, hclaim, rfl⟩)
    · refine ⟨.definition, Definition.mem_sites_definition.mpr hbase, ?_⟩
      rw [define?, hclaim]
      rfl
    · refine ⟨.member index true, Definition.mem_sites_member.mpr ⟨m, hm, hname, hself⟩, ?_⟩
      have hget : d.members[index]? = some m := List.mem_zipIdx_iff_getElem?.mp hm
      rw [define?, hclaim, hget]
      rfl

end Rendering

end WebIdl
