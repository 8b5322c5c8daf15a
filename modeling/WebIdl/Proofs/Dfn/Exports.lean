import WebIdl.Dfn.Export
import WebIdl.Proofs.Dfn.Claims

/-!
# Which ids are exported

* `DfnType.isSome_ofMember?` — every member that has a name has a type.
* `ExportedTerm.mem_ids_all` — the ids exported are those of the definitions that own their names
  and of the named members written in them, each from its term if there is one.
-/

namespace WebIdl

namespace DfnType

theorem isSome_ofMember?_ofModifiers (modifiers : List Token) :
    (ofMember? (Member.Kind.ofModifiers modifiers)).isSome = true := by
  unfold Member.Kind.ofModifiers
  cases hfound : modifiers.findSome? (Member.Kind.ofSpecial? ·.text) with
  | none => rfl
  | some kind =>
    obtain ⟨token, -, hkind⟩ := List.exists_of_findSome?_eq_some hfound
    unfold Member.Kind.ofSpecial? at hkind
    split at hkind <;> cases hkind <;> rfl

/-- Only declarations have no type, and they have no name. -/
theorem isSome_ofMember? {m : Member} (h : m.name?.isSome = true) :
    (ofMember? m.kind).isSome = true := by
  obtain ⟨attrs, scope, form⟩ := m
  cases form with
  | operation modifiers type name arguments semicolon =>
    exact isSome_ofMember?_ofModifiers modifiers
  | declaration => cases h
  | _ => rfl

theorem isSome_ofDefinition? {d : Definition} (h : d.isBase = true) :
    (ofDefinition? d.kind).isSome = true := by
  cases hkind : d.kind <;> simp_all [Definition.isBase, ofDefinition?]

end DfnType

theorem Definition.isPartial_eq_false {d : Definition} (h : d.isBase = true) :
    d.isPartial = false :=
  (isBase_iff.mp h).1

namespace ExportedTerm

variable (plan : Anchor.Plan) (claims : Claims)

/-- The id that a definition is exported with. -/
def definitionId (place : Place) (d : Definition) : String :=
  (claims.definition? place).elim (Anchor.definitionName d.name) (·.id)

/-- The id that a member is exported with. -/
def memberId (place : MemberPlace) (m : Member) : String :=
  (claims.member? place).elim
    (Anchor.memberName m.scope (m.name?.getD "") (plan.overload place)) (·.id)

variable {plan claims}

theorem memberId_of_eq_none {place : MemberPlace} {m : Member} {name : String}
    (hclaim : claims.member? place = none) (hname : m.name? = some name) :
    memberId plan claims place m = Anchor.memberName m.scope name (plan.overload place) := by
  simp [memberId, hname, hclaim]

theorem memberId_of_eq_some {place : MemberPlace} {designation : Designation} (m : Member)
    (hclaim : claims.member? place = some designation) :
    memberId plan claims place m = designation.id := by
  simp [memberId, hclaim]

theorem ids_ofMember (place : MemberPlace) (m : Member) :
    (ofMember plan claims place m).map (·.id) =
      if m.name?.isSome then some (memberId plan claims place m) else none := by
  cases hname : m.name? with
  | none => simp [ofMember, hname]
  | some name =>
    have hsome : m.name?.isSome = true := by simp [hname]
    obtain ⟨type, htype⟩ := Option.isSome_iff_exists.mp (DfnType.isSome_ofMember? hsome)
    simp [ofMember, memberId, hname, htype]

/-- Definitions that do not own their names export nothing. -/
theorem ofDefinition_eq_nil {place : Place} (h : plan.owns place = false) (d : Definition) :
    ofDefinition plan claims place d = [] := by
  simp [ofDefinition, h]

theorem mem_ids_ofDefinition {place : Place} {d : Definition} (hbase : d.isBase = true)
    (howns : plan.owns place = true) {id : String} :
    id ∈ (ofDefinition plan claims place d).map (·.id) ↔
      id = definitionId claims place d ∨
        ∃ m index, (m, index) ∈ d.members.zipIdx ∧ m.name?.isSome = true ∧
          id = memberId plan claims (place.member index) m := by
  obtain ⟨type, htype⟩ := Option.isSome_iff_exists.mp (DfnType.isSome_ofDefinition? hbase)
  have hpartial := Definition.isPartial_eq_false hbase
  unfold ofDefinition
  rw [hpartial, howns, htype]
  simp only [Bool.not_true, Bool.or_self, Bool.false_eq_true, if_false, List.map_cons,
    List.mem_cons, List.map_filterMap, List.mem_filterMap, ids_ofMember]
  refine or_congr Iff.rfl ?_
  constructor
  · rintro ⟨⟨m, index⟩, hm, hid⟩
    split at hid
    · rename_i hname
      exact ⟨m, index, hm, hname, (Option.some.inj hid).symm⟩
    · cases hid
  · rintro ⟨m, index, hm, hname, rfl⟩
    exact ⟨(m, index), hm, if_pos hname⟩

variable (claims) {blocks : List (List Definition)}

/-- **The ids exported are those of the definitions that own their names and of the named members
written in them.** -/
theorem mem_ids_all {id : String} :
    id ∈ (all blocks (.ofBlocks blocks) claims).map (·.id) ↔
      ∃ place d, (place, d) ∈ placed blocks ∧ (Anchor.Plan.ofBlocks blocks).owns place = true ∧
        (id = definitionId claims place d ∨
          ∃ m index, (m, index) ∈ d.members.zipIdx ∧ m.name?.isSome = true ∧
            id = memberId (.ofBlocks blocks) claims (place.member index) m) := by
  unfold all
  rw [List.map_flatMap, List.mem_flatMap]
  constructor
  · rintro ⟨⟨place, d⟩, hd, hid⟩
    cases howns : (Anchor.Plan.ofBlocks blocks).owns place with
    | false =>
      dsimp only at hid
      rw [ofDefinition_eq_nil howns] at hid
      cases hid
    | true =>
      have hbase := Anchor.Plan.isBase_of_owns hd howns
      exact ⟨place, d, hd, howns, (mem_ids_ofDefinition hbase howns).mp hid⟩
  · rintro ⟨place, d, hd, howns, hid⟩
    have hbase := Anchor.Plan.isBase_of_owns hd howns
    exact ⟨(place, d), hd, (mem_ids_ofDefinition hbase howns).mpr hid⟩

end ExportedTerm

end WebIdl
