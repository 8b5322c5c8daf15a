import WebIdl.Proofs.Dfn.Exports
import WebIdl.Proofs.Document.Anchors

/-!
# What a document exports

The ids that are exported are worked out apart from the markup, so the two can differ, each in one
way.

* `Document.exports_subset_anchors_iff` — an exported id is an anchor of the document, unless it is
  that of a default `toJSON` for which the host has no term: its name is a link and defines nothing.
* `Document.marked_subset_exports_iff` — a name that is marked as exported, in the markup or for the
  host, is exported, unless it is that of a member of a definition that does not own its name.
-/

namespace WebIdl

theorem Definition.isBase_of_mem_members {d : Definition} {m : Member} (hm : m ∈ d.members)
    (hpartial : d.isPartial = false) : d.isBase = true := by
  obtain ⟨attrs, form⟩ := d
  cases form with
  | includes => cases hm
  | container head name parent body =>
    unfold isBase
    rw [hpartial]
    cases head <;> rfl
  | typedef | callback => rfl

/-- Only the name of a default `toJSON` does not define its member. -/
theorem Member.definesItself_eq_false_iff {m : Member} :
    m.definesItself = false ↔
      m.kind = .operation ∧ m.name? = some "toJSON" ∧ hasExtAttr m.attrs "Default" = true := by
  unfold definesItself
  cases m.name? <;> simp [and_assoc]

namespace Document

section Built

variable (settings : Settings) (provider : Option Xref.Provider) (input : DocumentInput)

/-! ### Exported ids -/

/-- The exported ids are those of the definitions that own their names and of their members. -/
theorem definitionId_mem_exports {place : Place} {d : Definition}
    (hd : (place, d) ∈ placed (definitions input)) (howns : (plan input).owns place = true) :
    ExportedTerm.definitionId (claims input) place d ∈
      (build settings provider input).exports.map (·.id) :=
  (ExportedTerm.mem_ids_all (claims input)).mpr ⟨place, d, hd, howns, .inl rfl⟩

theorem memberId_mem_exports {place : Place} {d : Definition}
    (hd : (place, d) ∈ placed (definitions input)) (howns : (plan input).owns place = true)
    {m : Member} {index : Nat} (hm : (m, index) ∈ d.members.zipIdx)
    (hname : m.name?.isSome = true) :
    ExportedTerm.memberId (plan input) (claims input) (place.member index) m ∈
      (build settings provider input).exports.map (·.id) :=
  (ExportedTerm.mem_ids_all (claims input)).mpr
    ⟨place, d, hd, howns, .inr ⟨m, index, hm, hname, rfl⟩⟩

/-! ### Exported ids are anchors -/

theorem definitionId_mem_anchors {input : DocumentInput} {place : Place} {d : Definition}
    (hd : (place, d) ∈ placed (definitions input)) (howns : (plan input).owns place = true) :
    ExportedTerm.definitionId (claims input) place d ∈
      (build settings provider input).anchors := by
  unfold ExportedTerm.definitionId
  cases hclaim : (claims input).definition? place with
  | some designation =>
    exact mem_anchors_of_mem_designations _ _ _ (mem_designations_of_definition? hclaim)
  | none => exact definitionName_mem_anchors _ _ hd howns hclaim

/-- The id that a member is exported with is an anchor if the member has taken a term or its name
defines it. -/
theorem memberId_mem_anchors {input : DocumentInput} {place : Place} {d : Definition}
    (hd : (place, d) ∈ placed (definitions input)) {m : Member} {index : Nat}
    (hm : (m, index) ∈ d.members.zipIdx) (hname : m.name?.isSome = true)
    (h : (claims input).member? (place.member index) = none → m.definesItself = true) :
    ExportedTerm.memberId (plan input) (claims input) (place.member index) m ∈
      (build settings provider input).anchors := by
  obtain ⟨name, hname⟩ := Option.isSome_iff_exists.mp hname
  cases hclaim : (claims input).member? (place.member index) with
  | some designation =>
    rw [ExportedTerm.memberId_of_eq_some m hclaim]
    exact mem_anchors_of_mem_designations _ _ _ (mem_designations_of_member? hclaim)
  | none =>
    rw [ExportedTerm.memberId_of_eq_none hclaim hname]
    exact memberName_mem_anchors _ _ hd hm hname (h hclaim) hclaim

/-- **Every exported id is an anchor of the document exactly when those of default `toJSON` members
without a term are.** Such a member gives no anchor itself; something else in the document has to
have its id. -/
theorem exports_subset_anchors_iff :
    (∀ e ∈ (build settings provider input).exports,
        e.id ∈ (build settings provider input).anchors) ↔
      ∀ place d, (place, d) ∈ placed (definitions input) → (plan input).owns place = true →
        ∀ m index, (m, index) ∈ d.members.zipIdx → m.kind = .operation →
          m.name? = some "toJSON" → hasExtAttr m.attrs "Default" = true →
          (claims input).member? (place.member index) = none →
          Anchor.memberName m.scope "toJSON" ((plan input).overload (place.member index)) ∈
            (build settings provider input).anchors := by
  have hexports : (∀ e ∈ (build settings provider input).exports,
        e.id ∈ (build settings provider input).anchors) ↔
      ∀ id ∈ (build settings provider input).exports.map (·.id),
        id ∈ (build settings provider input).anchors := by
    simp only [List.forall_mem_map]
  rw [hexports]
  constructor
  · intro h place d hd howns m index hm hkind hname hdefault hclaim
    rw [← ExportedTerm.memberId_of_eq_none hclaim hname]
    exact h _ (memberId_mem_exports settings provider input hd howns hm (by simp [hname]))
  · intro h id hid
    obtain ⟨place, d, hd, howns, rfl | ⟨m, index, hm, hname, rfl⟩⟩ :=
      (ExportedTerm.mem_ids_all (claims input)).mp hid
    · exact definitionId_mem_anchors settings provider hd howns
    · by_cases hexcept : (claims input).member? (place.member index) = none ∧ m.definesItself = false
      · obtain ⟨hclaim, hself⟩ := hexcept
        obtain ⟨hkind, htoJson, hdefault⟩ := Member.definesItself_eq_false_iff.mp hself
        rw [ExportedTerm.memberId_of_eq_none hclaim htoJson]
        exact h place d hd howns m index hm hkind htoJson hdefault hclaim
      · apply memberId_mem_anchors settings provider hd hm hname
        intro hclaim
        by_contra hself
        exact hexcept ⟨hclaim, by simpa using hself⟩

end Built

/-- An interface with a default `toJSON`, for which the host has no term. -/
def withDefaultToJson : DocumentInput :=
  .block .empty (.ofSource "interface A { [Default] object toJSON(); };")

/-- The operation is exported, and its name is a link to what it does. -/
theorem not_exports_subset_anchors :
    (build silent none withDefaultToJson).exports.map (·.id) = ["dom-a", "dom-a-tojson"] ∧
      (build silent none withDefaultToJson).anchors =
        ["idl-def-a", "dom-a", "idl-def-a-tojson"] ∧
      ¬ ∀ e ∈ (build silent none withDefaultToJson).exports,
        e.id ∈ (build silent none withDefaultToJson).anchors := by
  decide +kernel

/-! ### Marked names are exported -/

section Marked

variable (settings : Settings) (provider : Option Xref.Provider) (input : DocumentInput)

/-- The members of a definition that does not own its name, though it is no partial definition, have
to be exported all the same. -/
def RepeatedMembersExported : Prop :=
  ∀ place d, (place, d) ∈ placed (definitions input) → d.isBase = true →
    (plan input).owns place = false → ∀ m index, (m, index) ∈ d.members.zipIdx →
      m.name?.isSome = true →
        ((claims input).member? (place.member index) = none → m.definesItself = true) →
          ExportedTerm.memberId (plan input) (claims input) (place.member index) m ∈
            (build settings provider input).exports.map (·.id)

theorem memberId_mem_exports_of_repeated (h : RepeatedMembersExported settings provider input)
    {place : Place} {d : Definition} (hd : (place, d) ∈ placed (definitions input))
    (hpartial : d.isPartial = false) {m : Member} {index : Nat}
    (hm : (m, index) ∈ d.members.zipIdx) (hname : m.name?.isSome = true)
    (hself : (claims input).member? (place.member index) = none → m.definesItself = true) :
    ExportedTerm.memberId (plan input) (claims input) (place.member index) m ∈
      (build settings provider input).exports.map (·.id) := by
  have hbase : d.isBase = true :=
    Definition.isBase_of_mem_members (List.fst_mem_of_mem_zipIdx hm) hpartial
  cases howns : (plan input).owns place with
  | true => exact memberId_mem_exports settings provider input hd howns hm hname
  | false => exact h place d hd hbase howns m index hm hname hself

/-- A tag that marks a name as exported has an id that is exported. -/
theorem id_mem_exports_of_mem_dfns (h : RepeatedMembersExported settings provider input) {tag : DfnTag}
    (htag : tag ∈ (build settings provider input).dfns) (hexported : tag.exported = true) :
    ∃ id, tag.id = some id ∧ id ∈ (build settings provider input).exports.map (·.id) := by
  obtain ⟨place, d, hd, ⟨-, hclaim, rfl⟩ | ⟨m, index, hm, hname, hself, hclaim, rfl⟩⟩ :=
    (mem_dfns_build settings provider input).mp htag
  · have howns : (plan input).owns place = true := hexported
    have hid := definitionId_mem_exports settings provider input hd howns
    refine ⟨_, ?_, hid⟩
    simp [Anchor.Plan.definitionTag, ExportedTerm.definitionId, howns, hclaim]
  · have hpartial : d.isPartial = false := by simpa [Anchor.Plan.memberTag] using hexported
    have hid := memberId_mem_exports_of_repeated settings provider input h hd hpartial hm hname
      fun _ => hself
    refine ⟨_, ?_, hid⟩
    simp [Anchor.Plan.memberTag, ExportedTerm.memberId, hclaim]

/-- A term that the host is told to export has an id that is exported. -/
theorem id_mem_exports_of_mem_terms (h : RepeatedMembersExported settings provider input)
    {term : Designation} (hterm : term ∈ (build settings provider input).terms)
    (hexported : term.exported = true) :
    term.id ∈ (build settings provider input).exports.map (·.id) := by
  rcases mem_designations_claims hterm with ⟨t, -, rfl⟩ | ⟨place, hplace⟩ | ⟨place, hplace⟩
  · cases hexported
  · obtain ⟨d, hd, -, t, -, rfl⟩ := definition?_claims hplace
    have hid := definitionId_mem_exports settings provider input hd hexported
    unfold ExportedTerm.definitionId at hid
    rwa [hplace] at hid
  · obtain ⟨p, d, m, i, name, type, rfl, hd, hm, hname, t, -, rfl⟩ := member?_claims hplace
    have hpartial : d.isPartial = false := by simpa [Dfn.Subject.designate] using hexported
    have hself : (claims input).member? (p.member i) = none → m.definesItself = true := by
      intro hnone
      rw [hplace] at hnone
      cases hnone
    have hid := memberId_mem_exports_of_repeated settings provider input h hd hpartial hm
      (by simp [hname]) hself
    rwa [ExportedTerm.memberId_of_eq_some m hplace] at hid

/-- Nothing of a partial definition is exported, and nothing of it is marked. -/
theorem unexported_of_isPartial {place : Place} {d : Definition}
    (hd : (place, d) ∈ placed (definitions input)) (hpartial : d.isPartial = true) :
    ExportedTerm.ofDefinition (plan input) (claims input) place d = [] ∧
      (∀ block, ∀ tag ∈ Markup.collect StartTag.dfn?
          ((rendering settings provider input block).definition d place), tag.exported = false) ∧
      ∀ index designation, (claims input).member? (place.member index) = some designation →
        designation.exported = false := by
  refine ⟨by simp [ExportedTerm.ofDefinition, hpartial], ?_, ?_⟩
  · intro block tag htag
    rcases (Rendering.mem_dfns_definition _).mp htag with ⟨hbase, -, -⟩ | ⟨m, i, -, -, -, -, rfl⟩
    · simp [Definition.isBase, hpartial] at hbase
    · simp [Anchor.Plan.memberTag, hpartial]
  · intro index designation hclaim
    rw [exported_of_member? hd hclaim, hpartial]
    rfl

/-- **Every name that is marked as exported, in the markup or for the host, is exported exactly when
the members of repeated definitions are.** Those are the definitions that do not own their names,
though they are no partial definitions; of partial definitions nothing is marked or exported. -/
theorem marked_subset_exports_iff :
    (∀ place d, (place, d) ∈ placed (definitions input) → d.isPartial = true →
      ExportedTerm.ofDefinition (plan input) (claims input) place d = [] ∧
        (∀ block, ∀ tag ∈ Markup.collect StartTag.dfn?
            ((rendering settings provider input block).definition d place), tag.exported = false) ∧
        ∀ index designation, (claims input).member? (place.member index) = some designation →
          designation.exported = false) ∧
    (((∀ tag ∈ (build settings provider input).dfns, tag.exported = true →
        ∃ id, tag.id = some id ∧ id ∈ (build settings provider input).exports.map (·.id)) ∧
      ∀ term ∈ (build settings provider input).terms, term.exported = true →
        term.id ∈ (build settings provider input).exports.map (·.id)) ↔
      RepeatedMembersExported settings provider input) := by
  refine ⟨fun place d hd => unexported_of_isPartial settings provider input hd, ?_⟩
  constructor
  · rintro ⟨htags, hterms⟩ place d hd hbase howns m index hm hname hself
    have hpartial := Definition.isPartial_eq_false hbase
    cases hclaim : (claims input).member? (place.member index) with
    | some designation =>
      have hexported : designation.exported = true := by
        rw [exported_of_member? hd hclaim, hpartial]
        rfl
      rw [ExportedTerm.memberId_of_eq_some m hclaim]
      exact hterms designation (mem_designations_of_member? hclaim) hexported
    | none =>
      have htag : (plan input).memberTag d m (place.member index) ∈
          (build settings provider input).dfns :=
        (mem_dfns_build ..).mpr ⟨place, d, hd, .inr ⟨m, index, hm, hname, hself hclaim, hclaim, rfl⟩⟩
      obtain ⟨id, hid, hmem⟩ := htags _ htag (by simp [Anchor.Plan.memberTag, hpartial])
      obtain rfl := Option.some.inj hid
      simpa [ExportedTerm.memberId, hclaim] using hmem
  · intro h
    exact ⟨fun tag => id_mem_exports_of_mem_dfns settings provider input h,
      fun term => id_mem_exports_of_mem_terms settings provider input h⟩

end Marked

/-- An interface that comes again with two members, of which the host defines one. -/
def comesAgain : DocumentInput :=
  .term
    (.block .empty
      (.ofSource "interface A {};\ninterface A { attribute long x; attribute long y; };"))
    (.forScope (.ofText "y") "A")

/-- Both members are marked as exported, and neither is. -/
theorem not_marked_subset_exports :
    (build silent none comesAgain).exports.map (·.id) = ["dom-a"] ∧
      (build silent none comesAgain).dfns =
        [⟨some "dom-a", true⟩, ⟨none, false⟩, ⟨some "dom-a-x", true⟩] ∧
      (build silent none comesAgain).terms.map (fun term => (term.id, term.exported)) =
        [("dom-a-y", true)] ∧
      (¬ ∀ tag ∈ (build silent none comesAgain).dfns, tag.exported = true →
        ∃ id ∈ (build silent none comesAgain).exports.map (·.id), tag.id = some id) ∧
      ¬ ∀ term ∈ (build silent none comesAgain).terms, term.exported = true →
        term.id ∈ (build silent none comesAgain).exports.map (·.id) := by
  decide +kernel

end Document

end WebIdl
