import WebIdl.Proofs.Dfn.Claims
import WebIdl.Proofs.Document.UniqueIds
import WebIdl.Proofs.Markup.Dfns

/-!
# Anchors, links and names of a document

A link into a document leads to an id in its markup or to a term of the host.

* `Document.anchors`, `Document.links`, `Document.dfns` — where links can lead, the links in the
  markup of all blocks, and the tags that define names in it.
* `Document.collect_build` — what is read off the start tags of a document is what is read off its
  definitions, one by one.
* `Document.mem_dfns_build` — the tags that define names are those of base definitions and of
  members, as far as no term has been taken for the name, and their ids are anchors.
-/

namespace WebIdl.Document

open Markup

/-! ### What a document shows -/

/-- Where a link into a document can lead. -/
def anchors (document : Document) : List String := document.ids ++ document.terms.map (·.id)

/-- The links in the markup of all blocks, in order. -/
def links (document : Document) : List Link :=
  document.blocks.flatMap fun block => collect StartTag.link? [block.markup.markup]

/-- The tags that define names in the markup of all blocks, in order. -/
def dfns (document : Document) : List DfnTag :=
  document.blocks.flatMap fun block => collect StartTag.dfn? [block.markup.markup]

/-- What the definitions and members of a document have taken. -/
def claims (input : DocumentInput) : Claims :=
  .build input.terms (.ofTerms input.terms) (definitions input) (plan input)

/-- Every term has a designation. -/
theorem length_designations_claims (input : DocumentInput) :
    (claims input).designations.length = input.terms.length := by
  simp [claims, Claims.build]

/-- What the definitions of a block are rendered with. -/
def rendering (settings : Settings) (provider : Option Xref.Provider) (input : DocumentInput)
    (block : BlockInput) : Rendering :=
  ⟨(resolver settings provider input).withCite block.cite, plan input, claims input⟩

/-! ### Terms that are taken -/

section Claimed

variable {input : DocumentInput} {designation : Designation}

/-- A definition that shows a term is a base definition. -/
theorem definition?_claims {place : Place}
    (h : (claims input).definition? place = some designation) :
    ∃ d, (place, d) ∈ placed (definitions input) ∧ d.isBase = true ∧
      ∃ term ∈ input.terms,
        designation = (Dfn.Subject.definition place d).designate (plan input) term :=
  Claims.definition?_build h

/-- A member that shows a term has a name. -/
theorem member?_claims {place : MemberPlace}
    (h : (claims input).member? place = some designation) :
    ∃ p d m i name type, place = p.member i ∧ (p, d) ∈ placed (definitions input) ∧
      (m, i) ∈ d.members.zipIdx ∧ m.name? = some name ∧
      ∃ term ∈ input.terms,
        designation = (Dfn.Subject.member place d m name type).designate (plan input) term :=
  Claims.member?_build h

/-- The members of a definition show terms that are exported, unless it is partial. -/
theorem exported_of_member? {place : Place} {d : Definition} {index : Nat}
    (hd : (place, d) ∈ placed (definitions input))
    (h : (claims input).member? (place.member index) = some designation) :
    designation.exported = !d.isPartial := by
  obtain ⟨p, e, m, i, name, type, hplace, he, -, -, term, -, rfl⟩ := member?_claims h
  obtain ⟨rfl, rfl⟩ := Place.member_inj hplace
  obtain rfl := eq_of_mem_placed hd he
  rfl

/-- The host is told what a name shows for the term that was taken there, or that nothing has taken
the term. -/
theorem mem_designations_claims (h : designation ∈ (claims input).designations) :
    (∃ term ∈ input.terms, designation = .ofTerm term) ∨
      (∃ place, (claims input).definition? place = some designation) ∨
        ∃ place, (claims input).member? place = some designation := by
  rcases Claims.mem_designations_build h with hterm | ⟨place, hplace⟩
  · exact .inl hterm
  · cases place with
    | definition place => exact .inr (.inl ⟨place, (Claims.definition?_eq_at? ..).trans hplace⟩)
    | member place => exact .inr (.inr ⟨place, (Claims.member?_eq_at? ..).trans hplace⟩)

theorem mem_designations_of_definition? {place : Place}
    (h : (claims input).definition? place = some designation) :
    designation ∈ (claims input).designations := by
  rw [Claims.definition?_eq_at?] at h
  exact Claims.mem_designations_of_at? h

theorem mem_designations_of_member? {place : MemberPlace}
    (h : (claims input).member? place = some designation) :
    designation ∈ (claims input).designations := by
  rw [Claims.member?_eq_at?] at h
  exact Claims.mem_designations_of_at? h

end Claimed

/-! ### Start tags -/

theorem tag_renderBlock (resolver : Resolver) (plan : Anchor.Plan) (report : Lint.Report)
    (input : BlockInput) (block : Block) (index : Nat) :
    (renderBlock resolver plan report input block index).markup.head.tag = .pre := by
  have hhead : (input.classes.foldl Element.addClass
      (Rendering.block ⟨resolver.withCite input.cite, plan, resolver.claims⟩ block
        index)).head.tag = .pre := by
    rw [foldl_addClass (f := (·.head.tag)) fun markup => StartTag.tag_addClass markup.head]
    simp [Rendering.block]
  unfold renderBlock markOffending dress
  cases report.verdict? index <;> cases input.id <;>
    simp [Element.setAttr, Element.addClass, hhead]

section Built

variable (settings : Settings) (provider : Option Xref.Provider) (input : DocumentInput)

/-- What is read off the start tags of a document is what is read off its definitions. -/
theorem mem_collect_build {β : Type} {f : StartTag → Option β}
    (hframe : ∀ head, head.tag = .span ∨ head.tag = .pre → f head = none) {b : β} :
    b ∈ (build settings provider input).blocks.flatMap (fun block =>
        collect f [block.markup.markup]) ↔
      ∃ block place d, (block, place.block) ∈ input.blocks.zipIdx ∧
        (d, place.definition) ∈ (Block.parse block.source block.id).definitions.zipIdx ∧
        b ∈ collect f ((rendering settings provider input block).definition d place) := by
  have hblock (block : BlockInput) (index : Nat) :
      collect f [(renderBlock (resolver settings provider input) (plan input)
        (report settings provider input) block (Block.parse block.source block.id)
        index).markup.markup] =
      (Block.parse block.source block.id).definitions.zipIdx.flatMap fun entry =>
        collect f ((rendering settings provider input block).definition entry.1
          ⟨index, entry.2⟩) := by
    have hhead := hframe _ (.inr (tag_renderBlock (resolver settings provider input) (plan input)
      (report settings provider input) block (Block.parse block.source block.id) index))
    have hspan (c : String) : f (.span c) = none := hframe _ (.inl (by simp))
    rw [Element.markup, collect_element_cons, hhead, children_renderBlock,
      Rendering.collect_block _ hspan]
    simp
    rfl
  rw [blocks_build, List.flatMap_map]
  simp only [List.mem_flatMap, hblock]
  constructor
  · rintro ⟨⟨block, index⟩, hindex, ⟨d, i⟩, hd, hb⟩
    exact ⟨block, ⟨index, i⟩, d, hindex, hd, hb⟩
  · rintro ⟨block, place, d, hindex, hd, hb⟩
    exact ⟨(block, place.block), hindex, (d, place.definition), hd, hb⟩

/-! ### Names that are defined -/

/-- **The tags that define names in the markup of a document are those of base definitions and of
members, as far as no term has been taken for the name.** -/
theorem mem_dfns_build {tag : DfnTag} :
    tag ∈ (build settings provider input).dfns ↔
      ∃ place d, (place, d) ∈ placed (definitions input) ∧
        ((d.isBase = true ∧ (claims input).definition? place = none ∧
            tag = (plan input).definitionTag d place) ∨
          ∃ m index, (m, index) ∈ d.members.zipIdx ∧ m.name?.isSome = true ∧
            m.definesItself = true ∧ (claims input).member? (place.member index) = none ∧
            tag = (plan input).memberTag d m (place.member index)) := by
  have hframe (head : StartTag) (htag : head.tag = .span ∨ head.tag = .pre) :
      head.dfn? = none := by
    apply StartTag.dfn?_of_tag_ne
    rcases htag with htag | htag <;> simp [htag]
  rw [dfns, mem_collect_build settings provider input hframe]
  constructor
  · rintro ⟨block, place, d, hblock, hd, htag⟩
    exact ⟨place, d, mem_placed_iff.mpr ⟨block, hblock, hd⟩,
      (Rendering.mem_dfns_definition _).mp htag⟩
  · rintro ⟨place, d, hplaced, htag⟩
    obtain ⟨block, hblock, hd⟩ := mem_placed_iff.mp hplaced
    exact ⟨block, place, d, hblock, hd, (Rendering.mem_dfns_definition _).mpr htag⟩

theorem mem_anchors_of_mem_dfns {id : String} {exported : Bool}
    (h : ⟨some id, exported⟩ ∈ (build settings provider input).dfns) :
    id ∈ (build settings provider input).anchors := by
  obtain ⟨block, hblock, h⟩ := List.mem_flatMap.mp h
  refine List.mem_append_left _ (List.mem_flatMap.mpr ⟨block, hblock, ?_⟩)
  exact mem_ids_of_mem_dfns h

/-- The terms are anchors. -/
theorem mem_anchors_of_mem_designations {designation : Designation}
    (h : designation ∈ (claims input).designations) :
    designation.id ∈ (build settings provider input).anchors :=
  List.mem_append_right _ (List.mem_map_of_mem h)

variable {input} {place : Place} {d : Definition} (hd : (place, d) ∈ placed (definitions input))

include hd

/-- The generated id of the owner of a slug is an anchor, unless the owner has taken a term. -/
theorem definitionName_mem_anchors (howns : (plan input).owns place = true)
    (hclaim : (claims input).definition? place = none) :
    Anchor.definitionName d.name ∈ (build settings provider input).anchors := by
  have hbase : d.isBase = true := Anchor.Plan.isBase_of_owns hd howns
  have htag : ⟨some (Anchor.definitionName d.name), true⟩ = (plan input).definitionTag d place := by
    simp [Anchor.Plan.definitionTag, howns]
  have hmem : ⟨some (Anchor.definitionName d.name), true⟩ ∈ (build settings provider input).dfns :=
    (mem_dfns_build ..).mpr ⟨place, d, hd, .inl ⟨hbase, hclaim, htag⟩⟩
  exact mem_anchors_of_mem_dfns settings provider input hmem

/-- The generated id of a member is an anchor, unless the member has taken a term. A default
`toJSON` has none. -/
theorem memberName_mem_anchors {m : Member} {index : Nat} (hm : (m, index) ∈ d.members.zipIdx)
    {name : String} (hname : m.name? = some name) (hself : m.definesItself = true)
    (hclaim : (claims input).member? (place.member index) = none) :
    Anchor.memberName m.scope name ((plan input).overload (place.member index)) ∈
      (build settings provider input).anchors := by
  have hsome : m.name?.isSome = true := by simp [hname]
  have hmem : (plan input).memberTag d m (place.member index) ∈
      (build settings provider input).dfns :=
    (mem_dfns_build ..).mpr ⟨place, d, hd, .inr ⟨m, index, hm, hsome, hself, hclaim, rfl⟩⟩
  have htag : (plan input).memberTag d m (place.member index) =
      ⟨some (Anchor.memberName m.scope name ((plan input).overload (place.member index))),
        !d.isPartial⟩ := by
    simp [Anchor.Plan.memberTag, hname]
  rw [htag] at hmem
  exact mem_anchors_of_mem_dfns settings provider input hmem

end Built

end WebIdl.Document
