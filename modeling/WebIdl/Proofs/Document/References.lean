import WebIdl.Proofs.Document.Prefetch
import WebIdl.Proofs.Link.Prose

/-!
# References in prose

A reference that names no container is linked once all blocks are rendered.

* `Document.definitionWrapper_mem_ids` — the id of a whole definition is on the element around the
  owner of its slug, so it is there for every base definition, whatever the host has defined.
* `Document.Unresolved`, `Document.linkReference_eq_none_iff` — the names that are left without a
  target, in terms of what the host hands over and of what the provider answers.
* `Document.references_lead` — a reference that stays in the document leads to an anchor, and each
  that leads nowhere is warned of once.
-/

namespace WebIdl.Document

open Markup

section Built

variable (settings : Settings) (provider : Option Xref.Provider) (input : DocumentInput)

/-! ### The ids of whole definitions -/

/-- The ids in the markup of a definition are in that of the document. -/
theorem mem_ids_of_mem_definition {block : BlockInput} {place : Place} {d : Definition}
    (hblock : (block, place.block) ∈ input.blocks.zipIdx)
    (hd : (d, place.definition) ∈ (Block.parse block.source block.id).definitions.zipIdx)
    {id : String}
    (hid : id ∈ Markup.ids ((rendering settings provider input block).definition d place)) :
    id ∈ (build settings provider input).ids := by
  rw [ids, blocks_build, List.flatMap_map]
  refine List.mem_flatMap.mpr ⟨_, hblock, ?_⟩
  rw [Element.markup, ids_element_cons, children_renderBlock, ids_eq_collect,
    Rendering.collect_block _ StartTag.id?_span]
  refine List.mem_append_right _ (List.mem_append_left _ ?_)
  exact List.mem_flatMap.mpr ⟨_, hd, hid⟩

/-- The owner of a slug carries the id of its whole definition. -/
theorem definitionWrapper_mem_ids_of_owns {place : Place} {d : Definition}
    (hd : (place, d) ∈ placed (definitions input)) (howns : (plan input).owns place = true) :
    Anchor.definitionWrapper d.name ∈ (build settings provider input).ids := by
  obtain ⟨block, hblock, hindex⟩ := mem_placed_iff.mp hd
  apply mem_ids_of_mem_definition settings provider input hblock hindex
  have hbase : d.bare.isBase = true := by
    simpa [Definition.isBase] using Anchor.Plan.isBase_of_owns hd howns
  have hhead := (rendering settings provider input block).id?_definitionHead
    (fun _ : (rendering settings provider input block).plan.owns place = true => hbase)
  have howns : (rendering settings provider input block).plan.owns place = true := howns
  rw [howns, if_pos rfl, d.name_bare] at hhead
  simp [Rendering.definition, Rendering.definitionElement, hhead]

/-- Every base definition has the slug of an owner, so the id of its whole definition is there. -/
theorem definitionWrapper_mem_ids {place : Place} {d : Definition}
    (hd : (place, d) ∈ placed (definitions input)) (hbase : d.isBase = true) :
    Anchor.definitionWrapper d.name ∈ (build settings provider input).ids := by
  obtain ⟨q, e, he, hslug, howns⟩ := Anchor.Plan.exists_owner hd hbase
  have hname : Anchor.definitionWrapper e.name = Anchor.definitionWrapper d.name := by
    rw [Anchor.definitionWrapper, Anchor.definitionWrapper, hslug]
  rw [← hname]
  exact definitionWrapper_mem_ids_of_owns settings provider input he howns

/-! ### Names that are left without a target -/

/-- The provider is asked, and what it answers to the query for a name outside of any block is one
definition in another document. -/
def Answered (name : String) : Prop :=
  ∃ p entry, provider = some p ∧ settings.xrefEnabled = true ∧
    p.outcome ⟨name, .type, []⟩ = .resolved entry

/-- Nothing in the document, in Web IDL or in another document is called by the name. -/
structure Unresolved (name : String) : Prop where
  /-- No form of a term is the name, in whatever case. -/
  terms : ∀ term ∈ input.terms, ¬ term.Names name
  /-- No definition that is neither partial nor an includes statement has exactly this name. -/
  definitions : ¬ ∃ p d, (p, d) ∈ placed (definitions input) ∧ d.isBase = true ∧ d.name = name
  builtin : Vocabulary.typeAnchor? name = none
  answers : ¬ Answered settings provider name

/-- A query, once it has been asked for, settles as the provider answers it. -/
theorem external?_withCite_eq_none_iff {name : String} {cite : List String}
    (hquery : (⟨name, .type, cite⟩ : Xref.Query) ∈
      queries (localResolver settings input (readBlocks input)) input (readBlocks input)) :
    ((resolver settings provider input).withCite cite).external? name = none ↔
      ¬ ∃ p entry, provider = some p ∧ settings.xrefEnabled = true ∧
        p.outcome ⟨name, .type, cite⟩ = .resolved entry := by
  unfold Resolver.external? Xref.Table.get? Resolver.withCite
  rw [Option.map_eq_none_iff]
  cases provider with
  | none =>
    have hempty : (resolver settings none input).xref = .empty := rfl
    simp [hempty, Xref.Table.outcome?, Xref.Table.empty]
  | some p =>
    by_cases hxref : settings.xrefEnabled = true
    · have houtcome := outcome?_resolver settings p input hxref hquery
      dsimp only
      rw [houtcome]
      cases hanswer : p.outcome ⟨name, .type, cite⟩ <;> simp [hxref, hanswer]
    · have hempty : (resolver settings (some p) input).xref = .empty := if_neg hxref
      simp [hempty, hxref, Xref.Table.outcome?, Xref.Table.empty]

/-- The query for a name outside of any block, once it has been asked for, settles as the provider
answers it. -/
theorem external?_eq_none_iff {name : String}
    (hquery : (⟨name, .type, []⟩ : Xref.Query) ∈
      queries (localResolver settings input (readBlocks input)) input (readBlocks input)) :
    (resolver settings provider input).external? name = none ↔
      ¬ Answered settings provider name :=
  external?_withCite_eq_none_iff settings provider input hquery

/-- A reference asks for its name if nothing but a lookup resolves it. -/
theorem query_mem_queries {reference : ReferenceInput} (hreference : reference ∈ input.references)
    {name : String} (hkey : Dfn.referenceKey reference.text reference.scope = ⟨none, name⟩)
    (hneeds : NeedsLookup settings input name) :
    (⟨name, .type, []⟩ : Xref.Query) ∈
      queries (localResolver settings input (readBlocks input)) input (readBlocks input) := by
  refine List.mem_append_right _ (List.mem_filterMap.mpr ⟨reference, hreference, ?_⟩)
  unfold referenceQuery?
  rw [hkey]
  exact if_pos hneeds

/-- **A reference is left without a target exactly when nothing is called by its name.** -/
theorem linkReference_eq_none_iff {reference : ReferenceInput}
    (hreference : reference ∈ input.references) {name : String}
    (hkey : Dfn.referenceKey reference.text reference.scope = ⟨none, name⟩) :
    ((resolver settings provider input).linkReference reference).target = none ↔
      Unresolved settings provider input name := by
  have hlength := length_designations_claims input
  have hdefinition : (resolver settings provider input).catalog.definition? name = none ↔
      ¬ ∃ p d, (p, d) ∈ placed (definitions input) ∧ d.isBase = true ∧ d.name = name := by
    rw [← Catalog.isSome_definition?_iff, Option.not_isSome_iff_eq_none]
    rfl
  have hlink : (resolver settings provider input).link? ⟨none, name⟩ = none ↔
      (∀ term ∈ input.terms, ¬ term.Names name) ∧
        (resolver settings provider input).catalog.definition? name = none ∧
          Vocabulary.typeAnchor? name = none ∧
            (resolver settings provider input).external? name = none :=
    Resolver.link?_eq_none_iff rfl hlength
  have hasked (hterms : ∀ term ∈ input.terms, ¬ term.Names name)
      (hnone : (resolver settings provider input).catalog.definition? name = none)
      (hbuiltin : Vocabulary.typeAnchor? name = none) :
      (⟨name, .type, []⟩ : Xref.Query) ∈
        queries (localResolver settings input (readBlocks input)) input (readBlocks input) := by
    have hneeds : (localResolver settings input (readBlocks input)).needsLookup name = true :=
      Resolver.needsLookup_of_unnamed rfl hlength hterms hnone hbuiltin
    exact query_mem_queries settings input hreference hkey hneeds
  rw [Resolver.linkReference, hkey, hlink]
  constructor
  · rintro ⟨hterms, hnone, hbuiltin, hexternal⟩
    have hquery := hasked hterms hnone hbuiltin
    exact ⟨hterms, hdefinition.mp hnone, hbuiltin,
      (external?_eq_none_iff settings provider input hquery).mp hexternal⟩
  · intro h
    have hnone := hdefinition.mpr h.definitions
    have hquery := hasked h.terms hnone h.builtin
    exact ⟨h.terms, hnone, h.builtin,
      (external?_eq_none_iff settings provider input hquery).mpr h.answers⟩

/-! ### References of a document -/

/-- A reference that stays in the document leads to a term, or to where a definition stands. -/
theorem anchor_of_linkReference {reference : ReferenceInput} {name : String} {target : Target}
    (hkey : Dfn.referenceKey reference.text reference.scope = ⟨none, name⟩)
    (htarget : ((resolver settings provider input).linkReference reference).target = some target) :
    (target.origin = .host →
        ∃ term ∈ (build settings provider input).terms, target.href = "#" ++ term.id) ∧
      (target.origin = .inside → target.href = "#" ++ Anchor.definitionWrapper name ∧
        Anchor.definitionWrapper name ∈ (build settings provider input).ids) := by
  rw [Resolver.linkReference, hkey] at htarget
  by_cases hinternal : target.isInternal = true
  · rcases Resolver.link?_of_isInternal htarget hinternal with
      ⟨designation, hdesignation, rfl⟩ | ⟨d, hd, rfl⟩
    · exact ⟨fun _ => ⟨designation, hdesignation, rfl⟩, nofun⟩
    · obtain ⟨p, he, hbase, rfl⟩ := Catalog.exists_of_definition? hd
      refine ⟨nofun, fun _ => ?_⟩
      exact ⟨rfl, definitionWrapper_mem_ids settings provider input he hbase⟩
  · obtain ⟨origin, href, linkType⟩ := target
    cases origin with
    | host | inside => exact absurd rfl hinternal
    | builtin | external => exact ⟨nofun, nofun⟩

/-- The warnings about references are those of the references without a target. -/
theorem filter_warnings_build :
    (build settings provider input).warnings.filter
        (fun warning => warning.code == some "unresolved-reference") =
      unresolvedWarnings (build settings provider input).references := by
  rw [warnings_build, List.filter_append, List.filter_append,
    filter_eq_nil_of_code (fun _ => code_of_mem_report) (by decide),
    filter_eq_nil_of_code (fun _ => code_of_mem_ambiguities) (by decide),
    filter_eq_self_of_code fun _ => code_of_mem_unresolvedWarnings]
  rfl

/-- **Every reference without a container that stays in the document leads to a term or to the
element around a definition, it has no target exactly when nothing is called by its name, and there
is one warning for each reference without a target, in the order of the references, and no other of
its kind.** -/
theorem references_lead :
    (build settings provider input).references.map (fun linked => ⟨linked.text, linked.scope⟩) =
        input.references ∧
      (∀ linked ∈ (build settings provider input).references, ∀ name,
        Dfn.referenceKey linked.text linked.scope = ⟨none, name⟩ →
          (∀ target, linked.target = some target →
            (target.origin = .host →
                ∃ term ∈ (build settings provider input).terms, target.href = "#" ++ term.id) ∧
              (target.origin = .inside → target.href = "#" ++ Anchor.definitionWrapper name ∧
                Anchor.definitionWrapper name ∈ (build settings provider input).ids)) ∧
          (linked.target = none ↔ Unresolved settings provider input name)) ∧
      (build settings provider input).warnings.filter
          (fun warning => warning.code == some "unresolved-reference") =
        ((build settings provider input).references.filter (·.target.isNone)).map
          unresolvedWarning := by
  have hreferences : (build settings provider input).references =
      input.references.map (resolver settings provider input).linkReference := rfl
  refine ⟨?_, ?_, filter_warnings_build settings provider input⟩
  · rw [hreferences, List.map_map]
    exact List.map_id input.references
  · rw [hreferences]
    intro linked hlinked name hkey
    obtain ⟨reference, hreference, rfl⟩ := List.mem_map.mp hlinked
    refine ⟨?_, linkReference_eq_none_iff settings provider input hreference hkey⟩
    intro target htarget
    exact anchor_of_linkReference settings provider input hkey htarget

end Built

end WebIdl.Document
