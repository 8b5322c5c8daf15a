import WebIdl.Proofs.Document.Anchors
import WebIdl.Proofs.Link.Types

/-!
# Where the links of a document lead

A link that stays in the document leads to an anchor of the document, with one exception
(`Document.links_lead_iff`). The link to a type is made from the slug of its name, and the id made
from a slug stands on the definition that owns the slug. Where the author wrote another id for the
term that the owner has taken, the links to the other definitions of the slug lead nowhere.
-/

namespace WebIdl.Document

open Markup

/-- The link leads to an anchor of the document. -/
def Leads (document : Document) (link : Link) : Prop :=
  ∃ id ∈ document.anchors, link.href = some ("#" ++ id)

section Built

variable (settings : Settings) (provider : Option Xref.Provider) (input : DocumentInput)

/-- The links of a document are those at the sites of its definitions. -/
theorem mem_links_build {link : Link} :
    link ∈ (build settings provider input).links ↔
      ∃ block place d, (block, place.block) ∈ input.blocks.zipIdx ∧
        (d, place.definition) ∈ (Block.parse block.source block.id).definitions.zipIdx ∧
        ∃ site ∈ d.sites,
          (rendering settings provider input block).follow? place site = some link := by
  have hframe (head : StartTag) (htag : head.tag = .span ∨ head.tag = .pre) :
      head.link? = none := by
    apply StartTag.link?_of_tag_ne
    rcases htag with htag | htag <;> simp [htag]
  rw [links, mem_collect_build settings provider input hframe]
  simp only [Rendering.links_definition, List.mem_filterMap]

/-- A link to a term of the host leads to the term. -/
theorem leads_of_mem_designations {designation : Designation}
    (h : designation ∈ (claims input).designations) :
    (build settings provider input).Leads designation.link :=
  ⟨designation.id, mem_anchors_of_mem_designations settings provider input h, rfl⟩

/-- A link that stays in the document at a site of another kind than a type leads to a term. -/
theorem leads_of_follow? {block : BlockInput} {place : Place} {site : Site} {link : Link}
    (h : (rendering settings provider input block).follow? place site = some link)
    (hinternal : link.internal = true) (hlookup : site.lookup? = none) :
    (build settings provider input).Leads link := by
  cases site with
  | type name nested => cases hlookup
  | extAttr name =>
    obtain ⟨target, htarget, rfl⟩ := Option.map_eq_some_iff.mp h
    obtain ⟨anchor, -, rfl⟩ := Option.map_eq_some_iff.mp htarget
    cases hinternal
  | definition =>
    obtain ⟨designation, hclaim, rfl⟩ := Option.map_eq_some_iff.mp h
    exact leads_of_mem_designations settings provider input (mem_designations_of_definition? hclaim)
  | member index definesItself =>
    rw [Rendering.follow?, Rendering.followMember?] at h
    split at h
    · rename_i designation hclaim
      obtain rfl := Option.some.inj h
      exact leads_of_mem_designations settings provider input (mem_designations_of_member? hclaim)
    · split at h
      · cases h
      · obtain rfl := Option.some.inj h
        cases hinternal

/-! ### Links to types -/

theorem host?_eq_none_iff (block : BlockInput) (name : String) :
    (rendering settings provider input block).resolver.host? none name = none ↔
      (TermIndex.ofTerms input.terms).matching none name = [] := by
  apply Resolver.host?_eq_none_iff
  · rfl
  · exact length_designations_claims input

/-- The owner of a slug has taken a term for which the author wrote another id than the one that is
made from the slug. -/
def OwnerMoved (name : String) : Prop :=
  ∃ q e term designation, (q, e) ∈ placed (definitions input) ∧ (plan input).owns q = true ∧
    Anchor.slug e.name = Anchor.slug name ∧ (claims input).definition? q = some designation ∧
    term ∈ input.terms ∧ term.id = some designation.id ∧
    designation.id ≠ Anchor.definitionName name

/-- A term that a definition has taken is where the author wrote it is, or else where the id made
from the name is. -/
theorem id_eq_or_written {q : Place} {e : Definition} {designation : Designation}
    (he : (q, e) ∈ placed (definitions input))
    (hclaim : (claims input).definition? q = some designation) :
    designation.id = Anchor.definitionName e.name ∨
      ∃ term ∈ input.terms, term.id = some designation.id := by
  obtain ⟨d, hd, -, term, hterm, rfl⟩ := definition?_claims hclaim
  obtain rfl := eq_of_mem_placed he hd
  cases hid : term.id with
  | none => exact .inl (by simp [Dfn.Subject.designate, hid])
  | some id => exact .inr ⟨term, hterm, by simp [Dfn.Subject.designate, hid]⟩

/-- The id made from the name of a base definition is an anchor, unless the owner of its slug has
taken a term with another id. -/
theorem definitionName_mem_anchors_of_base {p : Place} {f : Definition}
    (hf : (p, f) ∈ placed (definitions input)) (hbase : f.isBase = true)
    (hmoved : OwnerMoved input f.name →
      Anchor.definitionName f.name ∈ (build settings provider input).anchors) :
    Anchor.definitionName f.name ∈ (build settings provider input).anchors := by
  obtain ⟨q, e, he, hslug, howns⟩ := Anchor.Plan.exists_owner hf hbase
  have hname : Anchor.definitionName e.name = Anchor.definitionName f.name := by
    rw [Anchor.definitionName, Anchor.definitionName, hslug]
  cases hclaim : (claims input).definition? q with
  | none =>
    rw [← hname]
    exact definitionName_mem_anchors settings provider he howns hclaim
  | some designation =>
    have hanchor := mem_anchors_of_mem_designations settings provider input
      (mem_designations_of_definition? hclaim)
    by_cases hid : designation.id = Anchor.definitionName f.name
    · rwa [← hid]
    · rcases id_eq_or_written input he hclaim with hgenerated | ⟨term, hterm, hwritten⟩
      · exact absurd (hgenerated.trans hname) hid
      · exact hmoved ⟨q, e, term, designation, he, howns, hslug, hclaim, hterm, hwritten, hid⟩

/-- A name is declared in a document if a base definition has it. -/
theorem exists_declared?_iff (block : BlockInput) (name : String) :
    (∃ target, (rendering settings provider input block).resolver.declared? none name =
        some target) ↔
      ∃ p f, (p, f) ∈ placed (definitions input) ∧ f.isBase = true ∧ f.name = name := by
  rw [← Option.isSome_iff_exists, Resolver.declared?_none, Option.isSome_map]
  exact Catalog.isSome_definition?_iff

theorem href_of_declared? {resolver : Resolver} {name : String} {target : Target}
    (h : resolver.declared? none name = some target) :
    target.link = ⟨true, some ("#" ++ Anchor.definitionName name)⟩ := by
  obtain ⟨f, -, rfl⟩ := Option.map_eq_some_iff.mp h
  rfl

/-- **Every link that stays in the document leads to an anchor exactly when the links to types do
whose names no term matches, though the owner of the slug has taken a term with another id.** -/
theorem links_lead_iff :
    (∀ link ∈ (build settings provider input).links, link.internal = true →
        (build settings provider input).Leads link) ↔
      ∀ block ∈ input.blocks, ∀ d ∈ (Block.parse block.source block.id).definitions,
        ∀ name ∈ d.lookups, (TermIndex.ofTerms input.terms).matching none name = [] →
          (∃ p f, (p, f) ∈ placed (definitions input) ∧ f.isBase = true ∧ f.name = name) →
          OwnerMoved input name →
          Anchor.definitionName name ∈ (build settings provider input).anchors := by
  constructor
  · intro h block hblock d hd name hname hterms hbase _
    obtain ⟨index, hindex⟩ := List.mem_iff_getElem?.mp hblock
    obtain ⟨i, hi⟩ := List.mem_iff_getElem?.mp hd
    obtain ⟨nested, hsite⟩ := Definition.mem_lookups.mp hname
    -- the name is a link to the definition
    have hhost := (host?_eq_none_iff settings provider input block name).mpr hterms
    obtain ⟨target, hdeclared⟩ :=
      (exists_declared?_iff settings provider input block name).mpr hbase
    have hfollow : (rendering settings provider input block).follow? ⟨index, i⟩
        (.type name nested) = some ⟨true, some ("#" ++ Anchor.definitionName name)⟩ := by
      rw [Rendering.follow?, Resolver.type?_of_declared? hhost hdeclared, Option.map_some,
        href_of_declared? hdeclared]
    have hlink := (mem_links_build settings provider input).mpr ⟨block, ⟨index, i⟩, d,
      List.mem_zipIdx_iff_getElem?.mpr hindex, List.mem_zipIdx_iff_getElem?.mpr hi, _, hsite, hfollow⟩
    obtain ⟨id, hid, hhref⟩ := h _ hlink rfl
    obtain rfl := (String.append_right_inj _).mp (Option.some.inj hhref)
    exact hid
  · intro h link hlink hinternal
    obtain ⟨block, place, d, hblock, hd, site, hsite, hfollow⟩ :=
      (mem_links_build settings provider input).mp hlink
    cases hlookup : site.lookup? with
    | none => exact leads_of_follow? settings provider input hfollow hinternal hlookup
    | some name =>
      obtain ⟨nested, rfl⟩ : ∃ nested, site = .type name nested := by
        cases site with
        | type other nested => exact ⟨nested, by rw [Option.some.inj hlookup]⟩
        | extAttr | definition | member => cases hlookup
      obtain ⟨target, htarget, rfl⟩ := Option.map_eq_some_iff.mp hfollow
      rcases Resolver.type?_of_isInternal htarget hinternal with hhost | ⟨hhost, hdeclared⟩
      · obtain ⟨designation, hdesignation, rfl⟩ := Target.exists_of_ofTerms? hhost
        exact leads_of_mem_designations settings provider input hdesignation
      · have hterms := (host?_eq_none_iff settings provider input block name).mp hhost
        obtain ⟨p, f, hf, hbase, rfl⟩ :=
          (exists_declared?_iff settings provider input block name).mp ⟨target, hdeclared⟩
        rw [href_of_declared? hdeclared]
        refine ⟨_, definitionName_mem_anchors_of_base settings provider input hf hbase ?_, rfl⟩
        exact h block (List.fst_mem_of_mem_zipIdx hblock) d (List.fst_mem_of_mem_zipIdx hd) f.name
          (Definition.mem_lookups.mpr ⟨nested, hsite⟩) hterms ⟨p, f, hf, hbase, rfl⟩

end Built

/-- Two interfaces whose names differ in case, of which the host defines the first by an id of its
own, and a use of the second. -/
def moved : DocumentInput :=
  .term (.block .empty (.ofSource "interface A {};\ninterface a {};\ntypedef a T;"))
    (.withId (.ofText "A") "the-a")

/-- The link to the second interface leads nowhere. -/
theorem not_links_lead :
    (build silent none moved).links =
        [⟨true, some "#the-a"⟩, ⟨true, some "#dom-a"⟩] ∧
      (build silent none moved).anchors =
        ["idl-def-a", "idl-def-t", "dom-t", "the-a"] ∧
      ¬ ∀ link ∈ (build silent none moved).links, link.internal = true →
        ∃ id ∈ (build silent none moved).anchors, link.href = some ("#" ++ id) := by
  decide +kernel

end WebIdl.Document
