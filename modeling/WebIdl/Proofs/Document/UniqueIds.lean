import WebIdl.Proofs.Document.Build
import WebIdl.Proofs.Markup.Ids

/-!
# The ids of a document

Without terms and without ids from the host, the markup of a document carries the ids of its anchor
plan and no others (`Document.ids_build`). So the ids of a document are pairwise distinct exactly
when the slugs of its names do not run into one another once they are joined
(`Document.nodup_ids_build_iff`).
-/

namespace WebIdl

open Markup

/-! ### Documents without terms -/

namespace Claims

variable (index : TermIndex) (blocks : List (List Definition)) (plan : Anchor.Plan)

/-- Without terms, no definition takes its id from the host. -/
theorem definition?_build_nil (place : Place) :
    (build [] index blocks plan).definition? place = none := by
  unfold definition? build
  cases List.find? _ (Dfn.claim index [] (Dfn.subjects blocks)) <;> rfl

/-- Without terms, no member takes its id from the host. -/
theorem member?_build_nil (place : MemberPlace) :
    (build [] index blocks plan).member? place = none := by
  unfold member? build
  cases List.find? _ (Dfn.claim index [] (Dfn.subjects blocks)) <;> rfl

end Claims

/-! ### Blocks -/

namespace Anchor.Plan

/-- The ids of the definitions of one block, each followed by those of its members. -/
def blockIds (plan : Plan) (definitions : List Definition) (index : Nat) : List String :=
  definitions.zipIdx.flatMap fun (d, i) =>
    plan.definitionIds ⟨index, i⟩ d ++ d.members.zipIdx.flatMap fun (m, j) =>
      plan.memberIds (Place.member ⟨index, i⟩ j) m

end Anchor.Plan

namespace Rendering

variable (rendering : Rendering) (hdefinition : ∀ p, rendering.claims.definition? p = none)
  (hmember : ∀ p, rendering.claims.member? p = none)

include hdefinition hmember

theorem ids_definitions (index : Nat) {definitions : List Definition} (start : Nat)
    (howns : ∀ entry ∈ definitions.zipIdx start,
      rendering.plan.owns ⟨index, entry.2⟩ = true → entry.1.isBase = true) :
    ids ((definitions.zipIdx start).flatMap fun (d, i) => rendering.definition d ⟨index, i⟩) =
      (definitions.zipIdx start).flatMap fun (d, i) =>
        rendering.plan.definitionIds ⟨index, i⟩ d ++ d.members.zipIdx.flatMap fun (m, j) =>
          rendering.plan.memberIds (Place.member ⟨index, i⟩ j) m := by
  induction definitions generalizing start with
  | nil => simp
  | cons d definitions ih =>
    have hfirst := howns (d, start) List.mem_cons_self
    have ih := ih (start + 1) fun entry hentry =>
      howns entry (List.mem_cons_of_mem _ hentry)
    rw [List.zipIdx_cons, List.flatMap_cons, List.flatMap_cons, ids_append, ih,
      rendering.ids_definition hfirst (hdefinition _) hmember]

/-- Where the host defines nothing, the nodes of a block carry the ids of the plan. -/
theorem ids_block {block : Block} {index : Nat}
    (howns : ∀ entry ∈ block.definitions.zipIdx,
      rendering.plan.owns ⟨index, entry.2⟩ = true → entry.1.isBase = true) :
    ids (rendering.block block index).children =
      rendering.plan.blockIds block.definitions index := by
  have hrest : ids (block.remainder.elim (trivia block.trailing) fun r => [.text r]) = [] := by
    cases block.remainder <;> simp
  rw [Rendering.block, ids_join, ids_append, hrest, List.append_nil,
    rendering.ids_definitions hdefinition hmember index 0 howns]
  rfl

end Rendering

namespace Document

/-- The outermost element of a block has the id that the host gave the block, and no other. -/
theorem id?_renderBlock (resolver : Resolver) (plan : Anchor.Plan) (report : Lint.Report)
    (input : BlockInput) (block : Block) (index : Nat) :
    (renderBlock resolver plan report input block index).markup.head.id? = input.id := by
  have hhead : (input.classes.foldl Element.addClass
      (Rendering.block ⟨resolver.withCite input.cite, plan, resolver.claims⟩ block
        index)).head.id? = none := by
    rw [foldl_addClass (f := (·.head.id?)) fun markup => StartTag.id?_addClass markup.head]
    simp [Rendering.block]
  unfold renderBlock markOffending dress
  cases report.verdict? index <;> cases hid : input.id <;>
    simp [Element.setAttr, Element.addClass, hhead]

/-! ### Documents -/

/-- All ids in the markup of a document, in order. -/
def ids (document : Document) : List String :=
  document.blocks.flatMap fun block => Markup.ids [block.markup.markup]

/-- The definitions of every block of a document. -/
def definitions (input : DocumentInput) : List (List Definition) :=
  (readBlocks input).map (·.definitions)

theorem allIds_eq (blocks : List (List Definition)) :
    Anchor.allIds blocks =
      blocks.zipIdx.flatMap fun (definitions, index) =>
        (Anchor.Plan.ofBlocks blocks).blockIds definitions index := by
  unfold Anchor.allIds placed
  rw [List.flatMap_assoc]
  simp only [List.flatMap_map, Anchor.Plan.blockIds]

theorem zipIdx_definitions (input : DocumentInput) :
    (definitions input).zipIdx = input.blocks.zipIdx.map fun entry =>
      ((Block.parse entry.1.source entry.1.id).definitions, entry.2) := by
  simp only [definitions, readBlocks, List.map_map, List.zipIdx_map]
  rfl

/-- A definition of a document is written in a block of the document. -/
theorem mem_placed_iff {input : DocumentInput} {place : Place} {d : Definition} :
    (place, d) ∈ placed (definitions input) ↔
      ∃ block, (block, place.block) ∈ input.blocks.zipIdx ∧
        (d, place.definition) ∈ (Block.parse block.source block.id).definitions.zipIdx := by
  unfold placed
  rw [zipIdx_definitions, List.flatMap_map]
  constructor
  · intro h
    obtain ⟨⟨block, index⟩, hblock, h⟩ := List.mem_flatMap.mp h
    obtain ⟨⟨e, i⟩, he, hsame⟩ := List.mem_map.mp h
    obtain ⟨rfl, rfl⟩ := Prod.mk.inj hsame
    exact ⟨block, hblock, he⟩
  · rintro ⟨block, hblock, hd⟩
    exact List.mem_flatMap.mpr ⟨_, hblock, List.mem_map.mpr ⟨_, hd, rfl⟩⟩

section Generated

variable (settings : Settings) (provider : Option Xref.Provider) {input : DocumentInput}
  (hterms : input.terms = [])

include hterms

/-- A block carries the ids of its definitions and of their members. -/
theorem ids_renderBlock {block : BlockInput} {index : Nat} (hid : block.id = none)
    (hblock : (block, index) ∈ input.blocks.zipIdx) :
    Markup.ids [(renderBlock (resolver settings provider input) (plan input)
        (report settings provider input) block (Block.parse block.source block.id)
        index).markup.markup] =
      (plan input).blockIds (Block.parse block.source block.id).definitions index := by
  have hclaims : (resolver settings provider input).claims =
      .build [] (.ofTerms []) (definitions input) (plan input) := by
    rw [← hterms]
    rfl
  have hdefinition (p : Place) :
      (resolver settings provider input).claims.definition? p = none := by
    rw [hclaims]
    exact Claims.definition?_build_nil ..
  have hmember (p : MemberPlace) :
      (resolver settings provider input).claims.member? p = none := by
    rw [hclaims]
    exact Claims.member?_build_nil ..
  rw [Element.markup, ids_element_cons, id?_renderBlock, hid, children_renderBlock,
    Rendering.ids_block _ hdefinition hmember]
  · simp
  · intro entry hentry howns
    exact Anchor.Plan.isBase_of_owns (mem_placed_iff.mpr ⟨block, hblock, hentry⟩) howns

/-- The ids in the markup of a document are those of its anchor plan. -/
theorem ids_build (hids : ∀ block ∈ input.blocks, block.id = none) :
    (build settings provider input).ids = Anchor.allIds (definitions input) := by
  rw [ids, blocks_build, allIds_eq, zipIdx_definitions, List.flatMap_map, List.flatMap_map]
  refine List.flatMap_congr ?_
  rintro ⟨block, index⟩ hblock
  have hid := hids block (List.fst_mem_of_mem_zipIdx hblock)
  exact ids_renderBlock settings provider hterms hid hblock

/-- The ids in the markup of a document are pairwise distinct exactly when no definition has a name
like a container and a member in a row, and members whose different slugs make the same text have
different numbers. -/
theorem nodup_ids_build_iff (hids : ∀ block ∈ input.blocks, block.id = none) :
    (build settings provider input).ids.Nodup ↔
      Anchor.NamesApart (definitions input) ∧ Anchor.MembersApart (definitions input) := by
  rw [ids_build settings provider hterms hids]
  exact Anchor.nodup_allIds_iff

end Generated

/-- Settings under which nothing is checked and nothing is looked up. -/
def silent : Settings := ⟨"", false, 0, ⟨false, false, false, false, false⟩⟩

/-- A name that comes back in overloads, in a partial definition, in a mixin and in another case. -/
def repeated : DocumentInput :=
  let first : BlockInput := .ofSource "partial interface A { undefined f(long x); };"
  let second : BlockInput := .ofSource
    "interface A { undefined f(); undefined F(); };\ninterface mixin a { undefined f(); };"
  .block (.block .empty first) second

/-- The number of a member keeps its ids from those of all others with its name. -/
theorem nodup_ids_build_repeated :
    repeated.terms = [] ∧ (∀ block ∈ repeated.blocks, block.id = none) ∧
      Anchor.NamesApart (definitions repeated) ∧ Anchor.MembersApart (definitions repeated) := by
  have hids : ∀ block ∈ repeated.blocks, block.id = none := by decide
  have hnodup : (build silent none repeated).ids.Nodup := by decide +kernel
  exact ⟨rfl, hids, (nodup_ids_build_iff silent none rfl hids).mp hnodup⟩

/-- An interface with a name like another one and its member in a row. -/
def runTogether : DocumentInput :=
  .block .empty (.ofSource "interface A_B {};\ninterface A { attribute long B; };")

/-- The interface and the member get the same ids. -/
theorem not_nodup_ids_build :
    runTogether.terms = [] ∧ (∀ block ∈ runTogether.blocks, block.id = none) ∧
      (build silent none runTogether).ids =
        ["idl-def-a-b", "dom-a-b", "idl-def-a", "dom-a", "idl-def-a-b", "dom-a-b"] ∧
      ¬ (build silent none runTogether).ids.Nodup := by
  decide +kernel

end Document

end WebIdl
