import WebIdl.Proofs.Document.Anchors
import WebIdl.Proofs.Document.Preservation
import WebIdl.Proofs.Link.Prose
import WebIdl.Proofs.Markup.Locality

/-!
# What other documents have a say in

The answers of a provider come from outside, and whoever gives them should have no say in anything
but where the names lead that nothing else resolves. A document is built with a provider or without,
and with one provider or another, and what may differ is said exactly.

* `Document.dress_mk` — a rendered block has a start tag that the host and the checks decide.
* `Document.blocks_templated` — the markup of a block is a template that the provider has no part
  in. Its answers fill the holes, which are the names that only a lookup resolves.
* `Document.external_confined` — the text of the blocks, the verdicts, the terms and the exports are
  the same for all providers, and so is every reference that leads to no other document.
-/

namespace WebIdl.Document

open Rendering (Agrees Hole Template block_templated offendingClass)

variable (settings : Settings) (input : DocumentInput)

/-! ### Rendered blocks -/

/-- The start tag of a block. -/
def blockHead (i : BlockInput) (verdict : Option Diagnostic) : StartTag :=
  let head := i.classes.foldl .addClass ((StartTag.ofTag .pre).addClass "idl")
  let head := i.id.elim head (head.setAttr "id")
  verdict.elim head fun d => (head.addClass offendingClass).setAttr "title" d.message

theorem foldl_addClass_mk (classes : List String) (head : StartTag) (children : List Markup) :
    classes.foldl Element.addClass ⟨head, children⟩ =
      ⟨classes.foldl StartTag.addClass head, children⟩ := by
  induction classes generalizing head with
  | nil => rfl
  | cons c classes ih => exact ih (head.addClass c)

theorem dress_mk (i : BlockInput) (verdict : Option Diagnostic) (children : List Markup) :
    markOffending verdict (dress i ⟨(StartTag.ofTag .pre).addClass "idl", children⟩) =
      ⟨blockHead i verdict, children⟩ := by
  unfold markOffending dress blockHead
  rw [foldl_addClass_mk]
  cases i.id <;> cases verdict <;> rfl

/-- The verdicts on the blocks. What a block may extend has no part in them. -/
def verdicts : List (Option Diagnostic) :=
  let found := Lint.findings (localResolver settings input (readBlocks input)).catalog
    (readBlocks input) settings.checks
  (List.range (readBlocks input).length).map (Lint.verdict found)

theorem verdicts_report (provider : Option Xref.Provider) :
    (report settings provider input).verdicts = verdicts settings input := rfl

theorem verdict_renderBlock (provider : Option Xref.Provider) (block : BlockInput) (index : Nat) :
    (renderBlock (resolver settings provider input) (plan input) (report settings provider input)
      block (Block.parse block.source block.id) index).verdict =
        (verdicts settings input)[index]?.join := by
  rw [renderBlock, Lint.Report.verdict?, verdicts_report]

theorem markup_renderBlock (provider : Option Xref.Provider) (block : BlockInput) (index : Nat) :
    (renderBlock (resolver settings provider input) (plan input) (report settings provider input)
      block (Block.parse block.source block.id) index).markup =
        markOffending (verdicts settings input)[index]?.join
          (dress block ((rendering settings provider input block).block
            (Block.parse block.source block.id) index)) := by
  rw [renderBlock, Lint.Report.verdict?, verdicts_report]
  rfl

/-- A block of a built document. -/
theorem getElem?_blocks_build {index : Nat} {block : BlockInput}
    (hblock : input.blocks[index]? = some block) (provider : Option Xref.Provider) :
    (build settings provider input).blocks[index]? =
      some (renderBlock (resolver settings provider input) (plan input)
        (report settings provider input) block (Block.parse block.source block.id) index) := by
  rw [blocks_build, List.getElem?_map, List.getElem?_zipIdx, hblock, Nat.zero_add]
  rfl

/-! ### Markup -/

/-- Where another document defines a name that stands in a block. -/
def answer (provider : Option Xref.Provider) (block : BlockInput) (name : String) :
    Option Target :=
  ((resolver settings provider input).withCite block.cite).external? name

/-- **The markup of a block is a template that the provider has no part in.** Its holes are the names
in the block that only a lookup resolves, in the order of the source. -/
theorem blocks_templated {index : Nat} {block : BlockInput}
    (hsource : input.blocks[index]? = some block) :
    ∃ (head : StartTag) (parts : List Template),
      (Template.holesAll parts).map Hole.name =
        (Block.parse block.source block.id).definitions.flatMap (fun d =>
          d.lookups.filter (localResolver settings input (readBlocks input)).needsLookup) ∧
      ∀ provider, (build settings provider input).blocks[index]?.map (·.markup) =
        some ⟨head, Markup.join
          (Template.fillAll (answer settings input provider block) parts)⟩ := by
  obtain ⟨parts, hholes, hfill⟩ := block_templated (rendering settings none input block)
    (Block.parse block.source block.id) index
  refine ⟨blockHead block (verdicts settings input)[index]?.join, parts, hholes, ?_⟩
  intro provider
  have hagrees : Agrees (rendering settings none input block)
      (rendering settings provider input block) [] := ⟨rfl, rfl, rfl, nofun⟩
  have hblock := hfill _ hagrees rfl
  rw [getElem?_blocks_build settings input hsource, Option.map_some, markup_renderBlock, hblock,
    dress_mk]
  rfl

/-! ### What no provider has a say in -/

theorem textContents_build (provider : Option Xref.Provider) :
    (build settings provider input).blocks.map (·.markup.textContent) =
      input.blocks.map (·.source) := by
  apply List.ext_getElem?
  intro index
  rw [List.getElem?_map, List.getElem?_map]
  cases hblock : input.blocks[index]? with
  | none =>
    have hnone : (build settings provider input).blocks[index]? = none := by
      rw [blocks_build, List.getElem?_map, List.getElem?_zipIdx, hblock]
      rfl
    rw [hnone]
    rfl
  | some block =>
    rw [getElem?_blocks_build settings input hblock]
    exact congrArg some (text_renderBlock (resolver settings provider input) (plan input)
      (report settings provider input) block index).1

theorem verdicts_build (provider : Option Xref.Provider) :
    (build settings provider input).blocks.map (·.verdict) =
      input.blocks.zipIdx.map fun entry => (verdicts settings input)[entry.2]?.join := by
  rw [blocks_build, List.map_map]
  apply List.map_congr_left
  intro entry _
  exact verdict_renderBlock settings input provider entry.1 entry.2

theorem terms_build (provider : Option Xref.Provider) :
    (build settings provider input).terms = (claims input).designations := rfl

theorem exports_build (provider : Option Xref.Provider) :
    (build settings provider input).exports =
      ExportedTerm.all (definitions input) (plan input) (claims input) := rfl

theorem references_build (provider : Option Xref.Provider) :
    (build settings provider input).references =
      input.references.map (resolver settings provider input).linkReference := rfl

/-- A reference that leads to no other document is the same for all providers. -/
theorem getElem?_references_build {provider : Option Xref.Provider} {index : Nat}
    {reference : LinkedReference} {target : Target}
    (hreference : (build settings provider input).references[index]? = some reference)
    (htarget : reference.target = some target) (horigin : target.origin ≠ .external)
    (provider' : Option Xref.Provider) :
    (build settings provider' input).references[index]? = some reference := by
  rw [references_build, List.getElem?_map, Option.map_eq_some_iff] at hreference
  obtain ⟨asked, hasked, rfl⟩ := hreference
  have hlink : (resolver settings provider' input).link?
      (Dfn.referenceKey asked.text asked.scope) = some target :=
    Resolver.link?_withXref_of_origin (resolver settings provider input) htarget horigin
  rw [references_build, List.getElem?_map, hasked, Option.map_some, Resolver.linkReference, hlink,
    ← htarget]
  rfl

/-- **What other documents define is confined to where names lead that only a lookup resolves.** Two
providers, or a provider and none, agree on the text of every block, on every verdict, on the terms,
on the exports and on every reference that leads to no other document. The markup of a block differs
in the holes of a template at most, each of them a name that needs a lookup. -/
theorem external_confined :
    (∀ provider provider' : Option Xref.Provider,
      let here := build settings provider input
      let there := build settings provider' input
      here.blocks.map (·.markup.textContent) = there.blocks.map (·.markup.textContent) ∧
        here.blocks.map (·.verdict) = there.blocks.map (·.verdict) ∧
        here.terms = there.terms ∧ here.exports = there.exports ∧
        ∀ (index : Nat) (reference : LinkedReference) (target : Target),
          here.references[index]? = some reference → reference.target = some target →
            target.origin ≠ .external → there.references[index]? = some reference) ∧
    ∀ (index : Nat) (block : BlockInput), input.blocks[index]? = some block →
      ∃ (head : StartTag) (parts : List Template),
        (Template.holesAll parts).map Hole.name =
          (Block.parse block.source block.id).definitions.flatMap (fun d =>
            d.lookups.filter (localResolver settings input (readBlocks input)).needsLookup) ∧
        ∀ provider, (build settings provider input).blocks[index]?.map (·.markup) =
          some ⟨head, Markup.join
            (Template.fillAll (answer settings input provider block) parts)⟩ := by
  constructor
  · intro provider provider' here there
    refine ⟨?_, ?_, ?_, ?_, ?_⟩
    · rw [textContents_build, textContents_build]
    · rw [verdicts_build, verdicts_build]
    · rw [terms_build, terms_build]
    · rw [exports_build, exports_build]
    · intro index reference target hreference htarget horigin
      exact getElem?_references_build settings input hreference htarget horigin provider'
  · intro index block hblock
    exact blocks_templated settings input hblock

end WebIdl.Document
