import WebIdl.Proofs.Document.Anchors
import WebIdl.Proofs.Link.Types
import WebIdl.Proofs.Link.Wanted
import WebIdl.Proofs.Markup.Locality
import WebIdl.Proofs.Xref.Prefetch

/-!
# Looking up before rendering

All cross-references are looked up before any block is rendered, so a name that rendering resolves
and that was not looked up stays without a link.

* `Document.definition_withXref` — rendering a definition depends on the outcomes of the queries for
  the names that it looks up, and on no others.
* `Document.outcome?_resolver` — every wanted name that only a lookup resolves is asked for, and its
  query settles as the provider answers it.
* `Document.lookups_prefetched_iff` — so every name that a definition looks up is asked for exactly
  when those in the extended attributes of types inside types are wanted for another reason.
-/

namespace WebIdl

/-- The rendering with other answers to the queries. -/
def Rendering.withXref (rendering : Rendering) (table : Xref.Table) : Rendering :=
  { rendering with resolver := { rendering.resolver with xref := table } }

namespace Document

variable (settings : Settings) (provider : Xref.Provider) (input : DocumentInput)

/-- The names that only a lookup resolves. -/
def NeedsLookup (name : String) : Prop :=
  (localResolver settings input (readBlocks input)).needsLookup name = true

/-- The query for a name that stands in a block. -/
def typeQuery (block : BlockInput) (name : String) : Xref.Query := ⟨name, .type, block.cite⟩

/-- Rendering a definition depends on the outcomes of the queries for the names that it looks up, and
on no others. -/
theorem definition_withXref (block : BlockInput) (d : Definition) (place : Place)
    (table : Xref.Table)
    (h : ∀ name ∈ d.lookups, NeedsLookup settings input name →
      table.get? (typeQuery block name) =
        (resolver settings (some provider) input).xref.get? (typeQuery block name)) :
    ((rendering settings (some provider) input block).withXref table).definition d place =
      (rendering settings (some provider) input block).definition d place := by
  apply Rendering.definition_congr
  refine ⟨rfl, rfl, rfl, ?_⟩
  intro name nested hsite
  have hname : name ∈ d.lookups := Definition.mem_lookups.mpr ⟨nested, hsite⟩
  exact Resolver.type?_withXref (h name hname)

/-- The names that are wanted in a block and that only a lookup resolves are asked for. -/
theorem mem_queries {block : BlockInput} (hblock : block ∈ input.blocks) {d : Definition}
    (hd : d ∈ (Block.parse block.source block.id).definitions) {name : String}
    (hname : name ∈ d.wanted) (hneeds : NeedsLookup settings input name) :
    typeQuery block name ∈ queries (localResolver settings input (readBlocks input)) input
      (readBlocks input) := by
  have hzip : (block, Block.parse block.source block.id) ∈ input.blocks.zip (readBlocks input) := by
    obtain ⟨index, hindex⟩ := List.mem_iff_getElem?.mp hblock
    refine List.mem_iff_getElem?.mpr ⟨index, ?_⟩
    simp [List.getElem?_zip_eq_some, readBlocks, hindex]
  have hwanted : name ∈
      (Block.parse block.source block.id).definitions.flatMap (·.wanted) :=
    List.mem_flatMap.mpr ⟨d, hd, hname⟩
  refine List.mem_append_left _ (List.mem_flatMap.mpr ⟨_, hzip, ?_⟩)
  exact List.mem_map.mpr ⟨name, List.mem_filter.mpr ⟨hwanted, hneeds⟩, rfl⟩

/-- A query that is asked for settles as the provider answers it. -/
theorem outcome?_resolver (hxref : settings.xrefEnabled = true) {query : Xref.Query}
    (h : query ∈ queries (localResolver settings input (readBlocks input)) input
      (readBlocks input)) :
    (resolver settings (some provider) input).xref.outcome? query =
      some (provider.outcome query) := by
  have htable : (resolver settings (some provider) input).xref =
      Xref.prefetch provider (queries (localResolver settings input (readBlocks input)) input
        (readBlocks input)) settings.limit := if_pos hxref
  rw [htable, Xref.outcome?_prefetch, if_pos h]

/-- **A definition asks for every name that it looks up exactly when the names in the extended
attributes of types inside types are wanted for another reason.** What its markup depends on are the
answers to the queries for the names that it looks up, and of these, all that are wanted and that
only a lookup resolves have been asked for. -/
theorem lookups_prefetched_iff (hxref : settings.xrefEnabled = true) {block : BlockInput}
    (hblock : block ∈ input.blocks) {d : Definition}
    (hd : d ∈ (Block.parse block.source block.id).definitions) :
    (∀ place table, (∀ name ∈ d.lookups, NeedsLookup settings input name →
        table.get? (typeQuery block name) =
          (resolver settings (some provider) input).xref.get? (typeQuery block name)) →
      ((rendering settings (some provider) input block).withXref table).definition d place =
        (rendering settings (some provider) input block).definition d place) ∧
    ((∀ name ∈ d.lookups, name ∈ d.wanted) ↔ ∀ name ∈ d.passedOver, name ∈ d.wanted) ∧
    ∀ name ∈ d.wanted, NeedsLookup settings input name →
      typeQuery block name ∈ queries (localResolver settings input (readBlocks input)) input
        (readBlocks input) ∧
      (resolver settings (some provider) input).xref.outcome? (typeQuery block name) =
        some (provider.outcome (typeQuery block name)) := by
  refine ⟨?_, Definition.lookups_subset_wanted_iff, ?_⟩
  · intro place table h
    exact definition_withXref settings provider input block d place table h
  · intro name hname hneeds
    have hquery := mem_queries settings input hblock hd hname hneeds
    exact ⟨hquery, outcome?_resolver settings provider input hxref hquery⟩

/-! ### A name in a type inside a type -/

/-- Settings under which nothing is checked, and names are looked up. -/
def asking : Settings := { silent with xrefEnabled := true }

/-- An interface of another document. -/
def foo : Xref.Entry := ⟨"https://example.org/#foo", "example", "", "interface"⟩

def foos : Xref.Provider := .ofDatabase ⟨[("Foo", [foo])]⟩

/-- A name in the extended attributes of a type inside a type that comes again outside of them. -/
def namedAgain : BlockInput := .ofSource "typedef sequence<[X(Foo f)] Foo> T;"

/-- The name is wanted for its other place, so both are links. -/
theorem lookups_prefetched_namedAgain :
    asking.xrefEnabled = true ∧ namedAgain ∈ (DocumentInput.block .empty namedAgain).blocks ∧
      ∃ d ∈ (Block.parse namedAgain.source namedAgain.id).definitions,
        d.lookups = ["sequence", "Foo", "Foo"] ∧ d.passedOver = ["Foo"] ∧
        (∀ name ∈ d.lookups, name ∈ d.wanted) ∧
        (resolver asking (some foos) (.block .empty namedAgain)).xref.outcome?
          (typeQuery namedAgain "Foo") = some (.resolved foo) := by
  have hread : (["sequence", "Foo", "Foo"], ["Foo"], ["sequence", "Foo"]) ∈
      (Block.parse namedAgain.source namedAgain.id).definitions.map fun d =>
        (d.lookups, d.passedOver, d.wanted) := by
    decide +kernel
  have hneeds : NeedsLookup asking (.block .empty namedAgain) "Foo" := by
    unfold NeedsLookup
    decide +kernel
  have houtcome : foos.outcome (typeQuery namedAgain "Foo") = .resolved foo := by decide +kernel
  obtain ⟨d, hd, hfacts⟩ := List.mem_map.mp hread
  obtain ⟨hlookups, hrest⟩ := Prod.mk.inj hfacts
  obtain ⟨hpassed, hwanted⟩ := Prod.mk.inj hrest
  have hblock : namedAgain ∈ (DocumentInput.block .empty namedAgain).blocks := List.mem_cons_self
  obtain ⟨-, hiff, hasked⟩ := lookups_prefetched_iff asking foos _ rfl hblock hd
  have hcovered : ∀ name ∈ d.lookups, name ∈ d.wanted := by
    refine hiff.mpr ?_
    rw [hpassed, hwanted]
    decide
  have hsettled := (hasked "Foo" (by rw [hwanted]; decide) hneeds).2
  rw [houtcome] at hsettled
  exact ⟨rfl, hblock, d, hd, hlookups, hpassed, hcovered, hsettled⟩

/-- A name that stands only in the extended attributes of a type inside a type. -/
def namedOnce : BlockInput := .ofSource "typedef sequence<[X(Foo f)] long> T;"

/-- The name is resolved as a type and is not wanted, so nothing is asked for, and the name is no
link, though the provider would have answered. -/
theorem not_lookups_prefetched :
    (Block.parse namedOnce.source namedOnce.id).definitions.map (fun d => (d.lookups, d.wanted)) =
        [(["sequence", "Foo", "long"], ["sequence", "long"])] ∧
      (localResolver asking (.block .empty namedOnce)
        (readBlocks (.block .empty namedOnce))).needsLookup "Foo" = true ∧
      foos.outcome (typeQuery namedOnce "Foo") = .resolved foo ∧
      queries (localResolver asking (.block .empty namedOnce)
        (readBlocks (.block .empty namedOnce))) (.block .empty namedOnce)
          (readBlocks (.block .empty namedOnce)) = [] ∧
      (rendering asking (some foos) (.block .empty namedOnce) namedOnce).resolver.type? "Foo" =
        none ∧
      ¬ ∀ d ∈ (Block.parse namedOnce.source namedOnce.id).definitions,
        ∀ name ∈ d.lookups, name ∈ d.wanted := by
  decide +kernel

end Document

end WebIdl
