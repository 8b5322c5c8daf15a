import WebIdl.Catalog
import WebIdl.Proofs.Anchor.Plan

/-!
# The fragments of a catalog

* `Catalog.fragments_ofBlocks` — the fragments of a document are its definitions in order, each at
  its place.
* `Catalog.memberPlace?` — the lookup of a member in a merged view, with the place where the member
  stands; `Catalog.member?_eq` says that it is the same lookup.
* `Catalog.mem_placedMembers_of_memberPlace?` — the member that is found stands in the document at
  the place that is found.
-/

namespace WebIdl

namespace Fragment

def place (f : Fragment) : Place := ⟨f.block, f.index⟩

/-- The members of a fragment with their places. -/
def placedMembers (f : Fragment) : List (MemberPlace × Member) :=
  f.definition.members.zipIdx.map fun (m, index) => (f.place.member index, m)

theorem map_snd_placedMembers (f : Fragment) :
    f.placedMembers.map (·.2) = f.definition.members := by
  rw [placedMembers, List.map_map]
  exact List.zipIdx_map_fst 0 f.definition.members

end Fragment

namespace Catalog

/-! ### What is entered -/

theorem fragments_foldl_insert (catalog : Catalog) (fragments : List Fragment) :
    (fragments.foldl insert catalog).fragments = catalog.fragments ++ fragments := by
  induction fragments generalizing catalog with
  | nil => simp
  | cons f fragments ih => simp [ih, insert]

theorem register_eq (catalog : Catalog) (block : Nat) (definitions : List Definition) :
    catalog.register block definitions =
      (definitions.zipIdx.map fun (d, index) => (⟨block, index, d⟩ : Fragment)).foldl insert
        catalog := by
  rw [register, List.foldl_map]

/-- Entering block by block is entering definition by definition. -/
theorem foldl_register (blocks : List (List Definition)) (start : Nat) (catalog : Catalog) :
    (blocks.zipIdx start).foldl (fun c (definitions, block) => c.register block definitions)
        catalog =
      (((blocks.zipIdx start).flatMap fun (definitions, block) =>
        definitions.zipIdx.map fun (d, index) => ((⟨block, index⟩ : Place), d)).map
          fun (place, d) => (⟨place.block, place.definition, d⟩ : Fragment)).foldl insert
            catalog := by
  induction blocks generalizing start catalog with
  | nil => rfl
  | cons definitions blocks ih =>
    rw [List.zipIdx_cons, List.foldl_cons, List.flatMap_cons, List.map_append, List.foldl_append,
      ih]
    dsimp only
    rw [register_eq, List.map_map]
    rfl

theorem ofBlocks_eq (blocks : List (List Definition)) :
    ofBlocks blocks =
      ((placed blocks).map fun (place, d) => (⟨place.block, place.definition, d⟩ : Fragment)).foldl
        insert empty :=
  foldl_register blocks 0 empty

/-- The fragments of a document are its definitions in order, each at its place. -/
theorem fragments_ofBlocks (blocks : List (List Definition)) :
    (ofBlocks blocks).fragments =
      (placed blocks).map fun (place, d) => ⟨place.block, place.definition, d⟩ := by
  rw [ofBlocks_eq, fragments_foldl_insert]
  rfl

/-! ### Merged views with places -/

/-- The fragments whose members are those of a name: a merged view, or, for a name without a family,
the enumerations of that name. -/
def view (catalog : Catalog) (scope : String) : List Fragment :=
  match catalog.family? scope with
  | some family => catalog.merged scope family
  | none => catalog.fragments.filter fun f => f.name == scope && f.definition.kind == .enum

/-- The first member of a name in a merged view, and where it stands. -/
def memberPlace? (catalog : Catalog) (scope name : String) : Option (MemberPlace × Member) :=
  ((catalog.view scope).flatMap (·.placedMembers)).find? (·.2.name? == some name)

theorem member?_eq (catalog : Catalog) (scope name : String) :
    catalog.member? scope name = (catalog.memberPlace? scope name).map (·.2) := by
  have hview : catalog.member? scope name =
      ((catalog.view scope).flatMap (·.definition.members)).find? (·.name? == some name) := by
    unfold member? view mergedMembers
    cases catalog.family? scope <;> rfl
  have hmembers : (catalog.view scope).flatMap (·.definition.members) =
      ((catalog.view scope).flatMap (·.placedMembers)).map (·.2) := by
    simp only [List.map_flatMap, Fragment.map_snd_placedMembers]
  rw [hview, hmembers, List.find?_map]
  rfl

theorem mem_fragments_of_mem_ownFragments {catalog : Catalog} {name : String}
    {family : Definition.Family} {f : Fragment} (h : f ∈ catalog.ownFragments name family) :
    f ∈ catalog.fragments := by
  rcases List.mem_append.mp h with h | h
  · exact List.mem_of_find?_eq_some (Option.mem_toList.mp h)
  · obtain ⟨⟨_, position⟩, -, hf⟩ := List.mem_filterMap.mp (List.mem_filter.mp h).1
    exact List.mem_of_getElem? hf

theorem mem_fragments_of_mem_merged {catalog : Catalog} {name : String}
    {family : Definition.Family} {f : Fragment} (h : f ∈ catalog.merged name family) :
    f ∈ catalog.fragments := by
  rcases List.mem_append.mp h with h | h
  · exact mem_fragments_of_mem_ownFragments h
  · cases family with
    | interface | «namespace» =>
      obtain ⟨mixin, -, hf⟩ := List.mem_flatMap.mp h
      exact mem_fragments_of_mem_ownFragments hf
    | mixin | dictionary => cases h

theorem mem_fragments_of_mem_view {catalog : Catalog} {scope : String} {f : Fragment}
    (h : f ∈ catalog.view scope) : f ∈ catalog.fragments := by
  unfold view at h
  split at h
  · exact mem_fragments_of_mem_merged h
  · exact (List.mem_filter.mp h).1

/-- The member that is found stands in the document at the place that is found. -/
theorem mem_placedMembers_of_memberPlace? {blocks : List (List Definition)} {scope name : String}
    {place : MemberPlace} {m : Member}
    (h : (ofBlocks blocks).memberPlace? scope name = some (place, m)) :
    (place, m) ∈ WebIdl.placedMembers blocks := by
  obtain ⟨f, hview, hmem⟩ := List.mem_flatMap.mp (List.mem_of_find?_eq_some h)
  have hf := mem_fragments_of_mem_view hview
  rw [fragments_ofBlocks] at hf
  obtain ⟨_, hplaced, rfl⟩ := List.mem_map.mp hf
  exact List.mem_flatMap.mpr ⟨_, hplaced, hmem⟩

theorem name?_of_memberPlace? {catalog : Catalog} {scope name : String} {place : MemberPlace}
    {m : Member} (h : catalog.memberPlace? scope name = some (place, m)) :
    m.name? = some name := by
  simpa using List.find?_some h

end Catalog

end WebIdl
