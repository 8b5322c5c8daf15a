import WebIdl.Block
import WebIdl.Proofs.Catalog.Fragments
import WebIdl.Proofs.Distinct

/-!
# Merged views, from the fragments alone

A catalog answers from two lists of edges that are written while definitions are entered. Both can be
read off the fragments, so a merged view can be said without them.

* `Catalog.Linked` — the edges are those of the fragments; entering a definition keeps them so.
* `Catalog.mergedEntries` — the merged view of a name, from the fragments and their positions.
* `Catalog.nodup_mergedEntries` — no position is in a merged view twice.
* `Catalog.merged_ofRegistrations` — after any definitions have been entered, the merged views are
  these, and no edge points outside of the fragments.
-/

namespace WebIdl.Catalog

/-! ### Entering definitions -/

/-- The definitions of blocks in a row, whatever the numbers of the blocks are. -/
def ofRegistrations (calls : List (Nat × List Definition)) : Catalog :=
  calls.foldl (fun catalog (block, definitions) => catalog.register block definitions) empty

/-- What is entered for the blocks of some sources, which are numbered from 0. -/
def registrations (sources : List String) : List (Nat × List Definition) :=
  sources.zipIdx.map fun (source, block) => (block, (Block.parse source none).definitions)

/-- The fragments that are entered, in order. -/
def entered (calls : List (Nat × List Definition)) : List Fragment :=
  calls.flatMap fun (block, definitions) =>
    definitions.zipIdx.map fun (d, index) => ⟨block, index, d⟩

/-- The name that a partial definition extends, with its position. -/
def extension? (entry : Fragment × Nat) : Option (String × Nat) :=
  if entry.1.definition.isPartial then some (entry.1.name, entry.2) else none

/-- The inclusion that an includes statement states. -/
def inclusion? (f : Fragment) : Option Inclusion :=
  f.definition.mixinName?.map fun mixin => ⟨f.name, mixin⟩

/-- The edges are those of the fragments, in the order of the fragments. -/
structure Linked (catalog : Catalog) : Prop where
  extensions_eq : catalog.extensions = catalog.fragments.zipIdx.filterMap extension?
  inclusions_eq : catalog.inclusions = catalog.fragments.filterMap inclusion?

namespace Linked

variable {catalog : Catalog}

theorem empty : Linked Catalog.empty := ⟨rfl, rfl⟩

/-- Entering a definition adds the edge of the definition, if it has one. -/
theorem insert (h : Linked catalog) (f : Fragment) : Linked (catalog.insert f) where
  extensions_eq := by
    have hnew : (catalog.insert f).extensions =
        catalog.extensions ++ (extension? (f, catalog.fragments.length)).toList := by
      unfold Catalog.insert extension?
      by_cases hpartial : f.definition.isPartial
      · simp [hpartial, Fragment.name]
      · simp [hpartial]
    rw [hnew, h.extensions_eq]
    simp only [Catalog.insert, List.zipIdx_append, List.filterMap_append, Nat.zero_add,
      List.zipIdx_singleton]
    cases hextension : extension? (f, catalog.fragments.length) <;> simp [hextension]
  inclusions_eq := by
    have hnew : (catalog.insert f).inclusions =
        catalog.inclusions ++ (inclusion? f).toList := by
      unfold Catalog.insert inclusion?
      cases hmixin : f.definition.mixinName? <;> simp [hmixin, Fragment.name]
    rw [hnew, h.inclusions_eq]
    simp only [Catalog.insert, List.filterMap_append]
    cases hinclusion : inclusion? f <;> simp [hinclusion]

theorem foldl_insert (h : Linked catalog) (fragments : List Fragment) :
    Linked (fragments.foldl Catalog.insert catalog) := by
  induction fragments generalizing catalog with
  | nil => exact h
  | cons f fragments ih => exact ih (h.insert f)

end Linked

theorem foldl_register_eq (calls : List (Nat × List Definition)) (catalog : Catalog) :
    calls.foldl (fun catalog (block, definitions) => catalog.register block definitions) catalog =
      (entered calls).foldl insert catalog := by
  induction calls generalizing catalog with
  | nil => rfl
  | cons call calls ih =>
    obtain ⟨block, definitions⟩ := call
    have hfirst : entered ((block, definitions) :: calls) =
        (definitions.zipIdx.map fun (d, index) => (⟨block, index, d⟩ : Fragment)) ++
          entered calls := by
      rw [entered, List.flatMap_cons]
      rfl
    rw [List.foldl_cons, ih, hfirst, List.foldl_append, ← register_eq]

theorem linked_ofRegistrations (calls : List (Nat × List Definition)) :
    Linked (ofRegistrations calls) := by
  rw [ofRegistrations, foldl_register_eq]
  exact Linked.empty.foldl_insert _

theorem fragments_ofRegistrations (calls : List (Nat × List Definition)) :
    (ofRegistrations calls).fragments = entered calls := by
  rw [ofRegistrations, foldl_register_eq, fragments_foldl_insert]
  rfl

/-! ### Merged views with positions -/

section Entries

variable (fragments : List Fragment) (name : String) (family : Definition.Family)

/-- The fragments that have a name in a family, with their positions. -/
def namedEntries : List (Fragment × Nat) :=
  fragments.zipIdx.filter fun entry =>
    entry.1.name == name && entry.1.definition.family == some family

/-- The first base definition of a name in a family, and then all partial ones. -/
def ownEntries : List (Fragment × Nat) :=
  ((namedEntries fragments name family).find? (·.1.definition.isBase)).toList ++
    (namedEntries fragments name family).filter (·.1.definition.isPartial)

/-- The mixins of the includes statements of a name, each where it is first included. -/
def mixinNames : List String :=
  ((fragments.filter (·.name == name)).filterMap (·.definition.mixinName?)).eraseDups

/-- The merged view of a name in a family. Only interfaces and namespaces take in mixins. -/
def mergedEntries : List (Fragment × Nat) :=
  ownEntries fragments name family ++
    if family = .interface ∨ family = .namespace then
      (mixinNames fragments name).flatMap fun mixin => ownEntries fragments mixin .mixin
    else []

end Entries

section Views

variable {fragments : List Fragment} {name : String} {family : Definition.Family}
  {entry : Fragment × Nat}

theorem mem_namedEntries : entry ∈ namedEntries fragments name family ↔
    entry ∈ fragments.zipIdx ∧ entry.1.name = name ∧
      entry.1.definition.family = some family := by
  simp [namedEntries]

theorem mem_namedEntries_of_mem_ownEntries (h : entry ∈ ownEntries fragments name family) :
    entry ∈ namedEntries fragments name family := by
  rcases List.mem_append.mp h with h | h
  · exact List.mem_of_find?_eq_some (Option.mem_toList.mp h)
  · exact (List.mem_filter.mp h).1

theorem mem_zipIdx_of_mem_mergedEntries (h : entry ∈ mergedEntries fragments name family) :
    entry ∈ fragments.zipIdx := by
  rcases List.mem_append.mp h with h | h
  · exact (mem_namedEntries.mp (mem_namedEntries_of_mem_ownEntries h)).1
  · split at h
    · obtain ⟨mixin, -, h⟩ := List.mem_flatMap.mp h
      exact (mem_namedEntries.mp (mem_namedEntries_of_mem_ownEntries h)).1
    · cases h

/-! ### No position twice -/

theorem nodup_ownEntries : (ownEntries fragments name family).Nodup := by
  have hnamed : (namedEntries fragments name family).Nodup :=
    (List.Nodup.of_map _ (nodup_zipIdx_snd fragments)).filter _
  refine List.nodup_append.mpr ⟨?_, hnamed.filter _, ?_⟩
  · cases (namedEntries fragments name family).find? _ <;> simp
  · -- the base is not partial
    rintro base hbase extension hextension rfl
    have hisBase := List.find?_some (Option.mem_toList.mp hbase)
    have hisPartial := (List.mem_filter.mp hextension).2
    simp only [Definition.isBase, Bool.and_eq_true, Bool.not_eq_true'] at hisBase
    rw [hisBase.1] at hisPartial
    cases hisPartial

theorem disjoint_ownEntries {name' : String} {family' : Definition.Family}
    (h : name ≠ name' ∨ family ≠ family') :
    (ownEntries fragments name family).Disjoint (ownEntries fragments name' family') := by
  intro entry hentry hentry'
  obtain ⟨-, rfl, hfamily⟩ := mem_namedEntries.mp (mem_namedEntries_of_mem_ownEntries hentry)
  obtain ⟨-, rfl, hfamily'⟩ := mem_namedEntries.mp (mem_namedEntries_of_mem_ownEntries hentry')
  rcases h with h | h
  · exact h rfl
  · exact h (Option.some.inj (hfamily.symm.trans hfamily'))

theorem nodup_mergedEntries : (mergedEntries fragments name family).Nodup := by
  refine List.nodup_append'.mpr ⟨nodup_ownEntries, ?_, ?_⟩
  · split
    · refine List.nodup_flatMap.mpr ⟨fun _ _ => nodup_ownEntries, ?_⟩
      exact List.Pairwise.imp (fun hne => disjoint_ownEntries (.inl hne))
        (nodup_eraseDups _)
    · exact List.nodup_nil
  · intro entry hentry hmixin
    split at hmixin
    · rename_i hfamily
      obtain ⟨mixin, -, hmixin⟩ := List.mem_flatMap.mp hmixin
      refine disjoint_ownEntries (.inr ?_) hentry hmixin
      rintro rfl
      simp at hfamily
    · cases hmixin

/-- Entries of one list of fragments at one position are the same. -/
theorem nodup_positions_mergedEntries :
    ((mergedEntries fragments name family).map (·.2)).Nodup := by
  refine nodup_mergedEntries.map_on fun entry hentry entry' hentry' hposition => ?_
  exact List.inj_on_of_nodup_map (nodup_zipIdx_snd fragments)
    (mem_zipIdx_of_mem_mergedEntries hentry) (mem_zipIdx_of_mem_mergedEntries hentry') hposition

end Views

/-! ### What a catalog answers -/

/-- A definition of a family that is not partial is a base. -/
theorem isBase_eq_of_family {d : Definition} {family : Definition.Family}
    (h : d.family = some family) : d.isBase = !d.isPartial := by
  have hkind : d.kind ≠ .includes := by
    intro hkind
    rw [Definition.family, hkind] at h
    cases h
  simp [Definition.isBase, hkind]

/-- A name has a base in a family exactly when one of its definitions there is not partial. -/
theorem isSome_base?_iff {catalog : Catalog} {name : String} {family : Definition.Family} :
    (catalog.base? name (some family)).isSome = true ↔
      ∃ f ∈ catalog.fragments, f.name = name ∧ f.definition.family = some family ∧
        f.definition.isPartial = false := by
  rw [base?, List.find?_isSome]
  refine exists_congr fun f => and_congr_right fun _ => ?_
  by_cases hfamily : f.definition.family = some family
  · simp [isBase_eq_of_family hfamily, hfamily, and_comm]
  · simp [hfamily]

namespace Linked

variable {catalog : Catalog}

/-- An edge points at the partial definition that it was written for. -/
theorem extension_spec (h : Linked catalog) {name : String} {position : Nat}
    (hmem : (name, position) ∈ catalog.extensions) :
    ∃ f, catalog.fragments[position]? = some f ∧ f.definition.isPartial = true ∧
      f.name = name := by
  rw [h.extensions_eq] at hmem
  obtain ⟨⟨f, i⟩, hf, hextension⟩ := List.mem_filterMap.mp hmem
  unfold extension? at hextension
  split at hextension
  · rename_i hpartial
    obtain ⟨rfl, rfl⟩ := Prod.mk.inj (Option.some.inj hextension)
    exact ⟨f, List.mem_zipIdx_iff_getElem?.mp hf, hpartial, rfl⟩
  · cases hextension

theorem inclusion_spec (h : Linked catalog) {edge : Inclusion} (hmem : edge ∈ catalog.inclusions) :
    ∃ f ∈ catalog.fragments, f.definition.mixinName? = some edge.mixin ∧ f.name = edge.target := by
  rw [h.inclusions_eq] at hmem
  obtain ⟨f, hf, hinclusion⟩ := List.mem_filterMap.mp hmem
  obtain ⟨mixin, hmixin, rfl⟩ := Option.map_eq_some_iff.mp hinclusion
  exact ⟨f, hf, hmixin, rfl⟩

theorem base?_eq (name : String) (family : Definition.Family) :
    catalog.base? name (some family) =
      ((namedEntries catalog.fragments name family).find? (·.1.definition.isBase)).map
        (·.1) := by
  unfold base? namedEntries
  conv_lhs => rw [← List.zipIdx_map_fst 0 catalog.fragments, List.find?_map]
  rw [List.find?_filter]
  congr 2
  funext entry
  by_cases hname : entry.1.name = name <;>
    by_cases hfamily : entry.1.definition.family = some family <;> simp [hname, hfamily]

/-- Following the edges of some entries of a name to the fragments of a family finds the partial
definitions among the entries. -/
theorem followed_eq {fragments : List Fragment} {entries : List (Fragment × Nat)}
    (h : ∀ entry ∈ entries, fragments[entry.2]? = some entry.1) (name : String)
    (family : Definition.Family) :
    ((((entries.filterMap extension?).filter (·.1 == name)).filterMap fun (_, position) =>
        fragments[position]?).filter fun f => f.definition.family == some family) =
      ((entries.filter fun entry =>
        entry.1.name == name && entry.1.definition.family == some family).filter
          (·.1.definition.isPartial)).map (·.1) := by
  induction entries with
  | nil => rfl
  | cons entry entries ih =>
    have hfound := h entry List.mem_cons_self
    have hrest := ih fun entry hentry => h entry (List.mem_cons_of_mem _ hentry)
    by_cases hpartial : entry.1.definition.isPartial
    · have hextension : extension? entry = some (entry.1.name, entry.2) := if_pos hpartial
      by_cases hname : entry.1.name == name <;>
        by_cases hfamily : entry.1.definition.family == some family <;>
        simp [hextension, hfound, hname, hfamily, hpartial, hrest]
    · have hextension : extension? entry = none := if_neg hpartial
      by_cases hnamed : (entry.1.name == name && entry.1.definition.family == some family) <;>
        simp [hextension, hnamed, hpartial, hrest]

theorem partials_eq (h : Linked catalog) (name : String) (family : Definition.Family) :
    catalog.partials name family =
      ((namedEntries catalog.fragments name family).filter
        (·.1.definition.isPartial)).map (·.1) := by
  rw [partials, h.extensions_eq]
  apply followed_eq
  intro entry hentry
  exact List.mem_zipIdx_iff_getElem?.mp hentry

theorem includedMixins_eq (h : Linked catalog) (name : String) :
    catalog.includedMixins name = mixinNames catalog.fragments name := by
  have hedges (fragments : List Fragment) :
      ((fragments.filterMap inclusion?).filter (·.target == name)).map (·.mixin) =
        (fragments.filter (·.name == name)).filterMap (·.definition.mixinName?) := by
    induction fragments with
    | nil => rfl
    | cons f fragments ih =>
      cases hmixin : f.definition.mixinName? with
      | none =>
        have hinclusion : inclusion? f = none := by rw [inclusion?, hmixin]; rfl
        by_cases hname : f.name == name <;>
          simp [hinclusion, hname, hmixin, ih]
      | some mixin =>
        have hinclusion : inclusion? f = some ⟨f.name, mixin⟩ := by rw [inclusion?, hmixin]; rfl
        by_cases hname : f.name == name <;>
          simp [hinclusion, hname, hmixin, ih]
  rw [includedMixins, h.inclusions_eq, hedges, mixinNames]

theorem ownFragments_eq (h : Linked catalog) (name : String) (family : Definition.Family) :
    catalog.ownFragments name family = (ownEntries catalog.fragments name family).map (·.1) := by
  rw [ownFragments, base?_eq, h.partials_eq, ownEntries, List.map_append, Option.toList_map]

theorem merged_eq (h : Linked catalog) (name : String) (family : Definition.Family) :
    catalog.merged name family = (mergedEntries catalog.fragments name family).map (·.1) := by
  have hmixins : ((mixinNames catalog.fragments name).flatMap fun mixin =>
      ownEntries catalog.fragments mixin .mixin).map (·.1) =
        (catalog.includedMixins name).flatMap fun mixin => catalog.ownFragments mixin .mixin := by
    rw [h.includedMixins_eq, List.map_flatMap]
    apply List.flatMap_congr
    intro mixin _
    exact (h.ownFragments_eq mixin .mixin).symm
  unfold merged mergedEntries
  rw [List.map_append, h.ownFragments_eq]
  congr 1
  cases family with
  | interface | «namespace» => rw [if_pos (by decide), hmixins]
  | mixin | dictionary => rfl

end Linked

/-- **The merged view of a name is its first base definition, then its partial definitions in order,
and, for interfaces and namespaces, the same of every mixin that it includes, in the order of the
first inclusions; no definition is in it twice, and the edges that it is made from point at the
definitions that they were written for.** -/
theorem merged_ofRegistrations (calls : List (Nat × List Definition)) (name : String)
    (family : Definition.Family) :
    let catalog := ofRegistrations calls
    let entries := mergedEntries (entered calls) name family
    catalog.fragments = entered calls ∧
      catalog.merged name family = entries.map (·.1) ∧
      (∀ entry ∈ entries, catalog.fragments[entry.2]? = some entry.1) ∧
      (entries.map (·.2)).Nodup ∧
      catalog.mergedMembers name family = entries.flatMap (·.1.definition.members) ∧
      catalog.mergedExtAttrs name family =
        entries.flatMap (fun entry => entry.1.definition.attrs.elim [] (·.items)) ∧
      (∀ base position, (base, position) ∈ catalog.extensions →
        ∃ f, catalog.fragments[position]? = some f ∧ f.definition.isPartial = true ∧
          f.name = base) ∧
      ∀ edge ∈ catalog.inclusions,
        ∃ f ∈ catalog.fragments, f.definition.mixinName? = some edge.mixin ∧
          f.name = edge.target := by
  intro catalog entries
  have hlinked : Linked catalog := linked_ofRegistrations calls
  have hfragments : catalog.fragments = entered calls := fragments_ofRegistrations calls
  have hmerged : catalog.merged name family = entries.map (·.1) := by
    rw [hlinked.merged_eq, hfragments]
  refine ⟨hfragments, hmerged, ?_, nodup_positions_mergedEntries, ?_, ?_, ?_, ?_⟩
  · intro entry hentry
    rw [hfragments]
    exact List.mem_zipIdx_iff_getElem?.mp (mem_zipIdx_of_mem_mergedEntries hentry)
  · rw [mergedMembers, hmerged, List.flatMap_map]
  · rw [mergedExtAttrs, hmerged, List.flatMap_map]
  · intro base position hextension
    exact hlinked.extension_spec hextension
  · intro edge hedge
    exact hlinked.inclusion_spec hedge

end WebIdl.Catalog
