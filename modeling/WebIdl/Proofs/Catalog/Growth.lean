import Mathlib.Data.List.Flatten
import WebIdl.Proofs.Catalog.Merged

/-!
# What later definitions leave as it was

A definition that is entered later may stand in the middle of a merged view: the base of a name goes
before its partial definitions, and a partial mixin before the mixins that are included after it.
Nothing that was seen before is lost by that or changes its order.

* `Catalog.sublist_mergedEntries_append` — a merged view is part of the merged view over more
  fragments.
* `Catalog.base?_register`, `Catalog.family?_register` — what is found stays found.
* `Catalog.Linked.orphans_eq` — which partial definitions are orphans.
* `Catalog.kept_register` — all of these for the catalogs that are built by entering blocks.
-/

namespace WebIdl.Catalog

/-! ### Merged views over more fragments -/

section Append

variable (fragments more : List Fragment) (name : String) (family : Definition.Family)

theorem exists_namedEntries_append :
    ∃ later, namedEntries (fragments ++ more) name family =
      namedEntries fragments name family ++ later := by
  unfold namedEntries
  rw [List.zipIdx_append, List.filter_append]
  exact ⟨_, rfl⟩

/-- A base that is there stays the base, and one that comes later stands before the partial
definitions. -/
theorem sublist_ownEntries_append :
    (ownEntries fragments name family).Sublist (ownEntries (fragments ++ more) name family) := by
  obtain ⟨later, hlater⟩ := exists_namedEntries_append fragments more name family
  unfold ownEntries
  rw [hlater]
  have hbase : ((namedEntries fragments name family).find? (·.1.definition.isBase)).toList.Sublist
      ((namedEntries fragments name family ++ later).find? (·.1.definition.isBase)).toList := by
    rw [List.find?_append]
    cases (namedEntries fragments name family).find? (·.1.definition.isBase) with
    | none => exact List.nil_sublist _
    | some base => exact List.Sublist.refl _
  have hpartials : ((namedEntries fragments name family).filter (·.1.definition.isPartial)).Sublist
      ((namedEntries fragments name family ++ later).filter (·.1.definition.isPartial)) :=
    (List.sublist_append_left _ later).filter _
  exact hbase.append hpartials

theorem sublist_mixinNames_append :
    (mixinNames fragments name).Sublist (mixinNames (fragments ++ more) name) := by
  unfold mixinNames
  rw [List.filter_append, List.filterMap_append, List.eraseDups_append]
  exact List.sublist_append_left _ _

/-- The merged view of a name grows at all of its levels: in what the name has itself, in the mixins
that it includes, and in what each of these has. -/
theorem sublist_mergedEntries_append :
    (mergedEntries fragments name family).Sublist
      (mergedEntries (fragments ++ more) name family) := by
  have hmixins : ((mixinNames fragments name).flatMap fun mixin =>
      ownEntries fragments mixin .mixin).Sublist
        ((mixinNames (fragments ++ more) name).flatMap fun mixin =>
          ownEntries (fragments ++ more) mixin .mixin) := by
    have hsame := List.Sublist.flatMap_right (mixinNames fragments name)
      fun mixin _ => sublist_ownEntries_append fragments more mixin .mixin
    have hmore := (sublist_mixinNames_append fragments more name).flatMap
      fun mixin => ownEntries (fragments ++ more) mixin .mixin
    exact hsame.trans hmore
  unfold mergedEntries
  refine (sublist_ownEntries_append fragments more name family).append ?_
  split
  · exact hmixins
  · exact List.Sublist.refl _

end Append

/-! ### Entering one more block -/

section Register

variable {calls : List (Nat × List Definition)} {block : Nat} {definitions : List Definition}
  {catalog : Catalog} {name : String}

theorem fragments_register (catalog : Catalog) (block : Nat) (definitions : List Definition) :
    (catalog.register block definitions).fragments =
      catalog.fragments ++ entered [(block, definitions)] := by
  rw [register_eq, fragments_foldl_insert, entered, List.flatMap_singleton]

theorem Linked.register (h : Linked catalog) (block : Nat) (definitions : List Definition) :
    Linked (catalog.register block definitions) := by
  rw [register_eq]
  exact h.foldl_insert _

theorem base?_register {family : Option Definition.Family} {f : Fragment}
    (h : catalog.base? name family = some f) :
    (catalog.register block definitions).base? name family = some f := by
  unfold base? at h ⊢
  rw [fragments_register, List.find?_append, h]
  rfl

theorem definition?_register {d : Definition} (h : catalog.definition? name = some d) :
    (catalog.register block definitions).definition? name = some d := by
  obtain ⟨f, hf, hd⟩ := Option.map_eq_some_iff.mp h
  rw [definition?, base?_register hf, Option.map_some, hd]

theorem family?_register {family : Definition.Family} (h : catalog.family? name = some family) :
    (catalog.register block definitions).family? name = some family := by
  unfold family? at h ⊢
  rw [fragments_register, List.filter_append, List.findSome?_append, h]
  rfl

end Register

/-! ### Orphans -/

/-- The family of a definition has no base definition of its name. -/
def isBaseless (catalog : Catalog) (f : Fragment) : Bool :=
  match f.definition.family with
  | some family => (catalog.base? f.name (some family)).isNone
  | none => true

/-- Following the edges of some entries leads to the partial definitions among them. -/
theorem followed_all_eq {fragments : List Fragment} {entries : List (Fragment × Nat)}
    (h : ∀ entry ∈ entries, fragments[entry.2]? = some entry.1) :
    ((entries.filterMap extension?).filterMap fun (_, position) => fragments[position]?) =
      (entries.map (·.1)).filter (·.definition.isPartial) := by
  induction entries with
  | nil => rfl
  | cons entry entries ih =>
    have hfound := h entry List.mem_cons_self
    have hrest := ih fun entry hentry => h entry (List.mem_cons_of_mem _ hentry)
    by_cases hpartial : entry.1.definition.isPartial
    · have hextension : extension? entry = some (entry.1.name, entry.2) := if_pos hpartial
      simp [hextension, hfound, hpartial, hrest]
    · have hextension : extension? entry = none := if_neg hpartial
      simp [hextension, hpartial, hrest]

/-- The orphans of a catalog are the partial definitions in it that have no base, in order. -/
theorem Linked.orphans_eq {catalog : Catalog} (h : Linked catalog) :
    catalog.orphans =
      (catalog.fragments.filter (·.definition.isPartial)).filter catalog.isBaseless := by
  have hfollowed : (catalog.extensions.filterMap fun (_, position) =>
      catalog.fragments[position]?) = catalog.fragments.filter (·.definition.isPartial) := by
    rw [h.extensions_eq, followed_all_eq, List.zipIdx_map_fst]
    intro entry hentry
    exact List.mem_zipIdx_iff_getElem?.mp hentry
  rw [orphans, hfollowed]
  rfl

/-- A definition that has a base keeps it. -/
theorem isBaseless_of_register {catalog : Catalog} {block : Nat} {definitions : List Definition}
    {f : Fragment} (h : (catalog.register block definitions).isBaseless f = true) :
    catalog.isBaseless f = true := by
  cases hfamily : f.definition.family with
  | none => simp [isBaseless, hfamily]
  | some family =>
    simp only [isBaseless, hfamily, Option.isNone_iff_eq_none] at h ⊢
    by_contra hbase
    obtain ⟨base, hbase⟩ := Option.ne_none_iff_exists'.mp hbase
    rw [base?_register hbase] at h
    cases h

/-- A partial definition that is no orphan does not become one. -/
theorem Linked.not_mem_orphans_register {catalog : Catalog} (h : Linked catalog) {f : Fragment}
    (hf : f ∈ catalog.fragments) (hpartial : f.definition.isPartial = true)
    (hbase : f ∉ catalog.orphans) (block : Nat) (definitions : List Definition) :
    f ∉ (catalog.register block definitions).orphans := by
  intro horphan
  rw [(h.register block definitions).orphans_eq] at horphan
  have hbaseless := isBaseless_of_register (List.mem_filter.mp horphan).2
  apply hbase
  rw [h.orphans_eq]
  exact List.mem_filter.mpr ⟨List.mem_filter.mpr ⟨hf, hpartial⟩, hbaseless⟩

/-! ### Catalogs that are built by entering blocks -/

/-- **Entering one more block loses nothing: every merged view stays part of the merged view, in the
same order and with every definition at its position; definitions, bases and families that were
found stay what is found; and no partial definition loses its base.** -/
theorem kept_register (calls : List (Nat × List Definition)) (block : Nat)
    (definitions : List Definition) :
    let before := ofRegistrations calls
    let after := before.register block definitions
    (∀ name family,
      (mergedEntries before.fragments name family).Sublist
          (mergedEntries after.fragments name family) ∧
        (before.merged name family).Sublist (after.merged name family)) ∧
      (∀ name d, before.definition? name = some d → after.definition? name = some d) ∧
      (∀ name family f, before.base? name family = some f → after.base? name family = some f) ∧
      (∀ name family, before.family? name = some family → after.family? name = some family) ∧
      ∀ f ∈ before.fragments, f.definition.isPartial = true → f ∉ before.orphans →
        f ∉ after.orphans := by
  intro before after
  have hbefore : Linked before := linked_ofRegistrations calls
  have hafter : Linked after := hbefore.register block definitions
  refine ⟨?_, fun _ _ => definition?_register, fun _ _ _ => base?_register,
    fun _ _ => family?_register, ?_⟩
  · intro name family
    have hentries : (mergedEntries before.fragments name family).Sublist
        (mergedEntries after.fragments name family) := by
      rw [fragments_register]
      exact sublist_mergedEntries_append _ _ name family
    refine ⟨hentries, ?_⟩
    rw [hbefore.merged_eq, hafter.merged_eq]
    exact hentries.map _
  · intro f hf hpartial hbase
    exact hbefore.not_mem_orphans_register hf hpartial hbase block definitions

end WebIdl.Catalog
