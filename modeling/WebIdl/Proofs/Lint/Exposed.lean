import WebIdl.Lint.Rules
import WebIdl.Proofs.Catalog.Merged

/-!
# Which definitions are exposed

An interface or a namespace says where it is exposed by an extended attribute of its own, of a
partial definition or of a mixin. The check reads the merged view of its name, in which only the first
of several bases stands.

* `Catalog.Contributes`, `Catalog.Linked.mem_merged_iff` — what is merged with a base, and that the
  merged view of an interface or a namespace is the first base of the name with what contributes to it.
* `Lint.unexposed_eq` — the findings are those of some of the fragments, one for each, in order.
* `Lint.unexposed_iff` — a definition is flagged exactly when neither the first base of its name nor
  anything that contributes to it is exposed, which is the same as being unexposed as far as the first
  base agrees with the definition.
* `Lint.not_unexposed_exact` — an exposed interface that is flagged for another one of its name.
-/

namespace WebIdl

namespace Definition

/-- An extended attribute of the definition settles where it is exposed. -/
def exposes (d : Definition) : Bool := (d.attrs.elim [] (·.items)).any Lint.exposes

/-- Base definitions of interfaces and namespaces, callback interfaces apart. -/
def NeedsExposure (d : Definition) : Prop :=
  d.isPartial = false ∧ (d.kind = .interface ∨ d.kind = .namespace)

instance (d : Definition) : Decidable d.NeedsExposure := inferInstanceAs (Decidable (_ ∧ _))

theorem NeedsExposure.exists_family {d : Definition} (h : d.NeedsExposure) :
    ∃ family, d.family = some family := by
  rcases h.2 with hkind | hkind <;> exact ⟨_, congrArg Kind.family hkind⟩

end Definition

namespace Catalog

variable {catalog : Catalog} {name : String} {family : Definition.Family} {f g : Fragment}

/-! ### What contributes to a definition -/

/-- A partial definition that extends a name in a family. -/
def Extends (catalog : Catalog) (name : String) (family : Definition.Family) (g : Fragment) : Prop :=
  g ∈ catalog.fragments ∧ g.definition.isPartial = true ∧ g.name = name ∧
    g.definition.family = some family

/-- An includes statement says that a name takes in a mixin. -/
def Includes (catalog : Catalog) (name mixin : String) : Prop :=
  ∃ f ∈ catalog.fragments, f.name = name ∧ f.definition.mixinName? = some mixin

/-- What is merged with the base of a name, if it is an interface or a namespace: the partial
definitions of the name, and the base and the partial definitions of every mixin that it includes. -/
inductive Contributes (catalog : Catalog) (name : String) (family : Definition.Family) :
    Fragment → Prop where
  | extension {g : Fragment} (h : catalog.Extends name family g) :
      Contributes catalog name family g
  | mixinBase {mixin : String} {g : Fragment} (hmixin : catalog.Includes name mixin)
      (h : catalog.base? mixin (some .mixin) = some g) : Contributes catalog name family g
  | mixinExtension {mixin : String} {g : Fragment} (hmixin : catalog.Includes name mixin)
      (h : catalog.Extends mixin .mixin g) : Contributes catalog name family g

theorem Linked.mem_partials_iff (h : Linked catalog) :
    g ∈ catalog.partials name family ↔ catalog.Extends name family g := by
  rw [h.partials_eq, List.mem_map, Extends]
  constructor
  · rintro ⟨entry, hentry, rfl⟩
    obtain ⟨hentry, hpartial⟩ := List.mem_filter.mp hentry
    obtain ⟨hmem, hname, hfamily⟩ := mem_namedEntries.mp hentry
    exact ⟨List.fst_mem_of_mem_zipIdx hmem, hpartial, hname, hfamily⟩
  · rintro ⟨hmem, hpartial, hname, hfamily⟩
    obtain ⟨i, hi⟩ := List.mem_iff_getElem?.mp hmem
    have hentry : (g, i) ∈ namedEntries catalog.fragments name family :=
      mem_namedEntries.mpr ⟨List.mem_zipIdx_iff_getElem?.mpr hi, hname, hfamily⟩
    exact ⟨(g, i), List.mem_filter.mpr ⟨hentry, hpartial⟩, rfl⟩

theorem Linked.mem_includedMixins_iff (h : Linked catalog) {mixin : String} :
    mixin ∈ catalog.includedMixins name ↔ catalog.Includes name mixin := by
  rw [h.includedMixins_eq, mixinNames, List.mem_eraseDups, List.mem_filterMap]
  constructor
  · rintro ⟨f, hf, hmixin⟩
    obtain ⟨hmem, hname⟩ := List.mem_filter.mp hf
    exact ⟨f, hmem, beq_iff_eq.mp hname, hmixin⟩
  · rintro ⟨f, hmem, hname, hmixin⟩
    exact ⟨f, List.mem_filter.mpr ⟨hmem, beq_iff_eq.mpr hname⟩, hmixin⟩

theorem Linked.mem_ownFragments_iff (h : Linked catalog) :
    g ∈ catalog.ownFragments name family ↔
      catalog.base? name (some family) = some g ∨ catalog.Extends name family g := by
  rw [ownFragments, List.mem_append, Option.mem_toList, h.mem_partials_iff]

/-- In the merged view of an interface or a namespace are the first base of the name and what
contributes to it. -/
theorem Linked.mem_merged_iff (h : Linked catalog)
    (hfamily : family = .interface ∨ family = .namespace) :
    g ∈ catalog.merged name family ↔
      catalog.base? name (some family) = some g ∨ catalog.Contributes name family g := by
  have hmixins : g ∈ catalog.merged name family ↔
      g ∈ catalog.ownFragments name family ∨
        ∃ mixin, catalog.Includes name mixin ∧ g ∈ catalog.ownFragments mixin .mixin := by
    rcases hfamily with rfl | rfl <;>
      simp only [merged, List.mem_append, List.mem_flatMap, h.mem_includedMixins_iff]
  rw [hmixins, h.mem_ownFragments_iff]
  simp only [h.mem_ownFragments_iff]
  constructor
  · rintro ((hbase | hextension) | ⟨mixin, hmixin, hbase | hextension⟩)
    · exact .inl hbase
    · exact .inr (.extension hextension)
    · exact .inr (.mixinBase hmixin hbase)
    · exact .inr (.mixinExtension hmixin hextension)
  · rintro (hbase | hextension | ⟨hmixin, hbase⟩ | ⟨hmixin, hextension⟩)
    · exact .inl (.inl hbase)
    · exact .inl (.inr hextension)
    · exact .inr ⟨_, hmixin, .inl hbase⟩
    · exact .inr ⟨_, hmixin, .inr hextension⟩

/-- The extended attributes in a merged view expose exactly what one of its definitions exposes. -/
theorem any_mergedExtAttrs :
    (catalog.mergedExtAttrs name family).any Lint.exposes =
      (catalog.merged name family).any (·.definition.exposes) := by
  rw [mergedExtAttrs, List.any_flatMap]
  rfl

/-- The first base definition of the name of a fragment in its family. -/
def firstBase? (catalog : Catalog) (f : Fragment) : Option Fragment :=
  f.definition.family.bind fun family => catalog.base? f.name (some family)

/-- Nothing that contributes to the name of a fragment is exposed. -/
def OthersUnexposed (catalog : Catalog) (f : Fragment) : Prop :=
  ∀ family, f.definition.family = some family →
    ∀ g, catalog.Contributes f.name family g → g.definition.exposes = false

/-- A definition that should be exposed is not: neither it nor anything that contributes to its name
says where. -/
structure Unexposed (catalog : Catalog) (f : Fragment) : Prop where
  needs : f.definition.NeedsExposure
  own : f.definition.exposes = false
  others : catalog.OthersUnexposed f

/-- The first base of the name of a definition is exposed if the definition is, and only then, unless
what contributes to the name settles it for both. -/
def BaseAgrees (catalog : Catalog) (f : Fragment) : Prop :=
  catalog.OthersUnexposed f →
    ∀ base, catalog.firstBase? f = some base → base.definition.exposes = f.definition.exposes

theorem exists_firstBase? (hf : f ∈ catalog.fragments) (hneeds : f.definition.NeedsExposure) :
    ∃ base, catalog.firstBase? f = some base := by
  obtain ⟨family, hfamily⟩ := hneeds.exists_family
  rw [firstBase?, hfamily, Option.bind_some, ← Option.isSome_iff_exists, isSome_base?_iff]
  exact ⟨f, hf, rfl, hfamily, hneeds.1⟩

end Catalog

/-! ### Findings -/

namespace Lint

open Catalog (ofRegistrations linked_ofRegistrations)

/-- What is found for a definition that is not exposed. -/
def exposureFinding (f : Fragment) : Finding :=
  let noun := if f.definition.kind = .namespace then "Namespaces" else "Interfaces"
  .error f.block "require-exposed" (exposureMessage noun f.name) none

/-- The merged view of a definition that should be exposed has no attribute that says so. -/
def flagsExposure (catalog : Catalog) (f : Fragment) : Bool :=
  !f.definition.isPartial && (exposable? f.definition.kind).any fun (_, family) =>
    !(catalog.mergedExtAttrs f.name family).any exposes

theorem exposable?_eq_some_iff {kind : Definition.Kind} {noun : String}
    {family : Definition.Family} :
    exposable? kind = some (noun, family) ↔
      kind = .interface ∧ noun = "Interfaces" ∧ family = .interface ∨
        kind = .namespace ∧ noun = "Namespaces" ∧ family = .namespace := by
  cases kind <;> simp [exposable?, eq_comm]

/-- The findings are those of the fragments that are flagged, one for each, in order. -/
theorem unexposed_eq (catalog : Catalog) :
    unexposed catalog = (catalog.fragments.filter (flagsExposure catalog)).map exposureFinding := by
  rw [← List.filterMap_eq_map, List.filterMap_filter, unexposed]
  apply List.filterMap_congr
  intro f _
  unfold flagsExposure Fragment.name
  by_cases hpartial : f.definition.isPartial
  · simp [hpartial]
  · cases hexposable : exposable? f.definition.kind with
    | none => simp [hpartial, hexposable]
    | some found =>
      obtain ⟨noun, family⟩ := found
      have hfinding : exposureFinding f =
          .error f.block "require-exposed" (exposureMessage noun f.definition.name) none := by
        rcases exposable?_eq_some_iff.mp hexposable with ⟨hkind, rfl, -⟩ | ⟨hkind, rfl, -⟩ <;>
          simp [exposureFinding, Fragment.name, hkind]
      simp only [hpartial, hexposable, hfinding, Function.comp_apply, Option.bind_eq_bind,
        Option.bind_some, Option.any_some]
      cases (catalog.mergedExtAttrs f.definition.name family).any exposes <;> rfl

theorem exists_exposable?_iff {kind : Definition.Kind} :
    (∃ noun family, exposable? kind = some (noun, family)) ↔
      kind = .interface ∨ kind = .namespace := by
  simp [exposable?_eq_some_iff, exists_or]

/-- The kinds that have to be exposed are of the families whose merged views take in mixins. -/
theorem exposable?_family {kind : Definition.Kind} {noun : String} {family : Definition.Family}
    (h : exposable? kind = some (noun, family)) :
    kind.family = some family ∧ (family = .interface ∨ family = .namespace) := by
  rcases exposable?_eq_some_iff.mp h with ⟨rfl, -, rfl⟩ | ⟨rfl, -, rfl⟩
  · exact ⟨rfl, .inl rfl⟩
  · exact ⟨rfl, .inr rfl⟩

/-- What is flagged has a merged view in which nothing is exposed. -/
theorem flagsExposure_iff {catalog : Catalog} (h : catalog.Linked) (f : Fragment) :
    flagsExposure catalog f = true ↔
      f.definition.NeedsExposure ∧
        (∀ base, catalog.firstBase? f = some base → base.definition.exposes = false) ∧
        catalog.OthersUnexposed f := by
  have hview (family : Definition.Family) (hfamily : family = .interface ∨ family = .namespace) :
      (catalog.mergedExtAttrs f.name family).any exposes = false ↔
        (∀ base, catalog.base? f.name (some family) = some base →
          base.definition.exposes = false) ∧
        ∀ g, catalog.Contributes f.name family g → g.definition.exposes = false := by
    simp only [Catalog.any_mergedExtAttrs, List.any_eq_false, h.mem_merged_iff hfamily,
      Bool.not_eq_true, or_imp, forall_and]
  have hkind : (exposable? f.definition.kind).any (fun (_, family) =>
        !(catalog.mergedExtAttrs f.name family).any exposes) = true ↔
      (∃ noun family, exposable? f.definition.kind = some (noun, family)) ∧
        (∀ base, catalog.firstBase? f = some base → base.definition.exposes = false) ∧
        catalog.OthersUnexposed f := by
    cases hexposable : exposable? f.definition.kind with
    | none => simp
    | some found =>
      obtain ⟨noun, family⟩ := found
      obtain ⟨hfamily, hmixins⟩ := exposable?_family hexposable
      have hown : f.definition.family = some family := hfamily
      rw [Option.any_some, Bool.not_eq_true', hview family hmixins, Catalog.firstBase?,
        Catalog.OthersUnexposed, hown]
      simp
  rw [flagsExposure, Bool.and_eq_true, Bool.not_eq_true', hkind, exists_exposable?_iff, ← and_assoc]
  rfl

/-- What is flagged is what is unexposed, if the first base of the name agrees with the definition, and
only then. -/
theorem flagsExposure_exact_iff {catalog : Catalog} (h : catalog.Linked) {f : Fragment}
    (hf : f ∈ catalog.fragments) :
    (flagsExposure catalog f = true ↔ catalog.Unexposed f) ↔
      (f.definition.NeedsExposure → catalog.BaseAgrees f) := by
  by_cases hneeds : f.definition.NeedsExposure
  · obtain ⟨base, hbase⟩ := Catalog.exists_firstBase? hf hneeds
    have hflags : flagsExposure catalog f = true ↔
        base.definition.exposes = false ∧ catalog.OthersUnexposed f := by
      simp [flagsExposure_iff h, hneeds, hbase]
    have hunexposed : catalog.Unexposed f ↔
        f.definition.exposes = false ∧ catalog.OthersUnexposed f :=
      ⟨fun h => ⟨h.own, h.others⟩, fun h => ⟨hneeds, h.1, h.2⟩⟩
    have hagrees : catalog.BaseAgrees f ↔
        (catalog.OthersUnexposed f → base.definition.exposes = f.definition.exposes) := by
      simp [Catalog.BaseAgrees, hbase]
    rw [hflags, hunexposed, hagrees, and_congr_left_iff]
    -- two truth values are the same exactly when they are false together
    cases base.definition.exposes <;> cases f.definition.exposes <;> simp [hneeds]
  · have hflags : ¬ flagsExposure catalog f = true := fun hflag =>
      hneeds ((flagsExposure_iff h f).mp hflag).1
    have hunexposed : ¬ catalog.Unexposed f := fun hunexposed => hneeds hunexposed.needs
    simp [hflags, hunexposed, hneeds]

/-- **The findings are those of the definitions that are flagged, one for each, in order: interfaces
and namespaces, not partial, where neither the first base of the name nor anything that contributes
to it is exposed. These are the unexposed definitions exactly as far as the first base of the name
agrees with the definition.** -/
theorem unexposed_iff (calls : List (Nat × List Definition)) :
    let catalog := ofRegistrations calls
    unexposed catalog = (catalog.fragments.filter (flagsExposure catalog)).map exposureFinding ∧
      ∀ f ∈ catalog.fragments,
        (flagsExposure catalog f = true ↔
          f.definition.NeedsExposure ∧
            (∀ base, catalog.firstBase? f = some base → base.definition.exposes = false) ∧
            catalog.OthersUnexposed f) ∧
        ((flagsExposure catalog f = true ↔ catalog.Unexposed f) ↔
          (f.definition.NeedsExposure → catalog.BaseAgrees f)) := by
  intro catalog
  have hlinked : catalog.Linked := linked_ofRegistrations calls
  refine ⟨unexposed_eq catalog, ?_⟩
  intro f hf
  exact ⟨flagsExposure_iff hlinked f, flagsExposure_exact_iff hlinked hf⟩

/-! ### An interface that is defined twice -/

/-- The interface `A` is exposed by its mixin, and `B` is not exposed. -/
def mixedIn : List (Nat × List Definition) :=
  Catalog.registrations ["interface A {};\n[Exposed=Window] interface mixin M {};\nA includes M;",
    "interface B {};"]

/-- Only the interface without a mixin is flagged, and nothing exposes it. -/
theorem unexposed_iff_mixedIn :
    let catalog := ofRegistrations mixedIn
    ∃ f ∈ catalog.fragments, f.name = "B" ∧
      unexposed catalog = [exposureFinding f] ∧ catalog.Unexposed f := by
  intro catalog
  obtain ⟨hfindings, hflagged⟩ := unexposed_iff mixedIn
  have hflag : ∃ f ∈ catalog.fragments, f.name = "B" ∧ f.definition.exposes = false ∧
      flagsExposure catalog f = true ∧
      (catalog.fragments.filter (flagsExposure catalog)).map exposureFinding =
        [exposureFinding f] := by
    decide +kernel
  obtain ⟨f, hf, hname, hown, hflag, honly⟩ := hflag
  obtain ⟨hneeds, -, hothers⟩ := (hflagged f hf).1.mp hflag
  exact ⟨f, hf, hname, hfindings.trans honly, hneeds, hown, hothers⟩

/-- The second definition of an interface says where it is exposed, and the first does not. -/
def exposedAgain : List (Nat × List Definition) :=
  Catalog.registrations ["interface A {};", "[Exposed=Window] interface A {};"]

/-- The definition that is exposed is flagged with the other one. -/
theorem not_unexposed_exact :
    let catalog := ofRegistrations exposedAgain
    ∃ f ∈ catalog.fragments, f.block = 1 ∧ f.definition.exposes = true ∧ ¬ catalog.Unexposed f ∧
      exposureFinding f ∈ unexposed catalog := by
  intro catalog
  have hflag : ∃ f ∈ catalog.fragments, f.block = 1 ∧ f.definition.exposes = true ∧
      exposureFinding f ∈ unexposed catalog := by
    decide +kernel
  obtain ⟨f, hf, hblock, hexposes, hfinding⟩ := hflag
  refine ⟨f, hf, hblock, hexposes, ?_, hfinding⟩
  intro hunexposed
  rw [hunexposed.own] at hexposes
  cases hexposes

end Lint

end WebIdl
