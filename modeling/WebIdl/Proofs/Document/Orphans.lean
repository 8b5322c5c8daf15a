import WebIdl.Proofs.Catalog.Growth
import WebIdl.Proofs.Document.References

/-!
# Partial definitions that extend nothing

A partial definition without a base is warned of unless its name is known otherwise. Its base is
looked for in its own family, and whether the name is known is asked of the resolver, which finds the
definitions of all families.

* `Resolver.needsLookup_iff`, `Resolver.type?_eq_none_iff` — a name resolves to nothing when terms,
  definitions, builtin types and lookups are all without it.
* `Document.Orphan`, `Document.KnownElsewhere`, `Document.Shadowed` — a partial definition without a
  base, a name that is known though nothing in the document defines it, and a name that a definition
  of another family has.
* `Document.orphans_reported_iff` — an orphan whose name is not known elsewhere is warned of exactly
  when no definition of another family has its name.
* `Document.not_orphans_reported` — a partial interface is passed over for a dictionary.
-/

namespace WebIdl

theorem TermIndex.matching_eq_nil_iff {terms : List TermInput} {scope : Option String}
    {name : String} :
    (ofTerms terms).matching scope name = [] ↔ ∀ term ∈ terms, ⟨scope, name⟩ ∉ term.keys := by
  unfold matching
  rw [select_eq_nil_iff]
  refine forall₂_congr fun term _ => ?_
  constructor
  · intro h hkey
    have hfalse := h ⟨scope, name⟩ hkey
    simp at hfalse
  · intro h key hkey
    rw [beq_eq_false_iff_ne]
    rintro rfl
    exact h hkey

namespace Resolver

variable {resolver : Resolver} {name : String}

/-- Only a lookup resolves a name that no term, no definition and no builtin type has. -/
theorem needsLookup_iff {terms : List TermInput} (hindex : resolver.index = .ofTerms terms)
    (hlength : resolver.claims.designations.length = terms.length) :
    resolver.needsLookup name = true ↔
      (∀ term ∈ terms, ⟨none, name⟩ ∉ term.keys) ∧ resolver.catalog.definition? name = none ∧
        Vocabulary.typeAnchor? name = none := by
  rw [needsLookup, localType?, declared?_none, builtin?, Option.isNone_iff_eq_none]
  simp only [Option.orElse_eq_none, Option.map_eq_none_iff, host?_eq_none_iff hindex hlength,
    TermIndex.matching_eq_nil_iff]

theorem type?_eq_none_iff :
    resolver.type? name = none ↔
      resolver.needsLookup name = true ∧ resolver.external? name = none := by
  rw [type?, needsLookup, Option.isNone_iff_eq_none, Option.orElse_eq_none]

end Resolver

/-- Only definitions that are merged with others can be partial. -/
theorem exists_family_of_isPartial {d : Definition} (h : d.isPartial = true) :
    ∃ family, d.family = some family := by
  obtain ⟨attrs, form⟩ := d
  cases form with
  | container head name parent body =>
    cases head with
    | interface | interfaceMixin | «namespace» | dictionary => exact ⟨_, rfl⟩
    | callbackInterface | «enum» => cases h
  | typedef | callback | includes => cases h

namespace Document

/-- What is said of a partial definition that extends nothing. -/
def orphanWarning (block : Nat) (name : String) : Diagnostic :=
  Lint.warning "orphan-partial" ("Partial definition `" ++ name ++ "` in " ++ blockName block
    ++ " does not extend any known definition.")

section Built

variable (settings : Settings) (provider : Option Xref.Provider) (input : DocumentInput)

/-- A partial definition without a base: no base definition of the document has its name and its
family. -/
structure Orphan (d : Definition) : Prop where
  isPartial : d.isPartial = true
  baseless : ∀ p e, (p, e) ∈ placed (definitions input) → e.isBase = true → e.name = d.name →
    e.family ≠ d.family

/-- A base definition of another family, or of none, has the name. -/
def Shadowed (d : Definition) : Prop :=
  ∃ p e, (p, e) ∈ placed (definitions input) ∧ e.isBase = true ∧ e.name = d.name ∧
    e.family ≠ d.family

instance (d : Definition) : Decidable (Orphan input d) :=
  decidable_of_iff (d.isPartial = true ∧ ∀ entry ∈ placed (definitions input),
      entry.2.isBase = true → entry.2.name = d.name → entry.2.family ≠ d.family)
    ⟨fun h => ⟨h.1, fun p e => h.2 (p, e)⟩, fun h => ⟨h.1, fun entry => h.2 entry.1 entry.2⟩⟩

instance (d : Definition) : Decidable (Shadowed input d) :=
  decidable_of_iff (∃ entry ∈ placed (definitions input), entry.2.isBase = true ∧
      entry.2.name = d.name ∧ entry.2.family ≠ d.family)
    ⟨fun ⟨(p, e), he, h⟩ => ⟨p, e, he, h⟩, fun ⟨p, e, he, h⟩ => ⟨(p, e), he, h⟩⟩

/-- The name is known in a block for another reason than a definition: it is that of a term or of a
builtin type, or the provider has one definition of it for what the block cites. -/
def KnownElsewhere (block : BlockInput) (name : String) : Prop :=
  (∃ term ∈ input.terms, ⟨none, name⟩ ∈ term.keys) ∨
    (∃ anchor, Vocabulary.typeAnchor? name = some anchor) ∨
      ∃ p entry, provider = some p ∧ settings.xrefEnabled = true ∧
        p.outcome (typeQuery block name) = .resolved entry

/-! ### Names that resolve to nothing -/

/-- The name of a partial definition resolves to nothing in its block exactly when it is not known
elsewhere and no base definition has it, of whatever family. -/
theorem type?_eq_none_iff {block : BlockInput} {place : Place} {d : Definition}
    (hblock : (block, place.block) ∈ input.blocks.zipIdx)
    (hd : (place, d) ∈ placed (definitions input)) (hpartial : d.isPartial = true) :
    ((resolver settings provider input).withCite block.cite).type? d.name = none ↔
      ¬ KnownElsewhere settings provider input block d.name ∧
        ∀ p e, (p, e) ∈ placed (definitions input) → e.isBase = true → e.name ≠ d.name := by
  have hlength := length_designations_claims input
  have hdefinition : (resolver settings provider input).catalog.definition? d.name = none ↔
      ∀ p e, (p, e) ∈ placed (definitions input) → e.isBase = true → e.name ≠ d.name := by
    rw [← Option.not_isSome_iff_eq_none]
    refine (not_congr Catalog.isSome_definition?_iff).trans ?_
    push Not
    rfl
  have hneeds : NeedsLookup settings input d.name ↔
      (∀ term ∈ input.terms, ⟨none, d.name⟩ ∉ term.keys) ∧
        (resolver settings provider input).catalog.definition? d.name = none ∧
          Vocabulary.typeAnchor? d.name = none :=
    Resolver.needsLookup_iff rfl hlength
  -- a partial definition wants its own name, so the name is asked for if nothing else has it
  have hexternal (h : NeedsLookup settings input d.name) :
      ((resolver settings provider input).withCite block.cite).external? d.name = none ↔
        ¬ ∃ p entry, provider = some p ∧ settings.xrefEnabled = true ∧
          p.outcome (typeQuery block d.name) = .resolved entry := by
    apply external?_withCite_eq_none_iff
    obtain ⟨block', hblock', hindex⟩ := mem_placed_iff.mp hd
    obtain rfl : block' = block := by
      rw [List.mem_zipIdx_iff_getElem?] at hblock hblock'
      exact Option.some.inj (hblock'.symm.trans hblock)
    have hwanted : d.name ∈ d.wanted := by
      simp [Definition.wanted, hpartial]
    exact mem_queries settings input (List.fst_mem_of_mem_zipIdx hblock)
      (List.fst_mem_of_mem_zipIdx hindex) hwanted h
  have htype : ((resolver settings provider input).withCite block.cite).type? d.name = none ↔
      NeedsLookup settings input d.name ∧
        ((resolver settings provider input).withCite block.cite).external? d.name = none :=
    Resolver.type?_eq_none_iff
  rw [htype, and_congr_right hexternal, hneeds, hdefinition, KnownElsewhere]
  constructor
  · rintro ⟨⟨hterms, hnone, hbuiltin⟩, hanswer⟩
    refine ⟨?_, hnone⟩
    rintro (⟨term, hterm, hkey⟩ | ⟨anchor, hanchor⟩ | hfound)
    · exact hterms term hterm hkey
    · rw [hbuiltin] at hanchor
      cases hanchor
    · exact hanswer hfound
  · rintro ⟨hknown, hnone⟩
    refine ⟨⟨?_, hnone, ?_⟩, fun hfound => hknown (.inr (.inr hfound))⟩
    · intro term hterm hkey
      exact hknown (.inl ⟨term, hterm, hkey⟩)
    · by_contra hanchor
      exact hknown (.inr (.inl (Option.ne_none_iff_exists'.mp hanchor)))

/-- A definition has no base in the catalog of a document exactly when no base definition has its
name and its family. -/
theorem isBaseless_iff {place : Place} {d : Definition} (hpartial : d.isPartial = true) :
    (Catalog.ofBlocks (definitions input)).isBaseless ⟨place.block, place.definition, d⟩ = true ↔
      Orphan input d := by
  obtain ⟨family, hfamily⟩ := exists_family_of_isPartial hpartial
  have hbase : (Catalog.ofBlocks (definitions input)).isBaseless
      ⟨place.block, place.definition, d⟩ = true ↔
        ∀ f ∈ (Catalog.ofBlocks (definitions input)).fragments, ¬ (f.definition.isBase = true ∧
          f.definition.name = d.name ∧ f.definition.family = d.family) := by
    simp [Catalog.isBaseless, hfamily, Catalog.base?, Fragment.name]
  rw [hbase, Catalog.fragments_ofBlocks]
  constructor
  · intro h
    refine ⟨hpartial, ?_⟩
    intro p e he hisBase hname hsame
    exact h _ (List.mem_map.mpr ⟨(p, e), he, rfl⟩) ⟨hisBase, hname, hsame⟩
  · rintro ⟨-, h⟩ f hf ⟨hisBase, hname, hsame⟩
    obtain ⟨⟨p, e⟩, he, rfl⟩ := List.mem_map.mp hf
    exact h p e he hisBase hname hsame

/-! ### Warnings -/

/-- The partial definitions of a document that are warned of, in order. -/
def reported : List (Place × Definition) :=
  (((placed (definitions input)).filter (·.2.isPartial)).filter fun (place, d) =>
    (Catalog.ofBlocks (definitions input)).isBaseless ⟨place.block, place.definition, d⟩).filter
      fun (place, d) => !(((resolver settings provider input).withCite
        (((input.blocks.map (·.cite))[place.block]?).getD [])).type? d.name).isSome

theorem mem_reported_iff {block : BlockInput} {place : Place} {d : Definition}
    (hblock : (block, place.block) ∈ input.blocks.zipIdx)
    (hd : (place, d) ∈ placed (definitions input)) :
    (place, d) ∈ reported settings provider input ↔
      Orphan input d ∧ ¬ KnownElsewhere settings provider input block d.name ∧
        ¬ Shadowed input d := by
  have hcite : ((input.blocks.map (·.cite))[place.block]?).getD [] = block.cite := by
    rw [List.getElem?_map, List.mem_zipIdx_iff_getElem?.mp hblock]
    rfl
  unfold reported
  rw [List.mem_filter, List.mem_filter, List.mem_filter]
  simp only [hcite, hd, true_and, Bool.not_eq_true', Option.isSome_eq_false_iff,
    Option.isNone_iff_eq_none]
  constructor
  · rintro ⟨⟨hpartial, hbaseless⟩, hnone⟩
    obtain ⟨hknown, hundefined⟩ :=
      (type?_eq_none_iff settings provider input hblock hd hpartial).mp hnone
    refine ⟨(isBaseless_iff input hpartial).mp hbaseless, hknown, ?_⟩
    rintro ⟨p, e, he, hisBase, hname, -⟩
    exact hundefined p e he hisBase hname
  · rintro ⟨horphan, hknown, hshadowed⟩
    refine ⟨⟨horphan.isPartial, (isBaseless_iff input horphan.isPartial).mpr horphan⟩, ?_⟩
    refine (type?_eq_none_iff settings provider input hblock hd horphan.isPartial).mpr
      ⟨hknown, ?_⟩
    intro p e he hisBase hname
    exact hshadowed ⟨p, e, he, hisBase, hname, horphan.baseless p e he hisBase hname⟩

theorem filter_orphan_warnings_build (hrule : settings.checks.orphanPartial = true) :
    (build settings provider input).warnings.filter
        (fun warning => warning.code == some "orphan-partial") =
      (reported settings provider input).map fun (place, d) =>
        orphanWarning place.block d.name := by
  have hlinked : (Catalog.ofBlocks (definitions input)).Linked := by
    rw [Catalog.ofBlocks_eq]
    exact Catalog.Linked.empty.foldl_insert _
  have hreport : (report settings provider input).warnings =
      (reported settings provider input).map fun (place, d) =>
        orphanWarning place.block d.name := by
    have hcatalog : (resolver settings provider input).catalog =
      Catalog.ofBlocks (definitions input) := rfl
    unfold report Lint.check Lint.orphanWarnings reported
    dsimp only
    rw [if_pos hrule, hcatalog, hlinked.orphans_eq, Catalog.fragments_ofBlocks]
    simp only [List.filter_map, List.map_map]
    rfl
  rw [warnings_build, List.filter_append, List.filter_append,
    filter_eq_self_of_code fun _ => code_of_mem_report,
    filter_eq_nil_of_code (fun _ => code_of_mem_ambiguities) (by decide),
    filter_eq_nil_of_code (fun _ => code_of_mem_unresolvedWarnings) (by decide), hreport]
  simp

/-- **The warnings about orphans are those of some of the partial definitions, in their order, and an
orphan whose name is not known elsewhere is one of these exactly when no definition of another family
has its name.** -/
theorem orphans_reported_iff (hrule : settings.checks.orphanPartial = true) :
    ∃ reported : List (Place × Definition),
      reported.Sublist (placed (definitions input)) ∧
      (build settings provider input).warnings.filter
          (fun warning => warning.code == some "orphan-partial") =
        reported.map (fun (place, d) => orphanWarning place.block d.name) ∧
      ∀ block place d, (block, place.block) ∈ input.blocks.zipIdx →
        (place, d) ∈ placed (definitions input) →
          ((place, d) ∈ reported ↔
            Orphan input d ∧ ¬ KnownElsewhere settings provider input block d.name ∧
              ¬ Shadowed input d) := by
  refine ⟨reported settings provider input, ?_, ?_, ?_⟩
  · exact (List.filter_sublist.trans List.filter_sublist).trans List.filter_sublist
  · exact filter_orphan_warnings_build settings provider input hrule
  · intro block place d hblock hd
    exact mem_reported_iff settings provider input hblock hd

end Built

/-! ### A definition of another family -/

/-- Settings under which only orphans are warned of. -/
def watching : Settings := { silent with checks := { silent.checks with orphanPartial := true } }

/-- A document without terms and without a provider knows only the builtin types. -/
theorem not_knownElsewhere {settings : Settings} {input : DocumentInput} {block : BlockInput}
    {name : String} (hterms : input.terms = []) (hbuiltin : Vocabulary.typeAnchor? name = none) :
    ¬ KnownElsewhere settings none input block name := by
  rintro (⟨term, hterm, -⟩ | ⟨anchor, hanchor⟩ | ⟨p, -, hp, -⟩)
  · rw [hterms] at hterm
    cases hterm
  · rw [hbuiltin] at hanchor
    cases hanchor
  · cases hp

/-- A partial interface with nothing to extend. -/
def extending : BlockInput := .ofSource "partial interface X {};"

/-- Another partial interface has its base before it. -/
def unextended : DocumentInput :=
  .block (.block .empty (.ofSource "interface A {};\npartial interface A {};")) extending

/-- The partial interface without a base is warned of, in its block. -/
theorem orphans_reported_unextended :
    watching.checks.orphanPartial = true ∧
      orphanWarning 1 "X" ∈ (build watching none unextended).warnings := by
  have horphan : ∃ entry ∈ placed (definitions unextended), entry.1.block = 1 ∧
      entry.2.name = "X" ∧ Orphan unextended entry.2 ∧ ¬ Shadowed unextended entry.2 := by
    decide +kernel
  obtain ⟨⟨⟨block, index⟩, d⟩, hd, rfl, hname, horphan, hshadowed⟩ := horphan
  have hblock : (extending, 1) ∈ unextended.blocks.zipIdx := List.mem_of_getElem? (i := 1) rfl
  have hknown : ¬ KnownElsewhere watching none unextended extending d.name := by
    rw [hname]
    exact not_knownElsewhere rfl (by decide)
  obtain ⟨reported, -, hwarnings, hreported⟩ := orphans_reported_iff watching none unextended rfl
  have hmem : (⟨1, index⟩, d) ∈ reported :=
    (hreported extending _ d hblock hd).mpr ⟨horphan, hknown, hshadowed⟩
  have hwarning : orphanWarning 1 d.name ∈ (build watching none unextended).warnings.filter
      (fun warning => warning.code == some "orphan-partial") := by
    rw [hwarnings]
    exact List.mem_map.mpr ⟨_, hmem, rfl⟩
  rw [← hname]
  exact ⟨rfl, (List.mem_filter.mp hwarning).1⟩

/-- A partial interface with the name of a dictionary. -/
def besideDictionary : BlockInput := .ofSource "dictionary X {};\npartial interface X {};"

/-- The partial interface has no base, and its name is not known elsewhere, and there is no
warning. -/
theorem not_orphans_reported :
    watching.checks.orphanPartial = true ∧
      (∃ place d, (besideDictionary, place.block) ∈
          (DocumentInput.block .empty besideDictionary).blocks.zipIdx ∧
        (place, d) ∈ placed (definitions (.block .empty besideDictionary)) ∧
        Orphan (.block .empty besideDictionary) d ∧
        ¬ KnownElsewhere watching none (.block .empty besideDictionary) besideDictionary d.name) ∧
      (build watching none (.block .empty besideDictionary)).warnings = [] := by
  have horphan : ∃ entry ∈ placed (definitions (.block .empty besideDictionary)),
      entry.1.block = 0 ∧ entry.2.name = "X" ∧ Orphan (.block .empty besideDictionary) entry.2 := by
    decide +kernel
  obtain ⟨⟨⟨block, index⟩, d⟩, hd, rfl, hname, horphan⟩ := horphan
  have hknown : ¬ KnownElsewhere watching none (.block .empty besideDictionary) besideDictionary
      d.name := by
    rw [hname]
    exact not_knownElsewhere rfl (by decide)
  have hwarnings : (build watching none (.block .empty besideDictionary)).warnings = [] := by
    decide +kernel
  exact ⟨rfl, ⟨⟨0, index⟩, d, List.mem_of_getElem? (i := 0) rfl, hd, horphan, hknown⟩, hwarnings⟩

end Document

end WebIdl
