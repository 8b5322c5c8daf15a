import WebIdl.Link.Target
import WebIdl.Proofs.Catalog.Fragments
import WebIdl.Proofs.Dfn.Term

/-!
# Where names of types lead

A name that is resolved as a type leads into the document for one of two reasons.

* `Resolver.type?_of_isInternal` — a term of the host defines the name, or, where none does, a base
  definition of the document has exactly this name.
* `Resolver.type?_withXref` — the answer to the query for a name matters only where nothing but a
  lookup resolves the name, and the answers to other queries never do.
* `Resolver.type?_withXref_of_origin` — they do not matter either for a name that leads to no other
  document.
* `Resolver.host?_eq_none_iff` — the host defines a name exactly when a term matches it.
* `Catalog.isSome_definition?_iff` — which names the definitions of a document have.
-/

namespace WebIdl

/-! ### Terms and definitions -/

/-- A name is that of a definition if a base definition of the document has it. -/
theorem Catalog.isSome_definition?_iff {blocks : List (List Definition)} {name : String} :
    ((ofBlocks blocks).definition? name).isSome = true ↔
      ∃ p d, (p, d) ∈ placed blocks ∧ d.isBase = true ∧ d.name = name := by
  unfold definition? base?
  rw [Option.isSome_map, List.find?_isSome, fragments_ofBlocks]
  constructor
  · rintro ⟨f, hf, hname⟩
    obtain ⟨⟨p, d⟩, hd, rfl⟩ := List.mem_map.mp hf
    obtain ⟨hbase, hname⟩ : d.isBase = true ∧ d.name = name := by
      simpa [Fragment.name] using hname
    exact ⟨p, d, hd, hbase, hname⟩
  · rintro ⟨p, d, hd, hbase, rfl⟩
    exact ⟨_, List.mem_map.mpr ⟨_, hd, rfl⟩, by simp [Fragment.name, hbase]⟩

namespace Target

/-- The target of a term says where the host was told that the term is. -/
theorem exists_of_ofTerms? {claims : Claims} {terms : List Nat} {target : Target}
    (h : ofTerms? claims terms = some target) :
    ∃ designation ∈ claims.designations, target = ⟨.host, designation.href, designation.linkType⟩ := by
  obtain ⟨i, -, h⟩ := Option.bind_eq_some_iff.mp h
  obtain ⟨designation, hdesignation, h⟩ := Option.bind_eq_some_iff.mp h
  exact ⟨designation, List.mem_of_getElem? hdesignation, (Option.some.inj h).symm⟩

end Target

/-! ### Resolving -/

namespace Resolver

variable {resolver : Resolver} {name : String}

/-- The host defines a name exactly when a term matches it. -/
theorem host?_eq_none_iff {terms : List TermInput} (hindex : resolver.index = .ofTerms terms)
    (hlength : resolver.claims.designations.length = terms.length) {scope : Option String} :
    resolver.host? scope name = none ↔ (TermIndex.ofTerms terms).matching scope name = [] := by
  unfold host? Target.ofTerms?
  rw [hindex]
  constructor
  · intro h
    cases hmatching : (TermIndex.ofTerms terms).matching scope name with
    | nil => rfl
    | cons i rest =>
      have hlt : i < resolver.claims.designations.length := by
        rw [hlength]
        exact TermIndex.lt_of_mem_matching (hmatching ▸ List.mem_cons_self)
      simp [hmatching, List.getElem?_eq_getElem hlt] at h
  · intro h
    rw [h]
    rfl

theorem declared?_none (resolver : Resolver) (name : String) :
    resolver.declared? none name = (resolver.catalog.definition? name).map fun definition =>
      ⟨.inside, "#" ++ Anchor.definitionName name, definition.kind.linkType⟩ := rfl

theorem isInternal_builtin? {target : Target} (h : resolver.builtin? name = some target) :
    target.isInternal = false := by
  obtain ⟨anchor, -, rfl⟩ := Option.map_eq_some_iff.mp h
  rfl

theorem isInternal_external? {target : Target} (h : resolver.external? name = some target) :
    target.isInternal = false := by
  obtain ⟨entry, -, rfl⟩ := Option.map_eq_some_iff.mp h
  rfl

/-- A type leads into the document through a term of the host, or, where none matches, through a
definition. -/
theorem type?_of_isInternal {target : Target} (h : resolver.type? name = some target)
    (hinternal : target.isInternal = true) :
    resolver.host? none name = some target ∨
      resolver.host? none name = none ∧ resolver.declared? none name = some target := by
  unfold type? localType? at h
  cases hhost : resolver.host? none name with
  | some t =>
    rw [hhost] at h
    exact .inl h
  | none =>
    right
    refine ⟨rfl, ?_⟩
    cases hdeclared : resolver.declared? none name with
    | some t =>
      rw [hhost, hdeclared] at h
      exact h
    | none =>
      -- what is left leads out of the document
      rw [hhost, hdeclared] at h
      cases hbuiltin : resolver.builtin? name with
      | some t =>
        rw [hbuiltin] at h
        obtain rfl := Option.some.inj h
        rw [isInternal_builtin? hbuiltin] at hinternal
        cases hinternal
      | none =>
        rw [hbuiltin] at h
        rw [isInternal_external? h] at hinternal
        cases hinternal

theorem type?_of_declared? {target : Target} (hhost : resolver.host? none name = none)
    (h : resolver.declared? none name = some target) : resolver.type? name = some target := by
  unfold type? localType?
  rw [hhost, h]
  rfl

/-- What a type resolves to depends on the answers to queries only where nothing but a lookup
resolves the type, and on the answer to its query only. -/
theorem type?_withXref {table : Xref.Table}
    (h : resolver.needsLookup name = true →
      table.get? ⟨name, .type, resolver.cite⟩ = resolver.xref.get? ⟨name, .type, resolver.cite⟩) :
    ({ resolver with xref := table } : Resolver).type? name = resolver.type? name := by
  have hlocal : ({ resolver with xref := table } : Resolver).localType? name =
      resolver.localType? name := rfl
  rw [type?, type?, hlocal]
  cases hname : resolver.localType? name with
  | some target => rfl
  | none =>
    have hget := h (by rw [needsLookup, hname]; rfl)
    rw [external?, external?, hget]

theorem origin_external? {target : Target} (h : resolver.external? name = some target) :
    target.origin = .external := by
  obtain ⟨entry, -, rfl⟩ := Option.map_eq_some_iff.mp h
  rfl

/-- A type that leads to no other document leads there whatever the answers to queries are. -/
theorem type?_withXref_of_origin {table : Xref.Table} {target : Target}
    (h : resolver.type? name = some target) (horigin : target.origin ≠ .external) :
    ({ resolver with xref := table } : Resolver).type? name = some target := by
  rw [← h]
  apply type?_withXref
  intro hneeds
  have hlocal : resolver.localType? name = none := Option.isNone_iff_eq_none.mp hneeds
  rw [type?, hlocal] at h
  exact absurd (origin_external? h) horigin

end Resolver

end WebIdl
