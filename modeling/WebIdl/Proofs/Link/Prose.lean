import Mathlib.Data.Option.Basic
import WebIdl.Link.Prose
import WebIdl.Proofs.Link.Types

/-!
# Where references without a container lead

A reference that names no container is tried against five sources, one after the other: terms,
definitions, terms in another case, builtin types and the answers to queries.

* `TermIndex.matchingIgnoringCase_eq_nil_iff` — no term is found for a name when no form of any term
  has it, in whatever case.
* `Resolver.link?_eq_none_iff` — a reference is left without a target exactly when all sources are
  without the name.
* `Resolver.link?_of_isInternal` — a target in the document is a term, or a whole definition that
  has exactly the name.
* `Resolver.link?_withXref_of_origin` — a target that is in no other document does not depend on the
  answers.
-/

namespace WebIdl

/-! ### Terms by their names -/

/-- A form of the term is the name outside of any container, without regard to case. -/
def TermInput.Names (term : TermInput) (name : String) : Prop :=
  ∃ key ∈ term.keys, key.scope = none ∧ Text.lower key.name = Text.lower name

namespace TermIndex

theorem select_eq_nil_iff {terms : List TermInput} {p : Dfn.Key → Bool} :
    (ofTerms terms).select p = [] ↔ ∀ term ∈ terms, ∀ key ∈ term.keys, p key = false := by
  have hselect : (ofTerms terms).select p = [] ↔
      ∀ entry ∈ (ofTerms terms).keys, p entry.2 = false := by
    unfold select
    simp only [List.eq_nil_iff_forall_not_mem, List.mem_eraseDups]
    simp
  rw [hselect]
  constructor
  · intro h term hterm key hkey
    obtain ⟨i, hi⟩ := List.mem_iff_getElem?.mp hterm
    exact h (i, key) (mem_keys_ofTerms.mpr ⟨term, List.mem_zipIdx_iff_getElem?.mpr hi, hkey⟩)
  · rintro h ⟨i, key⟩ hentry
    obtain ⟨term, hterm, hkey⟩ := mem_keys_ofTerms.mp hentry
    exact h term (List.fst_mem_of_mem_zipIdx hterm) key hkey

/-- No term is found for a name when no form of any term has it, in whatever case. -/
theorem matchingIgnoringCase_eq_nil_iff {terms : List TermInput} {name : String} :
    (ofTerms terms).matchingIgnoringCase none name = [] ↔
      ∀ term ∈ terms, ¬ term.Names name := by
  unfold matchingIgnoringCase
  rw [select_eq_nil_iff]
  constructor
  · rintro h term hterm ⟨key, hkey, hscope, hname⟩
    have hfalse := h term hterm key hkey
    simp [hscope, hname] at hfalse
  · intro h term hterm key hkey
    rw [← Bool.not_eq_true]
    intro hmatches
    obtain ⟨hscope, hname⟩ : key.scope = none ∧ Text.lower key.name = Text.lower name := by
      simpa using hmatches
    exact h term hterm ⟨key, hkey, hscope, hname⟩

/-- A term that has a name has it in whatever case. -/
theorem matching_eq_nil {terms : List TermInput} {name : String}
    (h : ∀ term ∈ terms, ¬ term.Names name) : (ofTerms terms).matching none name = [] := by
  unfold matching
  rw [select_eq_nil_iff]
  intro term hterm key hkey
  rw [← Bool.not_eq_true]
  intro hmatches
  obtain rfl : key = ⟨none, name⟩ := by simpa using hmatches
  exact h term hterm ⟨⟨none, name⟩, hkey, rfl, rfl⟩

end TermIndex

/-- The definition that a name leads to is a base definition of the document with exactly this
name. -/
theorem Catalog.exists_of_definition? {blocks : List (List Definition)} {name : String}
    {d : Definition} (h : (ofBlocks blocks).definition? name = some d) :
    ∃ p, (p, d) ∈ placed blocks ∧ d.isBase = true ∧ d.name = name := by
  obtain ⟨f, hf, rfl⟩ := Option.map_eq_some_iff.mp h
  obtain ⟨hbase, hname⟩ : f.definition.isBase = true ∧ f.name = name := by
    simpa using List.find?_some hf
  have hmem := List.mem_of_find?_eq_some hf
  rw [fragments_ofBlocks] at hmem
  obtain ⟨⟨p, d⟩, hd, rfl⟩ := List.mem_map.mp hmem
  exact ⟨p, hd, hbase, hname⟩

/-! ### References without a container -/

namespace Resolver

variable {resolver : Resolver} {name : String}

theorem link?_none (resolver : Resolver) (name : String) :
    resolver.link? ⟨none, name⟩ =
      (resolver.host? none name <|> resolver.referred? none name <|>
        resolver.hostIgnoringCase? none name <|> resolver.type? name) := rfl

theorem referred?_none (resolver : Resolver) (name : String) :
    resolver.referred? none name = (resolver.catalog.definition? name).map fun definition =>
      ⟨.inside, "#" ++ Anchor.definitionWrapper definition.name, definition.kind.linkType⟩ := rfl

/-- What is found for some of the terms is found for the first of them. -/
theorem ofTerms?_eq_none_iff {claims : Claims} {found : List Nat}
    (h : ∀ i ∈ found, i < claims.designations.length) :
    Target.ofTerms? claims found = none ↔ found = [] := by
  cases found with
  | nil => exact iff_of_true rfl rfl
  | cons i rest =>
    have hlt : i < claims.designations.length := h i List.mem_cons_self
    simp [Target.ofTerms?, List.getElem?_eq_getElem hlt]

theorem lt_of_mem_matchingIgnoringCase {terms : List TermInput} {i : Nat}
    (h : i ∈ (TermIndex.ofTerms terms).matchingIgnoringCase none name) : i < terms.length := by
  unfold TermIndex.matchingIgnoringCase TermIndex.select at h
  rw [List.mem_eraseDups] at h
  obtain ⟨⟨j, key⟩, hkey, rfl⟩ := List.mem_map.mp h
  obtain ⟨term, hterm, -⟩ := TermIndex.mem_keys_ofTerms.mp (List.mem_filter.mp hkey).1
  exact List.snd_lt_of_mem_zipIdx hterm

/-- A reference is left without a target exactly when no term has its name in whatever case, no
definition has exactly this name, and it is no type that is known otherwise. -/
theorem link?_eq_none_iff {terms : List TermInput} (hindex : resolver.index = .ofTerms terms)
    (hlength : resolver.claims.designations.length = terms.length) :
    resolver.link? ⟨none, name⟩ = none ↔
      (∀ term ∈ terms, ¬ term.Names name) ∧ resolver.catalog.definition? name = none ∧
        Vocabulary.typeAnchor? name = none ∧ resolver.external? name = none := by
  have hignoring : resolver.hostIgnoringCase? none name = none ↔
      ∀ term ∈ terms, ¬ term.Names name := by
    unfold hostIgnoringCase?
    rw [hindex, ofTerms?_eq_none_iff, TermIndex.matchingIgnoringCase_eq_nil_iff]
    intro i hi
    rw [hlength]
    exact lt_of_mem_matchingIgnoringCase hi
  have hhost (h : ∀ term ∈ terms, ¬ term.Names name) : resolver.host? none name = none :=
    (host?_eq_none_iff hindex hlength).mpr (TermIndex.matching_eq_nil h)
  rw [link?_none, referred?_none, type?, localType?, declared?_none, builtin?]
  simp only [Option.orElse_eq_none, Option.map_eq_none_iff, hignoring]
  constructor
  · rintro ⟨-, hdefinition, hterms, ⟨-, -, hbuiltin⟩, hexternal⟩
    exact ⟨hterms, hdefinition, hbuiltin, hexternal⟩
  · rintro ⟨hterms, hdefinition, hbuiltin, hexternal⟩
    exact ⟨hhost hterms, hdefinition, hterms, ⟨hhost hterms, hdefinition, hbuiltin⟩, hexternal⟩

/-- A name that no term, no definition and no builtin type has is left for a lookup to resolve. -/
theorem needsLookup_of_unnamed {terms : List TermInput} (hindex : resolver.index = .ofTerms terms)
    (hlength : resolver.claims.designations.length = terms.length)
    (hterms : ∀ term ∈ terms, ¬ term.Names name)
    (hdefinition : resolver.catalog.definition? name = none)
    (hbuiltin : Vocabulary.typeAnchor? name = none) : resolver.needsLookup name = true := by
  have hhost : resolver.host? none name = none :=
    (host?_eq_none_iff hindex hlength).mpr (TermIndex.matching_eq_nil hterms)
  simp [needsLookup, localType?, hhost, declared?_none, hdefinition, builtin?, hbuiltin]

/-- A reference leads into the document through a term, or through a definition that has exactly its
name. -/
theorem link?_of_isInternal {target : Target} (h : resolver.link? ⟨none, name⟩ = some target)
    (hinternal : target.isInternal = true) :
    (∃ designation ∈ resolver.claims.designations,
        target = ⟨.host, designation.href, designation.linkType⟩) ∨
      ∃ d, resolver.catalog.definition? name = some d ∧
        target = ⟨.inside, "#" ++ Anchor.definitionWrapper d.name, d.kind.linkType⟩ := by
  rw [link?_none] at h
  cases hhost : resolver.host? none name with
  | some t =>
    rw [hhost] at h
    obtain rfl := Option.some.inj h
    exact .inl (Target.exists_of_ofTerms? hhost)
  | none =>
    cases hreferred : resolver.referred? none name with
    | some t =>
      rw [hhost, hreferred] at h
      obtain rfl := Option.some.inj h
      obtain ⟨d, hd, rfl⟩ := Option.map_eq_some_iff.mp hreferred
      exact .inr ⟨d, hd, rfl⟩
    | none =>
      cases hignoring : resolver.hostIgnoringCase? none name with
      | some t =>
        rw [hhost, hreferred, hignoring] at h
        obtain rfl := Option.some.inj h
        exact .inl (Target.exists_of_ofTerms? hignoring)
      | none =>
        -- a type would have to be a term or a definition of this name, which there is not
        rw [hhost, hreferred, hignoring] at h
        rcases type?_of_isInternal h hinternal with hterm | ⟨-, hdeclared⟩
        · rw [hhost] at hterm
          cases hterm
        · obtain ⟨d, hd, -⟩ := Option.map_eq_some_iff.mp hdeclared
          rw [referred?_none, hd] at hreferred
          cases hreferred

/-- A reference that leads to no other document leads there whatever the answers to queries are. -/
theorem link?_withXref_of_origin (resolver : Resolver) {table : Xref.Table} {key : Dfn.Key} {target : Target}
    (h : resolver.link? key = some target) (horigin : target.origin ≠ .external) :
    ({ resolver with xref := table } : Resolver).link? key = some target := by
  unfold link? at h ⊢
  simp only [Option.orElse_eq_orElse, Option.orElse_eq_or, Option.or_eq_some_iff] at h ⊢
  rcases h with hhost | ⟨hhost, hreferred | ⟨hreferred, hignoring | ⟨hignoring, htype⟩⟩⟩
  · exact .inl hhost
  · exact .inr ⟨hhost, .inl hreferred⟩
  · exact .inr ⟨hhost, .inr ⟨hreferred, .inl hignoring⟩⟩
  · refine .inr ⟨hhost, .inr ⟨hreferred, .inr ⟨hignoring, ?_⟩⟩⟩
    cases hscope : key.scope with
    | some scope =>
      rw [hscope] at htype
      cases htype
    | none =>
      rw [hscope] at htype
      exact type?_withXref_of_origin htype horigin

end Resolver

end WebIdl
