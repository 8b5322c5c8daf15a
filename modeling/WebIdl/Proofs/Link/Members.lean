import WebIdl.Link.Prose
import WebIdl.Block
import WebIdl.Proofs.Anchor.Slug
import WebIdl.Proofs.Catalog.Fragments

/-!
# Where names of members lead

A name with a container leads to the first member of that name in the merged view of the container.
The link is made from the container that was asked for, while the id of the member is made from the
definition that the member is written in and from its number, so the two can differ.

* `Resolver.resolve?_member_iff` — the link leads to the id of the member itself exactly when the
  container that was asked for and the definition that the member is written in have the same slug,
  and the member is the first of its key.
* `Resolver.resolve?_mixin_member_ne` — the link to a member of an included mixin leads nowhere.
-/

namespace WebIdl.Resolver

variable {resolver : Resolver} {scope name : String}

theorem host?_of_matching_eq_nil (h : resolver.index.matching (some scope) name = []) :
    resolver.host? (some scope) name = none := by
  simp [host?, h, Target.ofTerms?]

/-- What is found for a member that no term of the host defines, by its name or in prose. -/
theorem resolve?_member {m : Member} (h : resolver.index.matching (some scope) name = [])
    (hm : resolver.catalog.member? scope name = some m) :
    let target : Target := ⟨.inside, "#" ++ Anchor.memberName scope name 0, m.kind.linkType⟩
    resolver.resolve? name .name (some scope) = some target ∧
      resolver.link? ⟨some scope, name⟩ = some target := by
  have hdeclared : resolver.declared? (some scope) name =
      some ⟨.inside, "#" ++ Anchor.memberName scope name 0, m.kind.linkType⟩ := by
    simp [declared?, hm]
  constructor
  · rw [resolve?, name?, host?_of_matching_eq_nil h, hdeclared]
    rfl
  · rw [link?, host?_of_matching_eq_nil h, referred?, hdeclared]
    rfl

/-- The link to a member leads to the id of the member exactly when the container that was asked for
has the slug of the definition that the member is written in, and the member has the number 0. -/
theorem resolve?_member_iff {blocks : List (List Definition)} {m : Member}
    (hcatalog : resolver.catalog = .ofBlocks blocks)
    (hterms : resolver.index.matching (some scope) name = [])
    (hm : resolver.catalog.member? scope name = some m) :
    ∃ place, (place, m) ∈ placedMembers blocks ∧ m.name? = some name ∧
      (Catalog.ofBlocks blocks).memberPlace? scope name = some (place, m) ∧
      ∃ target, resolver.resolve? name .name (some scope) = some target ∧
        (∀ reference : ReferenceInput,
          Dfn.referenceKey reference.text reference.scope = ⟨some scope, name⟩ →
          (resolver.linkReference reference).target = some target) ∧
        (target.href = "#" ++ Anchor.memberName m.scope name
            ((Anchor.Plan.ofBlocks blocks).overload place) ↔
          Anchor.slug m.scope = Anchor.slug scope ∧
            (Anchor.Plan.ofBlocks blocks).overload place = 0) := by
  obtain ⟨hresolve, hlink⟩ := resolve?_member hterms hm
  rw [hcatalog, Catalog.member?_eq] at hm
  obtain ⟨⟨place, m⟩, hplace, rfl⟩ := Option.map_eq_some_iff.mp hm
  refine ⟨place, Catalog.mem_placedMembers_of_memberPlace? hplace,
    Catalog.name?_of_memberPlace? hplace, hplace, _, hresolve, ?_, ?_⟩
  · rintro reference hkey
    rw [linkReference, hkey]
    exact hlink
  · rw [String.append_right_inj, Anchor.memberName_inj, Anchor.joined_left_inj, eq_comm,
      eq_comm (a := 0)]

/-! ### Documents without terms -/

/-- What the definitions of blocks are resolved with when the host has no terms. -/
def ofSources (sources : List String) : Resolver :=
  let blocks := sources.map fun source => (Block.parse source none).definitions
  { catalog := .ofBlocks blocks
    index := .ofTerms []
    claims := .build [] (.ofTerms []) blocks (.ofBlocks blocks)
    xref := .empty
    baseUrl := ""
    cite := [] }

/-- A partial definition before its base, with a member of the same name. -/
def earlyPartial : List String :=
  ["partial interface A { attribute long x; };", "interface A { attribute long x; };"]

/-- The member of the base comes first in the merged view and second in the document, so the link
leads to the member of the partial definition. -/
theorem resolve?_member_iff_earlyPartial :
    let blocks := earlyPartial.map fun source => (Block.parse source none).definitions
    (ofSources earlyPartial).index.matching (some "A") "x" = [] ∧
      ∃ m target, (ofSources earlyPartial).catalog.member? "A" "x" = some m ∧
        (⟨1, 0, 0⟩, m) ∈ placedMembers blocks ∧
        (ofSources earlyPartial).resolve? "x" .name (some "A") = some target ∧
        target.href ≠
          "#" ++ Anchor.memberName m.scope "x"
            ((Anchor.Plan.ofBlocks blocks).overload ⟨1, 0, 0⟩) := by
  intro blocks
  have hterms : (ofSources earlyPartial).index.matching (some "A") "x" = [] := by decide +kernel
  have hfound : ((ofSources earlyPartial).catalog.member? "A" "x").isSome = true := by
    decide +kernel
  have hplace : ((Catalog.ofBlocks (earlyPartial.map fun source =>
      (Block.parse source none).definitions)).memberPlace? "A" "x").map (·.1) = some ⟨1, 0, 0⟩ := by
    decide +kernel
  have hnumber : (Anchor.Plan.ofBlocks (earlyPartial.map fun source =>
      (Block.parse source none).definitions)).overload ⟨1, 0, 0⟩ = 1 := by
    decide +kernel
  obtain ⟨m, hm⟩ := Option.isSome_iff_exists.mp hfound
  obtain ⟨place, hmem, -, hmember, target, hresolve, -, hiff⟩ := resolve?_member_iff rfl hterms hm
  obtain rfl : place = ⟨1, 0, 0⟩ := by simpa [hmember] using hplace
  refine ⟨hterms, m, target, hm, hmem, hresolve, fun hhref => ?_⟩
  have hzero := (hiff.mp hhref).2
  rw [hnumber] at hzero
  cases hzero

/-- A mixin that an interface takes in. -/
def includedMixin : List String :=
  ["interface mixin M { attribute long x; };\ninterface I {};\nI includes M;"]

/-- The name of a member of an included mixin leads to an id made from the interface, while the id
of the member is made from the mixin. -/
theorem resolve?_mixin_member_ne :
    let blocks := includedMixin.map fun source => (Block.parse source none).definitions
    (ofSources includedMixin).index.matching (some "I") "x" = [] ∧
      ((Catalog.ofBlocks blocks).memberPlace? "I" "x").map (fun (place, m) =>
        "#" ++ Anchor.memberName m.scope "x" ((Anchor.Plan.ofBlocks blocks).overload place)) =
          some "#dom-m-x" ∧
      ((ofSources includedMixin).resolve? "x" .name (some "I")).map (·.href) =
        some "#dom-i-x" := by
  decide +kernel

end WebIdl.Resolver
