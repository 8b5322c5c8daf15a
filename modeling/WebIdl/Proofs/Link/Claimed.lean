import WebIdl.Block
import WebIdl.Proofs.Dfn.Greedy
import WebIdl.Proofs.Link.Prose

/-!
# Where names that have taken a term lead

The name of a definition or a member shows the term that it has taken, and references to the name
lead to the first term of that name, whatever has taken that one. A term of several names is taken
for one of them only, so the two can differ.

* `Dfn.head_matching_claimed` — the first term of a name is the one that is taken, unless something
  before has taken it.
* `Resolver.resolve?_claimed_iff` — a reference leads to the term that the name has taken exactly
  when the first term of the name was not taken for another name, or has the same id.
* `Resolver.resolve?_alternate_ne` — the reference to a name whose first term was taken for another.
-/

namespace WebIdl

namespace Dfn

variable {index : TermIndex} {blocks : List (List Definition)}

/-- The first term of a name is the one that the subject takes, unless a subject before it has taken
that term. -/
theorem head_matching_claimed {before after : List Subject} {s : Subject} {c : Claim}
    (hsubjects : subjects blocks = before ++ s :: after) (hc : c ∈ claim index [] (subjects blocks))
    (hplace : c.subject.place = s.place) :
    ∃ first, (index.matching s.key.scope s.key.name).head? = some first ∧
      (first = c.term ∨ ∃ c' ∈ claim index [] before, c'.term = first) := by
  have hterm : ((claim index [] (subjects blocks)).find? (·.subject.place == s.place)).map
      (·.term) = _ :=
    find?_claim_place hsubjects
  rw [← hplace, find?_eq_some_of_nodup (nodup_claim_place []) hc fun b => beq_iff_eq,
    Option.map_some] at hterm
  cases hmatching : index.matching s.key.scope s.key.name with
  | nil =>
    rw [hmatching] at hterm
    cases hterm
  | cons first rest =>
    refine ⟨first, rfl, ?_⟩
    rw [hmatching, List.find?_cons] at hterm
    cases hfree : !(claim index [] before).any (·.term == first) with
    | true =>
      rw [hfree] at hterm
      exact .inl (Option.some.inj hterm).symm
    | false => exact .inr (by simpa using hfree)

/-- How references to the name of a subject are resolved. -/
def Subject.referenceKind : Subject → ReferenceKind
  | .definition .. => .type
  | .member .. => .name

end Dfn

/-! ### Resolving -/

namespace Resolver

open Dfn

variable {terms : List TermInput} {blocks : List (List Definition)} {resolver : Resolver}
  {key : Key} {s : Subject}

/-- The terms of the host come before everything else. -/
theorem resolve?_of_host? {target : Target}
    (h : resolver.host? s.key.scope s.key.name = some target) :
    resolver.resolve? s.key.name s.referenceKind s.key.scope = some target := by
  cases s with
  | definition place d =>
    have hhost : resolver.host? none d.name = some target := h
    show resolver.type? d.name = some target
    rw [type?, localType?, hhost]
    rfl
  | member place owner m name type =>
    have hhost : resolver.host? (some m.scope) name = some target := h
    show resolver.name? name (some m.scope) = some target
    rw [name?, hhost]
    rfl

/-- The first term of a name has been taken for another name, and it has another id than `id`. -/
def Diverted (resolver : Resolver) (key : Key) (id : String) : Prop :=
  ∃ c ∈ resolver.claims.claims, c.subject.key ≠ key ∧
    (resolver.index.matching key.scope key.name).head? = some c.term ∧
    ∃ other, resolver.claims.at? c.subject.place = some other ∧ other.id ≠ id

section Claimed

variable (hindex : resolver.index = .ofTerms terms)
  (hclaims : resolver.claims = .build terms (.ofTerms terms) blocks (.ofBlocks blocks))

include hclaims

theorem exists_at?_of_mem {c : Claim} (hc : c ∈ resolver.claims.claims) :
    ∃ designation, resolver.claims.at? c.subject.place = some designation ∧
      resolver.claims.designations[c.term]? = some designation := by
  rw [hclaims] at hc ⊢
  have hterm : c.term < terms.length :=
    TermIndex.lt_of_mem_matching (mem_matching_of_mem_claim hc)
  have hdesignation := Claims.designations_build_getElem? hc
  rw [List.getElem?_eq_getElem hterm, Option.map_some] at hdesignation
  exact ⟨_, (Claims.at?_of_mem hc).trans hdesignation, hdesignation⟩

/-- A name whose first term has been taken leads to what is shown where it has been taken. -/
theorem resolve?_of_head {c : Claim} (hc : c ∈ resolver.claims.claims)
    (hkey : s.key = key) (hhead : (resolver.index.matching key.scope key.name).head? = some c.term) :
    ∃ designation, resolver.claims.at? c.subject.place = some designation ∧
      resolver.resolve? key.name s.referenceKind key.scope =
        some ⟨.host, designation.href, designation.linkType⟩ := by
  subst hkey
  obtain ⟨designation, hat, hdesignation⟩ := exists_at?_of_mem hclaims hc
  refine ⟨designation, hat, resolve?_of_host? ?_⟩
  rw [host?, Target.ofTerms?, hhead]
  simp [hdesignation]

include hindex

/-- The first term of a name has been taken where the name first has a claim, or for another
name. -/
theorem exists_claim_of_head {designation : Designation}
    (hfirst : (subjects blocks).find? (fun s' =>
      s'.key == key && (resolver.claims.at? s'.place).isSome) = some s)
    (hclaimed : resolver.claims.at? s.place = some designation) :
    ∃ c ∈ resolver.claims.claims,
      (resolver.index.matching key.scope key.name).head? = some c.term ∧
        (c.subject.place = s.place ∨ c.subject.key ≠ key) := by
  obtain ⟨hkey, before, after, hsubjects, hbefore⟩ := List.find?_eq_some_iff_append.mp hfirst
  obtain ⟨rfl, -⟩ : s.key = key ∧ (resolver.claims.at? s.place).isSome = true := by
    simpa using hkey
  have hall : resolver.claims.claims = claim resolver.index [] (subjects blocks) := by
    rw [hclaims, hindex]
    rfl
  obtain ⟨c, hfind, -⟩ := Option.bind_eq_some_iff.mp hclaimed
  have hc : c ∈ claim resolver.index [] (subjects blocks) := by
    rw [← hall]
    exact List.mem_of_find?_eq_some hfind
  have hplace : c.subject.place = s.place := by simpa using List.find?_some hfind
  obtain ⟨first, hhead, rfl | ⟨c', hc', rfl⟩⟩ := head_matching_claimed hsubjects hc hplace
  · exact ⟨c, hall ▸ hc, hhead, .inl hplace⟩
  · have hmem : c' ∈ resolver.claims.claims := by
      obtain ⟨later, happend, -⟩ := exists_claim_append resolver.index [] before (s :: after)
      rw [hall, hsubjects, happend]
      exact List.mem_append_left _ hc'
    refine ⟨c', hmem, hhead, .inr ?_⟩
    -- nothing before the subject has a claim under the same name
    intro hsame
    obtain ⟨other, hat, -⟩ := exists_at?_of_mem hclaims hmem
    have hnot := hbefore c'.subject (subject_mem_of_mem_claim hc')
    simp [hsame, hat] at hnot

/-- Where the terms of a name have no other names, none of them is taken for another. -/
theorem not_diverted (id : String)
    (honly : ∀ term ∈ terms, key ∈ term.keys → ∀ other ∈ term.keys, other = key) :
    ¬ resolver.Diverted key id := by
  rintro ⟨c, hc, hkey, hhead, -⟩
  have hmatching := List.mem_of_mem_head? hhead
  rw [hindex] at hmatching
  obtain ⟨term, hterm, hname⟩ := TermIndex.mem_matching_iff.mp hmatching
  rw [hclaims] at hc
  obtain ⟨term', hterm', hname'⟩ := TermIndex.mem_matching_iff.mp (mem_matching_of_mem_claim hc)
  have hsame : term' = term := by
    rw [List.mem_zipIdx_iff_getElem?] at hterm hterm'
    exact Option.some.inj (hterm'.symm.trans hterm)
  rw [hsame] at hname'
  exact hkey (honly term (List.fst_mem_of_mem_zipIdx hterm) hname _ hname')

/-- **The first subject of a name that has taken a term shows that term, and the name leads to a
term of the host. The two are in the same place exactly when the first term of the name has not been
taken for another name and given another id, and always where the terms of the name have no other
names.** -/
theorem resolve?_claimed_iff
    (hfirst : (subjects blocks).find? (fun s' =>
      s'.key == key && (resolver.claims.at? s'.place).isSome) = some s) :
    ∃ designation target, resolver.claims.at? s.place = some designation ∧
      resolver.resolve? key.name s.referenceKind key.scope = some target ∧
      target.origin = .host ∧
      (target.href = designation.href ↔ ¬ resolver.Diverted key designation.id) ∧
      ((∀ term ∈ terms, key ∈ term.keys → ∀ other ∈ term.keys, other = key) →
        target.href = designation.href) := by
  obtain ⟨hkey, designation, hdesignation⟩ : s.key = key ∧ ∃ designation,
      resolver.claims.at? s.place = some designation := by
    simpa [Option.isSome_iff_exists] using List.find?_some hfirst
  obtain ⟨c, hc, hhead, hwhere⟩ := exists_claim_of_head hindex hclaims hfirst hdesignation
  obtain ⟨shown, hshown, hresolve⟩ := resolve?_of_head hclaims hc hkey hhead
  have hiff : shown.href = designation.href ↔ ¬ resolver.Diverted key designation.id := by
    rw [Designation.href, Designation.href, String.append_right_inj]
    constructor
    · rintro hid ⟨c', hc', -, hhead', other, hother, hne⟩
      -- both claims are of the first term
      obtain ⟨shown', hshown', hresolve'⟩ := resolve?_of_head hclaims hc' hkey hhead'
      obtain rfl := Option.some.inj (hother.symm.trans hshown')
      have hhref := (Target.mk.inj (Option.some.inj (hresolve.symm.trans hresolve'))).2.1
      rw [Designation.href, Designation.href, String.append_right_inj, hid] at hhref
      exact hne hhref.symm
    · intro hnot
      rcases hwhere with hplace | hother
      · rw [hplace, hdesignation] at hshown
        rw [Option.some.inj hshown]
      · by_contra hne
        exact hnot ⟨c, hc, hother, hhead, shown, hshown, hne⟩
  refine ⟨designation, _, hdesignation, hresolve, rfl, hiff, ?_⟩
  intro honly
  exact hiff.mpr (not_diverted hindex hclaims designation.id honly)

end Claimed

/-! ### Terms of several names -/

/-- What the definitions of blocks are resolved with when the host has these terms. -/
def ofTermsAndSources (terms : List TermInput) (sources : List String) : Resolver :=
  let blocks := sources.map fun source => (Block.parse source none).definitions
  { catalog := .ofBlocks blocks
    index := .ofTerms terms
    claims := .build terms (.ofTerms terms) blocks (.ofBlocks blocks)
    xref := .empty
    baseUrl := ""
    cite := [] }

/-- Two terms, one for each overload of an operation. -/
def overloadTerms : List TermInput :=
  [(TermInput.ofText "f()").forScope "A", (TermInput.ofText "f(x)").forScope "A"]

def overloadSources : List String := ["interface A { undefined f(); undefined f(long x); };"]

/-- References to the operation lead to the term that its first overload has taken. -/
theorem resolve?_claimed_iff_overload :
    let resolver := ofTermsAndSources overloadTerms overloadSources
    let blocks := overloadSources.map fun source => (Block.parse source none).definitions
    ∃ s designation target,
      (subjects blocks).find? (fun s' =>
        s'.key == ⟨some "A", "f"⟩ && (resolver.claims.at? s'.place).isSome) = some s ∧
      s.place = .member ⟨0, 0, 0⟩ ∧ resolver.claims.at? s.place = some designation ∧
      resolver.resolve? "f" s.referenceKind (some "A") = some target ∧ target.origin = .host ∧
      target.href = designation.href := by
  intro resolver blocks
  have hplace : ((subjects blocks).find? (fun s' =>
      s'.key == ⟨some "A", "f"⟩ && (resolver.claims.at? s'.place).isSome)).map (·.place) =
        some (.member ⟨0, 0, 0⟩) := by
    decide +kernel
  have honly : ∀ term ∈ overloadTerms, ⟨some "A", "f"⟩ ∈ term.keys →
      ∀ other ∈ term.keys, other = ⟨some "A", "f"⟩ := by
    decide +kernel
  obtain ⟨s, hfirst, hs⟩ := Option.map_eq_some_iff.mp hplace
  obtain ⟨designation, target, hdesignation, hresolve, horigin, -, hsame⟩ :=
    @resolve?_claimed_iff overloadTerms blocks resolver _ s rfl rfl hfirst
  exact ⟨s, designation, target, hfirst, hs, hdesignation, hresolve, horigin, hsame honly⟩

/-- Two terms, of which the first has the name of the second for another name. -/
def sharedTerms : List TermInput :=
  [(TermInput.ofText "A").withAlternate "B", TermInput.ofText "B"]

def sharedSources : List String := ["interface A {};\ninterface B {};"]

/-- The second interface has taken the second term, and the references to it lead to the first, which
the first interface has taken. -/
theorem resolve?_alternate_ne :
    let resolver := ofTermsAndSources sharedTerms sharedSources
    let blocks := sharedSources.map fun source => (Block.parse source none).definitions
    ((placed blocks).find? fun (_, d) => d.isBase && d.name == "B").map (·.1) = some ⟨0, 1⟩ ∧
      (resolver.claims.definition? ⟨0, 1⟩).map (·.href) = some "#dom-b" ∧
      (resolver.resolve? "B" .type none).map (·.href) = some "#dom-a" := by
  decide +kernel

end Resolver

end WebIdl
