import WebIdl.Proofs.Dfn.Reference
import WebIdl.Proofs.Document.References
import WebIdl.Proofs.Document.UniqueIds

/-!
# References that repeat a term

A reference with the text and the container of a term should lead to a term. It does where the text
has one key in both.

* `TermIndex.IsFirst`, `TermIndex.exists_head?_matching` — the term that a key leads to is the first
  with a form that has the key.
* `Document.repeated_terms_linked_iff` — the texts that have one key, and where a reference leads that
  repeats such a text.
* `Document.not_repeated_terms_linked` — a method whose arguments are written out is not found again.
-/

namespace WebIdl

/-- The reference with the text and the container of a term. -/
def TermInput.reference (term : TermInput) : ReferenceInput := ⟨term.text, term.scope⟩

/-- What stands before an item in a list with positions are the items of the earlier positions. -/
theorem mem_before_of_zipIdx_eq {α : Type} {xs : List α} {before after : List (α × Nat)} {a b : α}
    {i j : Nat} (h : xs.zipIdx = before ++ (a, i) :: after) (hj : j < i) (hb : xs[j]? = some b) :
    (b, j) ∈ before := by
  have hitem : xs.zipIdx[before.length]? = some (a, i) := by rw [h]; simp
  have hlength : i = before.length := by
    rw [List.getElem?_zipIdx] at hitem
    obtain ⟨_, -, heq⟩ := Option.map_eq_some_iff.mp hitem
    simpa using (Prod.mk.inj heq).2.symm
  have hearlier : xs.zipIdx[j]? = some (b, j) := by
    rw [List.getElem?_zipIdx, hb, Option.map_some, Nat.zero_add]
  rw [h, List.getElem?_append_left (hlength ▸ hj)] at hearlier
  exact List.mem_of_getElem? hearlier

namespace TermIndex

/-- The term at a position is the first that has a form with the key. -/
structure IsFirst (terms : List TermInput) (key : Dfn.Key) (i : Nat) : Prop where
  has : ∃ term, terms[i]? = some term ∧ key ∈ term.keys
  first : ∀ j term, j < i → terms[j]? = some term → key ∉ term.keys

variable {terms : List TermInput} {key : Dfn.Key}

theorem head?_matching :
    ((ofTerms terms).matching key.scope key.name).head? =
      ((ofTerms terms).keys.find? (·.2 == key)).map (·.1) := by
  have hhead (found : List Nat) : found.eraseDups.head? = found.head? := by
    cases found with
    | nil => rfl
    | cons i found => rw [List.eraseDups_cons]; rfl
  rw [matching, select, hhead, List.head?_map, List.head?_filter]

/-- The keys of a term are found at its position. -/
theorem find?_keys_eq_some {term : TermInput} {i : Nat} {found : Nat × Dfn.Key}
    (h : ((term.text :: term.alternates).map fun text => (i, Dfn.termKey text term.scope)).find?
      (·.2 == key) = some found) :
    found.1 = i ∧ key ∈ term.keys := by
  have hkey : found.2 = key := by simpa using List.find?_some h
  obtain ⟨text, htext, rfl⟩ := List.mem_map.mp (List.mem_of_find?_eq_some h)
  exact ⟨rfl, List.mem_map.mpr ⟨text, htext, hkey⟩⟩

/-- A key that some term has leads to the first such term. -/
theorem exists_head?_matching (h : ∃ term ∈ terms, key ∈ term.keys) :
    ∃ i, ((ofTerms terms).matching key.scope key.name).head? = some i ∧ IsFirst terms key i := by
  obtain ⟨term, hterm, hkey⟩ := h
  obtain ⟨i, hi⟩ := List.mem_iff_getElem?.mp hterm
  have hmem : (i, key) ∈ (ofTerms terms).keys :=
    mem_keys_ofTerms.mpr ⟨term, List.mem_zipIdx_iff_getElem?.mpr hi, hkey⟩
  obtain ⟨found, hfound⟩ : ∃ found, (ofTerms terms).keys.find? (·.2 == key) = some found := by
    rw [← Option.isSome_iff_exists, List.find?_isSome]
    exact ⟨_, hmem, beq_self_eq_true key⟩
  refine ⟨found.1, by rw [head?_matching, hfound, Option.map_some], ?_⟩
  rw [ofTerms, List.find?_flatMap, List.findSome?_eq_some_iff] at hfound
  obtain ⟨before, ⟨first, j⟩, after, hterms, hfirst, hbefore⟩ := hfound
  obtain ⟨hposition, hhas⟩ := find?_keys_eq_some hfirst
  have hfirstAt : (first, j) ∈ terms.zipIdx := hterms ▸ List.mem_append_right _ List.mem_cons_self
  rw [hposition]
  refine ⟨⟨first, List.mem_zipIdx_iff_getElem?.mp hfirstAt, hhas⟩, ?_⟩
  intro k other hk hother hkeys
  -- an earlier term stands in the part where the key is not found
  have hnone := hbefore _ (mem_before_of_zipIdx_eq hterms hk hother)
  obtain ⟨text, htext, hkey'⟩ := List.mem_map.mp hkeys
  rw [List.find?_eq_none] at hnone
  exact hnone (k, key) (List.mem_map.mpr ⟨text, htext, by rw [hkey']⟩) (beq_self_eq_true key)

end TermIndex

namespace Document

section Built

variable (settings : Settings) (provider : Option Xref.Provider) (input : DocumentInput)

/-- A reference with a key that some term has leads to the first such term. -/
theorem link?_eq_of_mem_keys {key : Dfn.Key} (h : ∃ term ∈ input.terms, key ∈ term.keys) :
    ∃ i designation, TermIndex.IsFirst input.terms key i ∧
      (build settings provider input).terms[i]? = some designation ∧
      (resolver settings provider input).link? key =
        some ⟨.host, designation.href, designation.linkType⟩ := by
  obtain ⟨i, hhead, hfirst⟩ := TermIndex.exists_head?_matching h
  have hlength := length_designations_claims input
  obtain ⟨term, hterm, -⟩ := hfirst.has
  have hlt : i < (claims input).designations.length :=
    hlength ▸ (List.getElem?_eq_some_iff.mp hterm).1
  have hdesignation : (claims input).designations[i]? = some (claims input).designations[i] :=
    List.getElem?_eq_getElem hlt
  refine ⟨i, _, hfirst, hdesignation, ?_⟩
  have hhost : (resolver settings provider input).host? key.scope key.name =
      some ⟨.host, (claims input).designations[i].href, (claims input).designations[i].linkType⟩ := by
    have hindex : (resolver settings provider input).index = .ofTerms input.terms := rfl
    have hclaims : (resolver settings provider input).claims = claims input := rfl
    rw [Resolver.host?, hindex, hclaims, Target.ofTerms?, hhead]
    simp [hdesignation]
  rw [Resolver.link?, hhost]
  rfl

/-- **A text that is not in double braces has one key, as a reference and as a term, exactly when a
call at its end is empty and follows the name at once, and the name is not in quotes. A reference that
repeats such a text and the container of its term leads to a term, the first that has the key.** -/
theorem repeated_terms_linked_iff :
    (∀ text scope, ¬ Dfn.InBraces text →
      (Dfn.referenceKey text scope = Dfn.termKey text scope ↔ Dfn.ReadAlike text scope)) ∧
    ∀ term ∈ input.terms, ∀ i : Nat, input.references[i]? = some term.reference →
      ¬ Dfn.InBraces term.text → Dfn.ReadAlike term.text term.scope →
        ∃ j designation,
          TermIndex.IsFirst input.terms (Dfn.termKey term.text term.scope) j ∧
          (build settings provider input).terms[j]? = some designation ∧
          (build settings provider input).references[i]? = some
            { text := term.text, scope := term.scope,
              target := some ⟨.host, designation.href, designation.linkType⟩ } := by
  refine ⟨fun text scope hbraces => Dfn.referenceKey_eq_termKey hbraces, ?_⟩
  intro term hterm i hreference hbraces halike
  have hown : Dfn.termKey term.text term.scope ∈ term.keys := List.mem_cons_self
  obtain ⟨j, designation, hfirst, hdesignation, hlink⟩ :=
    link?_eq_of_mem_keys settings provider input ⟨term, hterm, hown⟩
  refine ⟨j, designation, hfirst, hdesignation, ?_⟩
  have hreferences : (build settings provider input).references =
      input.references.map (resolver settings provider input).linkReference := rfl
  have hkey : Dfn.referenceKey term.reference.text term.reference.scope =
      Dfn.termKey term.text term.scope :=
    (Dfn.referenceKey_eq_termKey hbraces).mpr halike
  rw [hreferences, List.getElem?_map, hreference, Option.map_some, Resolver.linkReference, hkey,
    hlink]
  rfl

end Built

/-! ### Methods as terms -/

/-- A term for a method, written with its arguments or without, and a reference that repeats it. -/
def calling (text : String) : DocumentInput :=
  let term := (TermInput.ofText text).forScope "Foo"
  .reference (.term .empty term) term.reference

/-- An empty call is found again. -/
theorem repeated_terms_linked_emptyCall :
    ¬ Dfn.InBraces "bar()" ∧ Dfn.ReadAlike "bar()" (some "Foo") ∧
      ∃ j designation,
        TermIndex.IsFirst (calling "bar()").terms (Dfn.termKey "bar()" (some "Foo")) j ∧
        (build silent none (calling "bar()")).terms[j]? = some designation ∧
        (build silent none (calling "bar()")).references[0]? = some
          { text := "bar()", scope := some "Foo",
            target := some ⟨.host, designation.href, designation.linkType⟩ } := by
  have hbraces : ¬ Dfn.InBraces "bar()" := by decide +kernel
  have halike : Dfn.ReadAlike "bar()" (some "Foo") := by decide +kernel
  exact ⟨hbraces, halike, (repeated_terms_linked_iff silent none (calling "bar()")).2
    _ List.mem_cons_self 0 rfl hbraces halike⟩

/-- A call with arguments is dropped from the term and kept in the reference, which leads nowhere. -/
theorem not_repeated_terms_linked :
    ¬ Dfn.InBraces "bar(x)" ∧
      Dfn.referenceKey "bar(x)" (some "Foo") ≠ Dfn.termKey "bar(x)" (some "Foo") ∧
      (build silent none (calling "bar(x)")).references = [⟨"bar(x)", some "Foo", none⟩] := by
  decide +kernel

end Document

end WebIdl
