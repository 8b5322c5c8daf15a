import WebIdl.Dfn.Claim
import WebIdl.Proofs.Anchor.Order

/-!
# What takes a term

Every subject takes one term at most and every term is taken once at most. So what the host is told
about a term and what a place shows for its name come from one and the same claim.

* `Dfn.mem_subjectsOf` — what can take a term.
* `Dfn.pairwise_subjects` — they are listed in document order.
* `Dfn.nodup_claim_term`, `Dfn.nodup_claim_place` — claims share neither terms nor places.
* `Claims.exists_subject_of_at?` — what a name shows is the designation of a term that the subject
  there has taken.
* `Claims.mem_designations_build` — the host is told what a name shows for the term that was taken
  there, or that nothing has taken the term.
-/

namespace WebIdl

/-- An item is found by what no other item has. -/
theorem find?_eq_some_of_nodup {α β : Type} {f : α → β} {items : List α}
    (h : (items.map f).Nodup) {a : α} (ha : a ∈ items) {p : α → Bool}
    (hp : ∀ b, p b = true ↔ f b = f a) : items.find? p = some a := by
  refine find?_eq_some_of_pairwise (List.pairwise_map.mp h) ha ((hp a).mpr rfl) ?_
  intro b _ hne
  exact Bool.eq_false_iff.mpr fun hpb => hne ((hp b).mp hpb)

namespace Dfn

/-- Where a name stands that can take a term. -/
inductive NamePlace where
  | definition (place : Place)
  | member (place : MemberPlace)
deriving DecidableEq, Repr

/-- The place of the definition that a name belongs to. -/
def NamePlace.owner : NamePlace → Place
  | .definition place => place
  | .member place => ⟨place.block, place.definition⟩

/-! ### Subjects -/

def Subject.place : Subject → NamePlace
  | .definition place _ => .definition place
  | .member place .. => .member place

variable {blocks : List (List Definition)}

/-- The subjects of one definition: its own name, and those of its members. -/
def subjectsOf (entry : Place × Definition) : List Subject :=
  (if entry.2.isBase then [.definition entry.1 entry.2] else []) ++
    entry.2.members.zipIdx.filterMap fun (m, index) => do
      return .member (entry.1.member index) entry.2 m (← m.name?) (← DfnType.ofMember? m.kind)

theorem mem_subjectsOf {entry : Place × Definition} {subject : Subject} :
    subject ∈ subjectsOf entry ↔
      (entry.2.isBase = true ∧ subject = .definition entry.1 entry.2) ∨
      ∃ m index name type, (m, index) ∈ entry.2.members.zipIdx ∧ m.name? = some name ∧
        DfnType.ofMember? m.kind = some type ∧
        subject = .member (entry.1.member index) entry.2 m name type := by
  unfold subjectsOf
  rw [List.mem_append, List.mem_filterMap]
  refine or_congr ?_ ?_
  · cases entry.2.isBase <;> simp
  · constructor
    · rintro ⟨⟨m, index⟩, hm, hsubject⟩
      obtain ⟨name, hname, hsubject⟩ := Option.bind_eq_some_iff.mp hsubject
      obtain ⟨type, htype, hsubject⟩ := Option.bind_eq_some_iff.mp hsubject
      exact ⟨m, index, name, type, hm, hname, htype, (Option.some.inj hsubject).symm⟩
    · rintro ⟨m, index, name, type, hm, hname, htype, rfl⟩
      exact ⟨(m, index), hm, by simp [hname, htype]⟩

theorem mem_subjects {subject : Subject} :
    subject ∈ subjects blocks ↔ ∃ entry ∈ placed blocks, subject ∈ subjectsOf entry :=
  List.mem_flatMap

theorem owner_of_mem {entry : Place × Definition} {subject : Subject}
    (h : subject ∈ subjectsOf entry) : subject.place.owner = entry.1 := by
  rcases mem_subjectsOf.mp h with ⟨-, rfl⟩ | ⟨m, index, name, type, -, -, -, rfl⟩
  · rfl
  · rfl

/-- The path of a name is that of the definition or the member that has it. -/
def NamePlace.path : NamePlace → List Nat
  | .definition place => place.path
  | .member place => place.path

/-- What belongs to an earlier definition stands before what belongs to a later one. -/
theorem NamePlace.path_lt_of_owner {p q : NamePlace} (h : p.owner.path < q.owner.path) :
    p.path < q.path := by
  cases p with
  | definition p =>
    cases q with
    | definition q => exact Place.path_append_lt h [] []
    | member q => exact Place.path_append_lt h [] [q.member]
  | member p =>
    cases q with
    | definition q => exact Place.path_append_lt h [p.member] []
    | member q => exact Place.path_append_lt h [p.member] [q.member]

/-- The subjects of a definition are in document order, its own name before those of its members. -/
theorem pairwise_subjectsOf (entry : Place × Definition) :
    (subjectsOf entry).Pairwise fun s t => s.place.path < t.place.path := by
  unfold subjectsOf
  rw [List.pairwise_append, List.pairwise_filterMap]
  refine ⟨?_, (pairwise_zipIdx_snd entry.2.members).imp ?_, ?_⟩
  · split
    · exact List.pairwise_singleton _ _
    · exact .nil
  · intro x y hlt s hs t ht
    obtain ⟨name, -, hs⟩ := Option.bind_eq_some_iff.mp hs
    obtain ⟨type, -, hs⟩ := Option.bind_eq_some_iff.mp hs
    obtain ⟨name', -, ht⟩ := Option.bind_eq_some_iff.mp ht
    obtain ⟨type', -, ht⟩ := Option.bind_eq_some_iff.mp ht
    cases hs
    cases ht
    exact MemberPlace.path_member_lt_iff.mpr (.inr ⟨rfl, hlt⟩)
  · intro s hs t ht
    obtain ⟨⟨m, i⟩, -, ht⟩ := List.mem_filterMap.mp ht
    obtain ⟨name, -, ht⟩ := Option.bind_eq_some_iff.mp ht
    obtain ⟨type, -, ht⟩ := Option.bind_eq_some_iff.mp ht
    cases ht
    split at hs
    · cases List.mem_singleton.mp hs
      simp [Subject.place, NamePlace.path, Place.path, MemberPlace.path, Place.member]
    · cases hs

/-- The subjects of a document are in document order. -/
theorem pairwise_subjects (blocks : List (List Definition)) :
    (subjects blocks).Pairwise fun s t => s.place.path < t.place.path := by
  have hsubjects : subjects blocks = (placed blocks).flatMap subjectsOf := rfl
  rw [hsubjects, List.pairwise_flatMap]
  refine ⟨fun entry _ => pairwise_subjectsOf entry, (pairwise_placed blocks).imp ?_⟩
  intro entry other hlt s hs t ht
  rw [← owner_of_mem hs, ← owner_of_mem ht] at hlt
  exact NamePlace.path_lt_of_owner hlt

/-- No two subjects stand in one place. -/
theorem nodup_subjects_place : ((subjects blocks).map Subject.place).Nodup := by
  rw [List.Nodup, List.pairwise_map]
  refine (pairwise_subjects blocks).imp ?_
  intro s t hlt hsame
  rw [hsame] at hlt
  exact List.lt_irrefl _ hlt

/-! ### Claims -/

variable {index : TermIndex}

theorem claim_sublist (index : TermIndex) (taken : List Nat) (subjects : List Subject) :
    ((claim index taken subjects).map (·.subject)).Sublist subjects := by
  induction subjects generalizing taken with
  | nil => exact .slnil
  | cons subject subjects ih =>
    unfold claim
    split
    · exact (ih _).cons_cons subject
    · exact (ih _).cons subject

/-- No term is taken twice, and none that was taken before. -/
theorem nodup_claim_term (taken : List Nat) (subjects : List Subject) :
    ((claim index taken subjects).map (·.term)).Nodup ∧
      ∀ c ∈ claim index taken subjects, c.term ∉ taken := by
  induction subjects generalizing taken with
  | nil => exact ⟨.nil, fun c hc => nomatch hc⟩
  | cons subject subjects ih =>
    unfold claim
    split
    · rename_i term hterm
      have hfree : term ∉ taken := by simpa using List.find?_some hterm
      obtain ⟨hnodup, hnot⟩ := ih (term :: taken)
      constructor
      · rw [List.map_cons, List.nodup_cons]
        refine ⟨?_, hnodup⟩
        intro hmem
        obtain ⟨c, hc, hterm⟩ := List.mem_map.mp hmem
        exact hnot c hc (hterm ▸ List.mem_cons_self)
      · intro c hc
        rcases List.mem_cons.mp hc with rfl | hc
        · exact hfree
        · exact fun hmem => hnot c hc (List.mem_cons_of_mem _ hmem)
    · exact ih taken

theorem nodup_claim_place (taken : List Nat) :
    ((claim index taken (subjects blocks)).map (·.subject.place)).Nodup := by
  have hsub := (claim_sublist index taken (subjects blocks)).map Subject.place
  rw [List.map_map] at hsub
  exact nodup_subjects_place.sublist hsub

end Dfn

/-! ### Designations -/

namespace Claims

open Dfn

/-- What a name shows, if a term has been taken for it. -/
def at? (claims : Claims) (place : NamePlace) : Option Designation := do
  let claim ← claims.claims.find? fun c => c.subject.place == place
  claims.designations[claim.term]?

theorem definition?_eq_at? (claims : Claims) (place : Place) :
    claims.definition? place = claims.at? (.definition place) := by
  have hsame (c : Claim) : (match c.subject with
      | .definition p _ => p == place
      | .member .. => false) = (c.subject.place == .definition place) := by
    rw [Bool.eq_iff_iff]
    cases c.subject <;> simp [Subject.place]
  exact congrArg (fun p => (claims.claims.find? p).bind (claims.designations[·.term]?))
    (funext hsame)

theorem member?_eq_at? (claims : Claims) (place : MemberPlace) :
    claims.member? place = claims.at? (.member place) := by
  have hsame (c : Claim) : (match c.subject with
      | .definition .. => false
      | .member p .. => p == place) = (c.subject.place == .member place) := by
    rw [Bool.eq_iff_iff]
    cases c.subject <;> simp [Subject.place]
  exact congrArg (fun p => (claims.claims.find? p).bind (claims.designations[·.term]?))
    (funext hsame)

theorem mem_designations_of_at? {claims : Claims} {place : NamePlace}
    {designation : Designation} (h : claims.at? place = some designation) :
    designation ∈ claims.designations := by
  obtain ⟨c, -, hdesignation⟩ := Option.bind_eq_some_iff.mp h
  exact List.mem_of_getElem? hdesignation

section Built

variable {terms : List TermInput} {index : TermIndex} {blocks : List (List Definition)}
  {plan : Anchor.Plan} {designation : Designation}

/-- The host is told of the claim of a term. -/
theorem designations_build_getElem? {c : Claim}
    (hc : c ∈ (build terms index blocks plan).claims) :
    (build terms index blocks plan).designations[c.term]? =
      terms[c.term]?.map (c.subject.designate plan) := by
  have hfind : (claim index [] (subjects blocks)).find? (·.term == c.term) = some c :=
    find?_eq_some_of_nodup (nodup_claim_term [] (subjects blocks)).1 hc fun b => beq_iff_eq
  simp only [build, List.getElem?_map, List.getElem?_zipIdx, Nat.zero_add]
  cases hterm : terms[c.term]? with
  | none => rfl
  | some term => simp [hfind]

theorem at?_of_mem {c : Claim} (hc : c ∈ (build terms index blocks plan).claims) :
    (build terms index blocks plan).at? c.subject.place =
      (build terms index blocks plan).designations[c.term]? := by
  have hfind : (build terms index blocks plan).claims.find? (·.subject.place == c.subject.place) =
      some c :=
    find?_eq_some_of_nodup (nodup_claim_place []) hc fun b => beq_iff_eq
  rw [at?, hfind]
  rfl

/-- What a name shows is the designation of a term that the subject there has taken. -/
theorem exists_subject_of_at? {place : NamePlace}
    (h : (build terms index blocks plan).at? place = some designation) :
    ∃ subject ∈ subjects blocks, subject.place = place ∧
      ∃ term ∈ terms, designation = subject.designate plan term := by
  obtain ⟨c, hfind, hdesignation⟩ := Option.bind_eq_some_iff.mp h
  have hc := List.mem_of_find?_eq_some hfind
  rw [designations_build_getElem? hc] at hdesignation
  obtain ⟨term, hterm, rfl⟩ := Option.map_eq_some_iff.mp hdesignation
  have hplace : c.subject.place = place := by simpa using List.find?_some hfind
  exact ⟨c.subject, (claim_sublist _ [] _).subset (List.mem_map_of_mem hc), hplace, term,
    List.mem_of_getElem? hterm, rfl⟩

/-- The host is told what a name shows for the term that was taken there, or that nothing has taken
the term. -/
theorem mem_designations_build (h : designation ∈ (build terms index blocks plan).designations) :
    (∃ term ∈ terms, designation = .ofTerm term) ∨
      ∃ place, (build terms index blocks plan).at? place = some designation := by
  obtain ⟨i, hi⟩ := List.mem_iff_getElem?.mp h
  have hdesignation := hi
  simp only [build, List.getElem?_map, List.getElem?_zipIdx, Nat.zero_add] at hdesignation
  cases hterm : terms[i]? with
  | none => simp [hterm] at hdesignation
  | some term =>
    cases hfind : (claim index [] (subjects blocks)).find? (·.term == i) with
    | none =>
      left
      simp only [hterm, hfind, Option.map_some, Option.some.injEq] at hdesignation
      exact ⟨term, List.mem_of_getElem? hterm, hdesignation.symm⟩
    | some c =>
      right
      have hc := List.mem_of_find?_eq_some hfind
      obtain rfl : c.term = i := by simpa using List.find?_some hfind
      exact ⟨c.subject.place, (at?_of_mem hc).trans hi⟩

theorem definition?_build {place : Place}
    (h : (build terms index blocks plan).definition? place = some designation) :
    ∃ d, (place, d) ∈ placed blocks ∧ d.isBase = true ∧
      ∃ term ∈ terms, designation = (Subject.definition place d).designate plan term := by
  rw [definition?_eq_at?] at h
  obtain ⟨subject, hsubject, hplace, term, hterm, rfl⟩ := exists_subject_of_at? h
  obtain ⟨⟨p, d⟩, hd, hsubject⟩ := mem_subjects.mp hsubject
  rcases mem_subjectsOf.mp hsubject with ⟨hbase, rfl⟩ | ⟨m, i, name, type, -, -, -, rfl⟩
  · obtain rfl : p = place := NamePlace.definition.inj hplace
    exact ⟨d, hd, hbase, term, hterm, rfl⟩
  · cases hplace

theorem member?_build {place : MemberPlace}
    (h : (build terms index blocks plan).member? place = some designation) :
    ∃ p d m i name type, place = p.member i ∧ (p, d) ∈ placed blocks ∧
      (m, i) ∈ d.members.zipIdx ∧ m.name? = some name ∧
      ∃ term ∈ terms, designation = (Subject.member place d m name type).designate plan term := by
  rw [member?_eq_at?] at h
  obtain ⟨subject, hsubject, hplace, term, hterm, rfl⟩ := exists_subject_of_at? h
  obtain ⟨⟨p, d⟩, hd, hsubject⟩ := mem_subjects.mp hsubject
  rcases mem_subjectsOf.mp hsubject with ⟨-, rfl⟩ | ⟨m, i, name, type, hm, hname, -, rfl⟩
  · cases hplace
  · obtain rfl : p.member i = place := NamePlace.member.inj hplace
    exact ⟨p, d, m, i, name, type, rfl, hd, hm, hname, term, hterm, rfl⟩

end Built

end Claims

end WebIdl
