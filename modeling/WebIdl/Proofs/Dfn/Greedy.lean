import WebIdl.Proofs.Dfn.Exports

/-!
# Terms are taken greedily

Claims are made in one pass that remembers which terms are taken. In terms of the order of the
document alone, every name takes the first of its terms that no name before it has taken.

* `Dfn.exists_claim_append` — what is taken first does not depend on what comes after it.
* `Dfn.find?_claim_place` — what a subject takes, from the claims of those before it.
* `Claims.TakesFirst`, `Claims.Greedy` — the same without a list of what is taken.
* `Claims.Tells` — what the host is told about one of its terms.
* `Claims.greedy_build` — the claims of a document are greedy, and the host is told of them.
-/

namespace WebIdl

namespace Dfn

variable {index : TermIndex} {blocks : List (List Definition)}

/-! ### Claims in order -/

/-- The first subjects take what they would take alone, and the others what these have left. -/
theorem exists_claim_append (index : TermIndex) (taken : List Nat) (before after : List Subject) :
    ∃ later, claim index taken (before ++ after) =
        claim index taken before ++ claim index later after ∧
      ∀ t, t ∈ later ↔ t ∈ taken ∨ ∃ c ∈ claim index taken before, c.term = t := by
  induction before generalizing taken with
  | nil => exact ⟨taken, rfl, by simp [claim]⟩
  | cons subject before ih =>
    rw [List.cons_append, claim, claim]
    cases (index.matching subject.key.scope subject.key.name).find? (!taken.contains ·) with
    | none => exact ih taken
    | some term =>
      obtain ⟨later, hclaims, hlater⟩ := ih (term :: taken)
      refine ⟨later, by simp [hclaims], ?_⟩
      intro t
      rw [hlater, List.mem_cons]
      constructor
      · rintro ((rfl | htaken) | ⟨c, hc, rfl⟩)
        · exact .inr ⟨_, List.mem_cons_self, rfl⟩
        · exact .inl htaken
        · exact .inr ⟨c, List.mem_cons_of_mem _ hc, rfl⟩
      · rintro (htaken | ⟨c, hc, rfl⟩)
        · exact .inl (.inr htaken)
        · rcases List.mem_cons.mp hc with rfl | hc
          · exact .inl (.inl rfl)
          · exact .inr ⟨c, hc, rfl⟩

/-- What is taken is a term of the name. -/
theorem mem_matching_of_mem_claim {taken : List Nat} {subjects : List Subject} {c : Claim}
    (hc : c ∈ claim index taken subjects) :
    c.term ∈ index.matching c.subject.key.scope c.subject.key.name := by
  induction subjects generalizing taken with
  | nil => cases hc
  | cons subject subjects ih =>
    unfold claim at hc
    split at hc
    · rename_i term hterm
      rcases List.mem_cons.mp hc with rfl | hc
      · exact List.mem_of_find?_eq_some hterm
      · exact ih hc
    · exact ih hc

theorem subject_mem_of_mem_claim {taken : List Nat} {subjects : List Subject} {c : Claim}
    (hc : c ∈ claim index taken subjects) : c.subject ∈ subjects :=
  (claim_sublist index taken subjects).subset (List.mem_map_of_mem hc)

/-- What a subject takes is the first of its terms that no subject before it has taken. -/
theorem find?_claim_place {before after : List Subject} {s : Subject}
    (hsubjects : subjects blocks = before ++ s :: after) :
    ((claim index [] (subjects blocks)).find? (·.subject.place == s.place)).map (·.term) =
      (index.matching s.key.scope s.key.name).find? fun term =>
        !(claim index [] before).any (·.term == term) := by
  obtain ⟨later, hclaims, hlater⟩ := exists_claim_append index [] before (s :: after)
  have hfree : (fun term => !later.contains term) =
      fun term => !(claim index [] before).any (·.term == term) := by
    funext term
    rw [Bool.not_inj_iff, Bool.eq_iff_iff]
    simp [hlater]
  have hnodup : ((before ++ s :: after).map Subject.place).Nodup := by
    rw [← hsubjects]
    exact nodup_subjects_place
  rw [List.map_append, List.map_cons, List.nodup_append', List.nodup_cons] at hnodup
  obtain ⟨-, ⟨hafter, -⟩, hbefore⟩ := hnodup
  -- no other subject has a claim at the place
  have hother {taken : List Nat} {others : List Subject} (h : s.place ∉ others.map Subject.place) :
      (claim index taken others).find? (·.subject.place == s.place) = none := by
    rw [List.find?_eq_none]
    intro c hc hsame
    rw [beq_iff_eq] at hsame
    exact h (hsame ▸ List.mem_map_of_mem (subject_mem_of_mem_claim hc))
  rw [hsubjects, hclaims, List.find?_append, hother fun h => hbefore h List.mem_cons_self,
    Option.none_or, claim, hfree]
  cases (index.matching s.key.scope s.key.name).find? fun term =>
      !(claim index [] before).any (·.term == term) with
  | none => rw [hother hafter, Option.map_none]
  | some term => rw [List.find?_cons_of_pos (by simp), Option.map_some]

/-! ### Subjects by their places -/

theorem eq_of_mem_subjects {s t : Subject} (hs : s ∈ subjects blocks) (ht : t ∈ subjects blocks)
    (h : s.place = t.place) : s = t :=
  List.inj_on_of_nodup_map nodup_subjects_place hs ht h

theorem definition_mem_subjects {place : Place} {d : Definition} (hd : (place, d) ∈ placed blocks)
    (hbase : d.isBase = true) : .definition place d ∈ subjects blocks :=
  mem_subjects.mpr ⟨_, hd, mem_subjectsOf.mpr (.inl ⟨hbase, rfl⟩)⟩

/-- Every member that has a name is a subject. -/
theorem exists_member_mem_subjects {place : MemberPlace} {m : Member} {name : String}
    (hm : (place, m) ∈ placedMembers blocks) (hname : m.name? = some name) :
    ∃ owner type, .member place owner m name type ∈ subjects blocks := by
  obtain ⟨d, hd, hm⟩ := exists_of_mem_membersOf hm
  obtain ⟨type, htype⟩ :=
    Option.isSome_iff_exists.mp (DfnType.isSome_ofMember? (m := m) (by simp [hname]))
  exact ⟨d, type, mem_subjects.mpr ⟨_, hd, mem_subjectsOf.mpr
    (.inr ⟨m, place.member, name, type, List.mem_zipIdx_iff_getElem?.mpr hm, hname, htype, rfl⟩)⟩⟩

/-- A subject is a base definition, or a member with a name. -/
theorem exists_of_mem_subjects {s : Subject} (h : s ∈ subjects blocks) :
    (∃ p d, s = .definition p d ∧ (p, d) ∈ placed blocks ∧ d.isBase = true) ∨
      ∃ p owner m name type, s = .member p owner m name type ∧ (p, m) ∈ placedMembers blocks ∧
        m.name? = some name ∧ DfnType.ofMember? m.kind = some type := by
  obtain ⟨⟨p, d⟩, hd, hs⟩ := mem_subjects.mp h
  rcases mem_subjectsOf.mp hs with ⟨hbase, rfl⟩ | ⟨m, i, name, type, hm, hname, htype, rfl⟩
  · exact .inl ⟨p, d, rfl, hd, hbase⟩
  · exact .inr ⟨p.member i, d, m, name, type, rfl,
      List.mem_flatMap.mpr ⟨_, hd, List.mem_map.mpr ⟨_, hm, rfl⟩⟩, hname, htype⟩

/-- A term that has been taken is told what has taken it. -/
theorem claimed_designate {s : Subject} (h : s ∈ subjects blocks) (plan : Anchor.Plan)
    (term : TermInput) : (s.designate plan term).claimed = true := by
  rcases exists_of_mem_subjects h with ⟨p, d, rfl, -, hbase⟩ | ⟨p, owner, m, name, type, rfl, -⟩
  · simp [Subject.designate, Designation.claimed, DfnType.isSome_ofDefinition? hbase]
  · simp [Subject.designate, Designation.claimed]

end Dfn

namespace Claims

open Dfn

/-! ### What a place takes -/

/-- The term that is taken at a place. -/
def taken? (claims : Claims) (place : NamePlace) : Option Nat :=
  (claims.claims.find? (·.subject.place == place)).map (·.term)

theorem at?_eq_bind (claims : Claims) (place : NamePlace) :
    claims.at? place = (claims.taken? place).bind (claims.designations[·]?) := by
  rw [at?, taken?]
  cases claims.claims.find? (·.subject.place == place) <;> rfl

/-- A name before the place has taken the term. -/
def TakenBefore (claims : Claims) (place : NamePlace) (term : Nat) : Prop :=
  ∃ earlier, earlier.path < place.path ∧ claims.taken? earlier = some term

/-- What is taken at a place is the first term of the key that is not taken before, and nothing is
taken only if all of them are. -/
structure TakesFirst (claims : Claims) (index : TermIndex) (place : NamePlace) (key : Key) :
    Prop where
  first : ∀ term, claims.taken? place = some term → ¬ claims.TakenBefore place term ∧
    ∃ tried rest, index.matching key.scope key.name = tried ++ term :: rest ∧
      ∀ other ∈ tried, claims.TakenBefore place other
  exhausted : claims.taken? place = none → ∀ term ∈ index.matching key.scope key.name,
    claims.TakenBefore place term

/-- Terms are taken by base definitions and by members with names, each by one of them at most, and
each of these takes the first of its terms that is left. -/
structure Greedy (claims : Claims) (index : TermIndex) (blocks : List (List Definition)) :
    Prop where
  once : ∀ p q term, claims.taken? p = some term → claims.taken? q = some term → p = q
  definition : ∀ p d, (p, d) ∈ placed blocks → d.isPartial = false → d.kind ≠ .includes →
    claims.TakesFirst index (.definition p) ⟨none, d.name⟩
  member : ∀ p m name, (p, m) ∈ placedMembers blocks → m.name? = some name →
    claims.TakesFirst index (.member p) ⟨some m.scope, name⟩
  only : ∀ place term, claims.taken? place = some term →
    (∃ p d, place = .definition p ∧ (p, d) ∈ placed blocks ∧ d.isPartial = false ∧
      d.kind ≠ .includes) ∨
    ∃ p m, place = .member p ∧ (p, m) ∈ placedMembers blocks ∧ m.name?.isSome = true

/-- What the host is told about a term: whether it is taken, an id of the author's if there is one,
and otherwise the id made from its text, or that of the name that has taken it. -/
structure Tells (claims : Claims) (plan : Anchor.Plan) (blocks : List (List Definition)) (i : Nat)
    (term : TermInput) (designation : Designation) : Prop where
  claimed_iff : designation.claimed = true ↔ ∃ place, claims.taken? place = some i
  explicit : ∀ id, term.id = some id → designation.id = id
  unclaimed : (∀ place, claims.taken? place ≠ some i) →
    designation.scope = term.scope ∧
      (term.id = none → designation.id = "dfn-" ++ Anchor.slug term.text)
  definition : ∀ p d, (p, d) ∈ placed blocks → claims.taken? (.definition p) = some i →
    term.id = none → designation.id = Anchor.definitionName d.name
  member : ∀ p m name, (p, m) ∈ placedMembers blocks → m.name? = some name →
    claims.taken? (.member p) = some i → term.id = none →
      designation.id = Anchor.memberName m.scope name (plan.overload p)

section Built

variable {terms : List TermInput} {index : TermIndex} {blocks : List (List Definition)}
  {plan : Anchor.Plan}

theorem taken?_build_iff {place : NamePlace} {term : Nat} :
    (build terms index blocks plan).taken? place = some term ↔
      ∃ c ∈ claim index [] (subjects blocks), c.subject.place = place ∧ c.term = term := by
  unfold taken?
  rw [Option.map_eq_some_iff]
  constructor
  · rintro ⟨c, hfind, rfl⟩
    exact ⟨c, List.mem_of_find?_eq_some hfind, by simpa using List.find?_some hfind, rfl⟩
  · rintro ⟨c, hc, rfl, rfl⟩
    exact ⟨c, find?_eq_some_of_nodup (nodup_claim_place []) hc fun b => beq_iff_eq, rfl⟩

theorem exists_subject_of_taken? {place : NamePlace} {term : Nat}
    (h : (build terms index blocks plan).taken? place = some term) :
    ∃ s ∈ subjects blocks, s.place = place := by
  obtain ⟨c, hc, rfl, -⟩ := taken?_build_iff.mp h
  exact ⟨c.subject, subject_mem_of_mem_claim hc, rfl⟩

/-- The subjects before a subject are those with lesser places. -/
theorem any_claim_iff {before after : List Subject} {s : Subject}
    (hsubjects : subjects blocks = before ++ s :: after) {term : Nat} :
    (claim index [] before).any (·.term == term) = true ↔
      (build terms index blocks plan).TakenBefore s.place term := by
  obtain ⟨later, hclaims, -⟩ := exists_claim_append index [] before (s :: after)
  have hsorted := pairwise_subjects blocks
  rw [hsubjects, List.pairwise_append, List.pairwise_cons] at hsorted
  obtain ⟨-, ⟨hafter, -⟩, hbefore⟩ := hsorted
  simp only [TakenBefore, taken?_build_iff, hsubjects, hclaims, List.any_eq_true, beq_iff_eq,
    List.mem_append]
  constructor
  · rintro ⟨c, hc, rfl⟩
    exact ⟨c.subject.place, hbefore _ (subject_mem_of_mem_claim hc) s List.mem_cons_self, c, .inl hc,
      rfl, rfl⟩
  · rintro ⟨_, hlt, c, hc | hc, rfl, rfl⟩
    · exact ⟨c, hc, rfl⟩
    · rcases List.mem_cons.mp (subject_mem_of_mem_claim hc) with hsame | hmem
      · rw [hsame] at hlt
        exact absurd hlt (List.lt_irrefl _)
      · exact absurd hlt (List.lt_asymm (hafter _ hmem))

theorem takesFirst_subject {s : Subject} (hs : s ∈ subjects blocks) :
    (build terms index blocks plan).TakesFirst index s.place s.key := by
  obtain ⟨before, after, hsubjects⟩ := List.append_of_mem hs
  have hfree (term : Nat) : (!(claim index [] before).any (·.term == term)) = true ↔
      ¬ (build terms index blocks plan).TakenBefore s.place term := by
    rw [← any_claim_iff hsubjects, Bool.not_eq_true', Bool.not_eq_true]
  have htaken : (build terms index blocks plan).taken? s.place =
      (index.matching s.key.scope s.key.name).find? fun term =>
        !(claim index [] before).any (·.term == term) :=
    find?_claim_place hsubjects
  constructor
  · intro term hterm
    rw [htaken, List.find?_eq_some_iff_append] at hterm
    obtain ⟨hterm, tried, rest, hmatching, htried⟩ := hterm
    refine ⟨(hfree term).mp hterm, tried, rest, hmatching, fun other hother => ?_⟩
    exact (any_claim_iff hsubjects).mp (by simpa using htried other hother)
  · intro hnone term hterm
    rw [htaken, List.find?_eq_none] at hnone
    exact Classical.not_not.mp fun hnot => hnone term hterm ((hfree term).mpr hnot)

theorem greedy (terms : List TermInput) (index : TermIndex) (blocks : List (List Definition))
    (plan : Anchor.Plan) : (build terms index blocks plan).Greedy index blocks := by
  constructor
  · intro p q term hp hq
    obtain ⟨c, hc, rfl, rfl⟩ := taken?_build_iff.mp hp
    obtain ⟨c', hc', rfl, hsame⟩ := taken?_build_iff.mp hq
    rw [List.inj_on_of_nodup_map (nodup_claim_term [] (subjects blocks)).1 hc' hc hsame]
  · intro p d hd hpartial hkind
    exact takesFirst_subject (definition_mem_subjects hd (Definition.isBase_iff.mpr ⟨hpartial, hkind⟩))
  · intro p m name hm hname
    obtain ⟨owner, type, hs⟩ := exists_member_mem_subjects hm hname
    exact takesFirst_subject hs
  · intro place term hterm
    obtain ⟨s, hs, rfl⟩ := exists_subject_of_taken? hterm
    rcases exists_of_mem_subjects hs with ⟨p, d, rfl, hd, hbase⟩ |
      ⟨p, owner, m, name, type, rfl, hm, hname, -⟩
    · exact .inl ⟨p, d, rfl, hd, Definition.isBase_iff.mp hbase⟩
    · exact .inr ⟨p, m, rfl, hm, by simp [hname]⟩

/-! ### What the host is told -/

theorem designations_length :
    (build terms index blocks plan).designations.length = terms.length := by
  simp [build]

/-- A term that has been taken is designated by its subject. -/
theorem designation_of_taken? {i : Nat} {term : TermInput} (hterm : terms[i]? = some term)
    {s : Subject} (hs : s ∈ subjects blocks)
    (h : (build terms index blocks plan).taken? s.place = some i) :
    (build terms index blocks plan).designations[i]? = some (s.designate plan term) := by
  obtain ⟨c, hc, hplace, rfl⟩ := taken?_build_iff.mp h
  rw [designations_build_getElem? hc, hterm, eq_of_mem_subjects (subject_mem_of_mem_claim hc) hs
    hplace]
  rfl

/-- A term that nothing has taken is left as it is. -/
theorem designation_of_untaken {i : Nat} {term : TermInput} (hterm : terms[i]? = some term)
    (h : ∀ place, (build terms index blocks plan).taken? place ≠ some i) :
    (build terms index blocks plan).designations[i]? = some (.ofTerm term) := by
  have hfind : (claim index [] (subjects blocks)).find? (·.term == i) = none := by
    rw [List.find?_eq_none]
    intro c hc hsame
    exact h c.subject.place (taken?_build_iff.mpr ⟨c, hc, rfl, by simpa using hsame⟩)
  simp [build, hterm, hfind]

theorem tells_of_taken? {i : Nat} {term : TermInput} {s : Subject} (hs : s ∈ subjects blocks)
    (h : (build terms index blocks plan).taken? s.place = some i) :
    (build terms index blocks plan).Tells plan blocks i term (s.designate plan term) := by
  have hplace {s' : Subject} (hs' : s' ∈ subjects blocks)
      (h' : (build terms index blocks plan).taken? s'.place = some i) : s = s' :=
    eq_of_mem_subjects hs hs' ((greedy terms index blocks plan).once _ _ _ h h')
  constructor
  · exact iff_of_true (claimed_designate hs plan term) ⟨_, h⟩
  · intro id hid
    cases s <;> simp [Subject.designate, hid]
  · intro huntaken
    exact absurd h (huntaken _)
  · intro p d hd htaken hid
    have hbase : d.isBase = true := by
      obtain ⟨s', hs', hsame⟩ := exists_subject_of_taken? htaken
      rcases exists_of_mem_subjects hs' with ⟨q, e, rfl, he, hbase⟩ | ⟨_, _, _, _, _, rfl, -⟩
      · obtain rfl : q = p := NamePlace.definition.inj hsame
        rwa [eq_of_mem_placed hd he]
      · cases hsame
    obtain rfl := hplace (definition_mem_subjects hd hbase) htaken
    simp [Subject.designate, hid]
  · intro p m name hm hname htaken hid
    obtain ⟨owner, type, hmember⟩ := exists_member_mem_subjects hm hname
    obtain rfl := hplace hmember htaken
    simp [Subject.designate, hid]

theorem tells_of_untaken {i : Nat} {term : TermInput}
    (h : ∀ place, (build terms index blocks plan).taken? place ≠ some i) :
    (build terms index blocks plan).Tells plan blocks i term (.ofTerm term) := by
  constructor
  · exact iff_of_false (by simp [Designation.ofTerm, Designation.claimed]) fun ⟨place, hplace⟩ =>
      h place hplace
  · intro id hid
    simp [Designation.ofTerm, hid]
  · exact fun _ => ⟨rfl, fun hid => by simp [Designation.ofTerm, hid]⟩
  · exact fun p d _ htaken => absurd htaken (h _)
  · exact fun p m name _ _ htaken => absurd htaken (h _)

end Built

/-- **Every base definition and every member with a name takes the first of its terms that no name
before it in the document has taken, nothing else takes a term, and no term is taken twice. The host
is told of every term whether it is taken, and with which id: the author's own where there is one, the
id of the name that has taken it, or the one made from its text.** -/
theorem greedy_build (terms : List TermInput) (blocks : List (List Definition))
    (plan : Anchor.Plan) :
    let claims := build terms (.ofTerms terms) blocks plan
    claims.Greedy (.ofTerms terms) blocks ∧
      claims.designations.length = terms.length ∧
      (∀ i term, terms[i]? = some term → ∃ designation,
        claims.designations[i]? = some designation ∧
          claims.Tells plan blocks i term designation) ∧
      (∀ p, claims.definition? p =
        (claims.taken? (.definition p)).bind (claims.designations[·]?)) ∧
      ∀ p, claims.member? p = (claims.taken? (.member p)).bind (claims.designations[·]?) := by
  intro claims
  refine ⟨greedy terms _ blocks plan, designations_length, ?_, ?_, ?_⟩
  · intro i term hterm
    by_cases htaken : ∃ place, claims.taken? place = some i
    · obtain ⟨place, htaken⟩ := htaken
      obtain ⟨s, hs, rfl⟩ := exists_subject_of_taken? htaken
      exact ⟨_, designation_of_taken? hterm hs htaken, tells_of_taken? hs htaken⟩
    · have huntaken : ∀ place, claims.taken? place ≠ some i := not_exists.mp htaken
      exact ⟨_, designation_of_untaken hterm huntaken, tells_of_untaken huntaken⟩
  · intro p
    rw [definition?_eq_at?, at?_eq_bind]
  · intro p
    rw [member?_eq_at?, at?_eq_bind]

end Claims

end WebIdl
