import WebIdl.Proofs.Dfn.Greedy
import WebIdl.Proofs.Dfn.Term

/-!
# Exports with and without terms

Which names are exported, and as what, has nothing to do with the terms of the host. These matter for
the ids alone, and there only where the author has written one.

* `ExportedTerm.all_eq_map` — the exports are those of the definitions that own their names and of
  their members, in document order.
* `ExportedTerm.id_ofSubject_build` — the id that a name is exported with is the author's for the
  term that it has taken, or the one made from the name.
* `ExportedTerm.all_build` — the exports with terms, from the exports without.
-/

namespace WebIdl

open Dfn

namespace Dfn.Subject

/-- What a subject defines. -/
def type : Subject → DfnType
  | .definition _ d => (DfnType.ofDefinition? d.kind).getD .interface
  | .member _ _ _ _ type => type

/-- The id that is made from the name of a subject. -/
def anchor (plan : Anchor.Plan) : Subject → String
  | .definition _ d => Anchor.definitionName d.name
  | .member place _ m name _ => Anchor.memberName m.scope name (plan.overload place)

/-- A term that has been taken keeps the id of its author, or gets the one made from the name. -/
theorem id_designate (plan : Anchor.Plan) (term : TermInput) (s : Subject) :
    (s.designate plan term).id = term.id.getD (s.anchor plan) := by
  cases s <;> rfl

end Dfn.Subject

/-- The id that the author has written for the term that is taken at a place. -/
def Claims.authorId? (claims : Claims) (terms : List TermInput) (place : NamePlace) :
    Option String := do
  (← terms[← claims.taken? place]?).id

namespace ExportedTerm

variable {blocks : List (List Definition)} {claims : Claims}

/-! ### What is exported -/

/-- The names that are exported: those of the definitions that own them, and of their members. -/
def exportedSubjects (blocks : List (List Definition)) : List Subject :=
  (subjects blocks).filter fun s => (Anchor.Plan.ofBlocks blocks).owns s.place.owner

/-- A name with what it is exported as. -/
def ofSubject (plan : Anchor.Plan) (claims : Claims) (s : Subject) : ExportedTerm :=
  { name := s.key.name
    scope := s.key.scope
    type := s.type
    id := (claims.at? s.place).elim (s.anchor plan) (·.id) }

/-- An owner exports its subjects. -/
theorem ofDefinition_eq_map {plan : Anchor.Plan} {place : Place} {d : Definition}
    (hbase : d.isBase = true) (howns : plan.owns place = true) :
    ofDefinition plan claims place d = (subjectsOf (place, d)).map (ofSubject plan claims) := by
  obtain ⟨type, htype⟩ := Option.isSome_iff_exists.mp (DfnType.isSome_ofDefinition? hbase)
  unfold ofDefinition subjectsOf
  rw [Definition.isPartial_eq_false hbase, howns, htype, if_pos hbase, Claims.definition?_eq_at?,
    List.map_append, List.map_filterMap]
  refine congrArg₂ List.cons ?_ (List.filterMap_congr ?_)
  · simp [ofSubject, Subject.type, Subject.key, Subject.place, Subject.anchor, htype]
  · rintro ⟨m, index⟩ -
    dsimp only
    rw [ofMember, Claims.member?_eq_at?]
    cases m.name? with
    | none => rfl
    | some name => cases DfnType.ofMember? m.kind <;> rfl

/-- The subjects of a definition are exported together or not at all. -/
theorem filter_subjectsOf (plan : Anchor.Plan) (place : Place) (d : Definition) :
    (subjectsOf (place, d)).filter (fun s => plan.owns s.place.owner) =
      if plan.owns place then subjectsOf (place, d) else [] := by
  have howner : ∀ s ∈ subjectsOf (place, d), plan.owns s.place.owner = plan.owns place :=
    fun s hs => congrArg plan.owns (owner_of_mem hs)
  rw [List.filter_congr howner]
  cases plan.owns place <;> simp

theorem all_eq_map (blocks : List (List Definition)) (claims : Claims) :
    all blocks (.ofBlocks blocks) claims =
      (exportedSubjects blocks).map (ofSubject (.ofBlocks blocks) claims) := by
  have hsubjects : subjects blocks = (placed blocks).flatMap subjectsOf := rfl
  unfold all exportedSubjects
  rw [hsubjects, List.filter_flatMap, List.map_flatMap]
  refine List.flatMap_congr ?_
  rintro ⟨place, d⟩ hd
  rw [filter_subjectsOf]
  cases howns : (Anchor.Plan.ofBlocks blocks).owns place with
  | false => exact ofDefinition_eq_nil howns d
  | true => exact ofDefinition_eq_map (Anchor.Plan.isBase_of_owns hd howns) howns

/-! ### Their ids -/

section Built

variable {terms : List TermInput} {plan : Anchor.Plan} {s : Subject}

/-- The id of the term that a subject has taken. -/
theorem id_ofSubject_build (hs : s ∈ subjects blocks) :
    let claims := Claims.build terms (.ofTerms terms) blocks plan
    (ofSubject plan claims s).id = (claims.authorId? terms s.place).getD (s.anchor plan) := by
  intro claims
  show (claims.at? s.place).elim (s.anchor plan) (·.id) = _
  rw [Claims.at?_eq_bind, Claims.authorId?]
  cases htaken : claims.taken? s.place with
  | none => rfl
  | some i =>
    obtain ⟨c, hc, -, rfl⟩ := Claims.taken?_build_iff.mp htaken
    have hlt : c.term < terms.length :=
      TermIndex.lt_of_mem_matching (mem_matching_of_mem_claim hc)
    have hterm := List.getElem?_eq_getElem hlt
    have hdesignation := Claims.designation_of_taken? hterm hs htaken
    simp [claims, hdesignation, hterm, Subject.id_designate]

/-- Where there are no terms, none are taken. -/
theorem id_ofSubject_build_nil (hs : s ∈ subjects blocks) :
    (ofSubject plan (.build [] (.ofTerms []) blocks plan) s).id = s.anchor plan := by
  have htaken : (Claims.build [] (.ofTerms []) blocks plan).taken? s.place = none := by
    rw [Option.eq_none_iff_forall_ne_some]
    intro i hi
    obtain ⟨c, hc, -⟩ := Claims.taken?_build_iff.mp hi
    cases TermIndex.lt_of_mem_matching (mem_matching_of_mem_claim hc)
  rw [id_ofSubject_build hs, Claims.authorId?, htaken]
  rfl

end Built

/-- **With terms and without, the same names are exported in the same order, with the same containers
and types, and with the same ids but for those that authors have written for the terms that the names
have taken.** -/
theorem all_build (terms : List TermInput) (blocks : List (List Definition)) :
    let plan := Anchor.Plan.ofBlocks blocks
    let claims := Claims.build terms (.ofTerms terms) blocks plan
    let exported := all blocks plan claims
    let unclaimed := all blocks plan (.build [] (.ofTerms []) blocks plan)
    exported.length = unclaimed.length ∧
      (exportedSubjects blocks).length = unclaimed.length ∧
      ∀ (i : Nat) s e, (exportedSubjects blocks)[i]? = some s → unclaimed[i]? = some e →
        s.key = ⟨e.scope, e.name⟩ ∧
          exported[i]? = some { e with id := (claims.authorId? terms s.place).getD e.id } := by
  intro plan claims exported unclaimed
  have hexported : exported = (exportedSubjects blocks).map (ofSubject plan claims) :=
    all_eq_map blocks claims
  have hunclaimed : unclaimed = (exportedSubjects blocks).map
      (ofSubject plan (.build [] (.ofTerms []) blocks plan)) := all_eq_map blocks _
  refine ⟨by simp [hexported, hunclaimed], by simp [hunclaimed], ?_⟩
  intro i s e hs he
  have hmem : s ∈ subjects blocks := (List.mem_filter.mp (List.mem_of_getElem? hs)).1
  rw [hunclaimed, List.getElem?_map, hs, Option.map_some] at he
  obtain rfl := Option.some.inj he
  refine ⟨rfl, ?_⟩
  rw [hexported, List.getElem?_map, hs, Option.map_some, id_ofSubject_build_nil hmem,
    ← id_ofSubject_build hmem]
  rfl

end ExportedTerm

end WebIdl
