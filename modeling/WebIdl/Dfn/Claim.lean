import WebIdl.Anchor.Plan
import WebIdl.Dfn.Kind
import WebIdl.Dfn.Term

/-!
# Claims

Every definition and every named member takes the first term that defines it and that nothing
before it has taken, in the order of the document, a definition before its members. Partial
definitions and includes statements take no term for their own name. A term that is taken is told
what it defines and where.
-/

namespace WebIdl

/-- What the host is told about one of its terms. -/
structure Designation where
  text : String
  id : String
  dfnType : Option DfnType
  scope : Option String
  idl : Option IdlKind
  exported : Bool
deriving DecidableEq, Repr

namespace Designation

def href (designation : Designation) : String := "#" ++ designation.id

def claimed (designation : Designation) : Bool :=
  designation.idl.isSome || designation.dfnType.isSome

/-- What a link to the term says that it leads to. -/
def linkType (designation : Designation) : String := designation.dfnType.elim "dfn" DfnType.name

/-- The designation of a term that nothing has taken. -/
def ofTerm (term : TermInput) : Designation :=
  { text := term.text
    id := term.id.getD ("dfn-" ++ Anchor.slug term.text)
    dfnType := none, scope := term.scope, idl := none, exported := false }

end Designation

namespace Dfn

/-- What takes a term. -/
inductive Subject where
  | definition (place : Place) (definition : Definition)
  | member (place : MemberPlace) (owner : Definition) (member : Member) (name : String)
      (type : DfnType)

namespace Subject

/-- The key by which a subject looks for its term. -/
def key : Subject → Key
  | .definition _ d => ⟨none, d.name⟩
  | .member _ _ m name _ => ⟨some m.scope, name⟩

/-- The designation of the term that a subject has taken. An id that the author wrote is kept. -/
def designate (plan : Anchor.Plan) (term : TermInput) : Subject → Designation
  | .definition place d =>
    { text := term.text
      id := term.id.getD (Anchor.definitionName d.name)
      dfnType := DfnType.ofDefinition? d.kind
      scope := none
      idl := IdlKind.ofDefinition? d.kind
      exported := plan.owns place }
  | .member place owner m name type =>
    { text := term.text
      id := term.id.getD (Anchor.memberName m.scope name (plan.overload place))
      dfnType := some type
      scope := some m.scope
      idl := IdlKind.ofMember? m.kind
      exported := !owner.isPartial }

end Subject

/-- What can take a term, in the order in which it may. -/
def subjects (blocks : List (List Definition)) : List Subject :=
  (placed blocks).flatMap fun (place, definition) =>
    (if definition.isBase then [.definition place definition] else []) ++
      definition.members.zipIdx.filterMap fun (member, index) => do
        return .member (place.member index) definition member (← member.name?)
          (← DfnType.ofMember? member.kind)

/-- A term and what has taken it. -/
structure Claim where
  term : Nat
  subject : Subject

/-- The claims of subjects when some terms are taken already. -/
def claim (index : TermIndex) : List Nat → List Subject → List Claim
  | _, [] => []
  | taken, subject :: subjects =>
    match (index.matching subject.key.scope subject.key.name).find? (!taken.contains ·) with
    | some term => ⟨term, subject⟩ :: claim index (term :: taken) subjects
    | none => claim index taken subjects

end Dfn

/-- The claims of a document and what they tell about its terms. -/
structure Claims where
  claims : List Dfn.Claim
  designations : List Designation

namespace Claims

def build (terms : List TermInput) (index : TermIndex) (blocks : List (List Definition))
    (plan : Anchor.Plan) : Claims :=
  let claims := Dfn.claim index [] (Dfn.subjects blocks)
  { claims := claims
    designations := terms.zipIdx.map fun (term, i) =>
      match claims.find? (·.term == i) with
      | some claim => claim.subject.designate plan term
      | none => Designation.ofTerm term }

/-- The term that a definition has taken for its name. -/
def definition? (claims : Claims) (place : Place) : Option Designation := do
  let claim ← claims.claims.find? fun c =>
    match c.subject with
    | .definition p _ => p == place
    | .member .. => false
  claims.designations[claim.term]?

/-- The term that a member has taken. -/
def member? (claims : Claims) (place : MemberPlace) : Option Designation := do
  let claim ← claims.claims.find? fun c =>
    match c.subject with
    | .definition .. => false
    | .member p .. => p == place
  claims.designations[claim.term]?

end Claims

end WebIdl
