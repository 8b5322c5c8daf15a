import WebIdl.Block
import WebIdl.Dfn.Claim

/-!
# Exports

The names that other documents may link to: every definition that owns its name, with the named
members written in it. What partial definitions contribute is left out.
-/

namespace WebIdl

structure ExportedTerm where
  name : String
  scope : Option String
  type : DfnType
  /-- The id of the element that defines the name. -/
  id : String
deriving DecidableEq, Repr

namespace ExportedTerm

def ofMember (plan : Anchor.Plan) (claims : Claims) (place : MemberPlace) (member : Member) :
    Option ExportedTerm := do
  let name ← member.name?
  let type ← DfnType.ofMember? member.kind
  return {
    name := name
    scope := some member.scope
    type := type
    id := (claims.member? place).elim
      (Anchor.memberName member.scope name (plan.overload place)) (·.id) }

/-- A definition and its members, if it owns its name. -/
def ofDefinition (plan : Anchor.Plan) (claims : Claims) (place : Place)
    (definition : Definition) : List ExportedTerm :=
  if definition.isPartial || !plan.owns place then []
  else match DfnType.ofDefinition? definition.kind with
    | none => []
    | some type =>
      { name := definition.name
        scope := none
        type := type
        id := (claims.definition? place).elim (Anchor.definitionName definition.name) (·.id) } ::
      definition.members.zipIdx.filterMap fun (member, index) =>
        ofMember plan claims (place.member index) member

def all (blocks : List (List Definition)) (plan : Anchor.Plan) (claims : Claims) :
    List ExportedTerm :=
  (placed blocks).flatMap fun (place, definition) => ofDefinition plan claims place definition

end ExportedTerm

end WebIdl
