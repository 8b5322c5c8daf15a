import WebIdl.Anchor.Slug
import WebIdl.Syntax.Definition

/-!
# The anchor plan

Which definition carries the ids made from its name, and which number each member gets among those
with the same container and slug. Both depend on the whole document, so they are settled for all
blocks before any is rendered.
-/

namespace WebIdl

/-- Where a definition stands in a document. -/
structure Place where
  block : Nat
  definition : Nat
deriving DecidableEq, Repr

/-- Where a member stands in a document. -/
structure MemberPlace where
  block : Nat
  definition : Nat
  member : Nat
deriving DecidableEq, Repr

namespace Place

def member (place : Place) (index : Nat) : MemberPlace := ⟨place.block, place.definition, index⟩

end Place

/-- The definitions of a document with their places, in order. -/
def placed (blocks : List (List Definition)) : List (Place × Definition) :=
  blocks.zipIdx.flatMap fun (definitions, block) =>
    definitions.zipIdx.map fun (definition, index) => (⟨block, index⟩, definition)

namespace Anchor

/-- What the plan says of one definition. -/
structure Entry where
  place : Place
  /-- The ids made from the name are on this definition. -/
  owns : Bool
  /-- The number of each member; one without a name has none. -/
  overloads : List (Option Nat)

structure Plan where
  entries : List Entry

namespace Plan

/-- What members are numbered by. -/
def memberKey? (member : Member) : Option (String × String) :=
  member.name?.map fun name => (slug member.scope, memberSlug name)

/-- The numbers of members, given the keys of all named members before them, and the keys after
them. -/
def number : List (String × String) → List Member → List (Option Nat) × List (String × String)
  | seen, [] => ([], seen)
  | seen, member :: members =>
    match memberKey? member with
    | none =>
      let (numbers, seen) := number seen members
      (none :: numbers, seen)
    | some key =>
      let (numbers, after) := number (key :: seen) members
      (some (seen.count key) :: numbers, after)

/-- The entries of definitions, given the slugs and the member keys before them. The first base
definition of a slug owns it. -/
def plan : List String → List (String × String) → List (Place × Definition) → List Entry
  | _, _, [] => []
  | slugs, seen, (place, definition) :: rest =>
    let s := slug definition.name
    let owns := definition.isBase && !slugs.contains s
    let (overloads, seen) := number seen definition.members
    ⟨place, owns, overloads⟩ :: plan (if owns then s :: slugs else slugs) seen rest

def ofBlocks (blocks : List (List Definition)) : Plan := ⟨plan [] [] (placed blocks)⟩

def entry? (plan : Plan) (place : Place) : Option Entry :=
  plan.entries.find? (·.place == place)

/-- The definition at a place carries the ids made from its name. -/
def owns (plan : Plan) (place : Place) : Bool := (plan.entry? place).any (·.owns)

/-- The number of a member; it is 0 for the first of its key. -/
def overload (plan : Plan) (place : MemberPlace) : Nat :=
  (do (← (← plan.entry? ⟨place.block, place.definition⟩).overloads[place.member]?)).getD 0

end Plan

end Anchor

end WebIdl
