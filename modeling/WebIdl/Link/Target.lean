import WebIdl.Catalog
import WebIdl.Dfn.Claim
import WebIdl.Vocabulary
import WebIdl.Xref.Table

/-!
# Link targets

What a name leads to. The terms of the host come first, then the definitions of the document, then,
for types, the builtin ones, and last what was found in other documents.
-/

namespace WebIdl

namespace Target

/-- Where a target is defined. -/
inductive Origin where
  /-- In the prose of the document. -/
  | host
  /-- In a block of the document. -/
  | inside
  /-- In the Web IDL specification. -/
  | builtin
  /-- In another document. -/
  | external
deriving DecidableEq, Repr

namespace Origin

def name : Origin → String
  | .host => "host"
  | .inside => "local"
  | .builtin => "builtin"
  | .external => "external"

end Origin

end Target

structure Target where
  origin : Target.Origin
  href : String
  /-- What kind of thing the target is. -/
  linkType : String
deriving DecidableEq, Repr

namespace Target

/-- The target is in the same document. -/
def isInternal (target : Target) : Bool := target.origin == .host || target.origin == .inside

/-- The target of a host term, the first of those that match. -/
def ofTerms? (claims : Claims) (terms : List Nat) : Option Target := do
  let designation ← claims.designations[← terms.head?]?
  return ⟨.host, designation.href, designation.linkType⟩

end Target

/-- What names are resolved with, as seen from one block. -/
structure Resolver where
  catalog : Catalog
  index : TermIndex
  claims : Claims
  xref : Xref.Table
  /-- The address of the Web IDL specification. -/
  baseUrl : String
  /-- The specifications that the block cites. -/
  cite : List String

namespace Resolver

def withCite (resolver : Resolver) (cite : List String) : Resolver := { resolver with cite := cite }

def specUrl (resolver : Resolver) (anchor : String) : String := resolver.baseUrl ++ "#" ++ anchor

def host? (resolver : Resolver) (scope : Option String) (name : String) : Option Target :=
  Target.ofTerms? resolver.claims (resolver.index.matching scope name)

/-- The definition of a name, or the member of a container. -/
def declared? (resolver : Resolver) (scope : Option String) (name : String) : Option Target :=
  match scope with
  | none => (resolver.catalog.definition? name).map fun definition =>
    ⟨.inside, "#" ++ Anchor.definitionName name, definition.kind.linkType⟩
  | some scope => (resolver.catalog.member? scope name).map fun member =>
    ⟨.inside, "#" ++ Anchor.memberName scope name 0, member.kind.linkType⟩

def builtin? (resolver : Resolver) (name : String) : Option Target :=
  (Vocabulary.typeAnchor? name).map fun anchor =>
    ⟨.builtin, resolver.specUrl anchor, "interface"⟩

def external? (resolver : Resolver) (name : String) : Option Target :=
  (resolver.xref.get? ⟨name, .type, resolver.cite⟩).map fun entry =>
    ⟨.external, entry.url, entry.kind⟩

/-- A type, as far as it can be resolved without a lookup. -/
def localType? (resolver : Resolver) (name : String) : Option Target :=
  resolver.host? none name <|> resolver.declared? none name <|> resolver.builtin? name

def type? (resolver : Resolver) (name : String) : Option Target :=
  resolver.localType? name <|> resolver.external? name

/-- The name of a member of a container, or of a definition. -/
def name? (resolver : Resolver) (name : String) (scope : Option String) : Option Target :=
  resolver.host? scope name <|> resolver.declared? scope name

/-- Types have no container. -/
def resolve? (resolver : Resolver) (name : String) (kind : ReferenceKind)
    (scope : Option String) : Option Target :=
  match kind with
  | .type => resolver.type? name
  | .name => resolver.name? name scope

/-- Nothing but a lookup can resolve the type. -/
def needsLookup (resolver : Resolver) (name : String) : Bool := (resolver.localType? name).isNone

def extAttr? (resolver : Resolver) (name : String) : Option Target :=
  (Vocabulary.extAttrAnchor? name).map fun anchor =>
    ⟨.builtin, resolver.specUrl anchor, "extended-attribute"⟩

/-- The interface of a global that an extended attribute names. -/
def global? (resolver : Resolver) (name : String) : Option Target := do
  resolver.type? (← Vocabulary.globalInterface? name)

/-- The target of a `[Default] toJSON()` that the host does not define. -/
def defaultToJson (resolver : Resolver) : Target :=
  ⟨.builtin, resolver.specUrl Vocabulary.defaultToJsonAnchor, "method"⟩

end Resolver

end WebIdl
