import WebIdl.Syntax.Definition

/-!
# Kinds in the markup

The words by which rendered markup and links say what kind of thing they are about: the type of a
dfn, the kind of an IDL construct, the class of the element around it, and the type of a link to it.
-/

namespace WebIdl

/-- What a dfn defines. -/
inductive DfnType where
  | interface | namespace | dictionary | enum | typedef | callback
  | attribute | method | const | dictMember | enumValue
deriving DecidableEq, Repr

namespace DfnType

def name : DfnType → String
  | .interface => "interface"
  | .namespace => "namespace"
  | .dictionary => "dictionary"
  | .enum => "enum"
  | .typedef => "typedef"
  | .callback => "callback"
  | .attribute => "attribute"
  | .method => "method"
  | .const => "const"
  | .dictMember => "dict-member"
  | .enumValue => "enum-value"

/-- Includes statements define nothing. -/
def ofDefinition? : Definition.Kind → Option DfnType
  | .interface | .interfaceMixin | .callbackInterface => some .interface
  | .namespace => some .namespace
  | .dictionary => some .dictionary
  | .enum => some .enum
  | .typedef => some .typedef
  | .callback => some .callback
  | .includes => none

/-- Declarations define no name. -/
def ofMember? : Member.Kind → Option DfnType
  | .attribute => some .attribute
  | .constant => some .const
  | .field => some .dictMember
  | .enumValue => some .enumValue
  | .constructor | .operation | .stringifier | .getter | .setter | .deleter => some .method
  | .iterable | .asyncIterable | .maplike | .setlike => none

end DfnType

/-- The kind of an IDL construct; constants, typedefs and callbacks have none. -/
inductive IdlKind where
  | interface | attribute | operation | dictionary | field | enum | enumValue
  /-- The name of a partial definition. -/
  | extension
deriving DecidableEq, Repr

namespace IdlKind

def name : IdlKind → String
  | .interface => "interface"
  | .attribute => "attribute"
  | .operation => "operation"
  | .dictionary => "dictionary"
  | .field => "field"
  | .enum => "enum"
  | .enumValue => "enum-value"
  | .extension => "partial"

def ofDefinition? : Definition.Kind → Option IdlKind
  | .interface | .interfaceMixin | .callbackInterface | .namespace => some .interface
  | .dictionary => some .dictionary
  | .enum => some .enum
  | .typedef | .callback | .includes => none

def ofMember? : Member.Kind → Option IdlKind
  | .attribute => some .attribute
  | .field => some .field
  | .enumValue => some .enumValue
  | .constructor | .operation | .stringifier | .getter | .setter | .deleter => some .operation
  | .constant | .iterable | .asyncIterable | .maplike | .setlike => none

end IdlKind

namespace Definition.Kind

/-- The class of the element around a definition. -/
def cssClass : Kind → String
  | .interface | .interfaceMixin | .callbackInterface => "idlInterface"
  | .namespace => "idlNamespace"
  | .dictionary => "idlDictionary"
  | .enum => "idlEnum"
  | .typedef => "idlTypedef"
  | .callback => "idlCallback"
  | .includes => "idlIncludes"

/-- What a link to a definition says that it leads to. -/
def linkType (kind : Kind) : String := ((DfnType.ofDefinition? kind).getD .interface).name

end Definition.Kind

namespace Member.Kind

/-- The class of the element around a member. -/
def cssClass : Kind → String
  | .attribute => "idlAttribute"
  | .constructor => "idlCtor"
  | .constant => "idlConst"
  | .field => "idlMember"
  | .enumValue => "idlEnumItem"
  | .iterable | .asyncIterable => "idlIterable"
  | .maplike => "idlMaplike"
  | .setlike => "idlSetlike"
  | .operation | .stringifier | .getter | .setter | .deleter => "idlMethod"

/-- What a link to a member says that it leads to. -/
def linkType (kind : Kind) : String := (DfnType.ofMember? kind).elim "idl" DfnType.name

end Member.Kind

end WebIdl
