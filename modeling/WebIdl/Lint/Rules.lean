import WebIdl.Block
import WebIdl.Catalog

/-!
# Checks on a document

The rules that definitions must keep beyond the grammar. They see the whole document, so that a
block can be at fault for what stands in another: an interface says where it is exposed, an optional
dictionary argument has a default, no container has a constant or a field twice, nothing is defined
twice, and a partial definition extends something.
-/

namespace WebIdl.Lint

/-- Which rules are checked. Syntax errors always count. -/
structure Checks where
  requireExposed : Bool
  dictArgDefault : Bool
  duplicateMember : Bool
  duplicateDefinition : Bool
  orphanPartial : Bool
deriving DecidableEq, Repr

namespace Checks

def all : Checks := ⟨true, true, true, true, true⟩

/-- The checks without the rule of a name. -/
def without? (checks : Checks) : String → Option Checks
  | "require_exposed" => some { checks with requireExposed := false }
  | "dict_arg_default" => some { checks with dictArgDefault := false }
  | "duplicate_member" => some { checks with duplicateMember := false }
  | "duplicate_definition" => some { checks with duplicateDefinition := false }
  | "orphan_partial" => some { checks with orphanPartial := false }
  | _ => none

end Checks

/-- What is wrong, and in which block. -/
structure Finding where
  block : Nat
  diagnostic : Diagnostic
deriving DecidableEq

namespace Finding

def error (block : Nat) (code message : String) (member : Option String) : Finding :=
  ⟨block,
    { Diagnostic.ofMessage .error message with
      code := some code, member := member, source := Diagnostic.engineSource }⟩

end Finding

def warning (code message : String) : Diagnostic :=
  { Diagnostic.ofMessage .warning message with
    code := some code, source := Diagnostic.engineSource }

/-! ### Syntax errors -/

def syntaxErrors (blocks : List Block) : List Finding :=
  blocks.zipIdx.flatMap fun (block, index) =>
    (block.diagnostics.find? (·.isError)).toList.map (⟨index, ·⟩)

/-! ### Exposure -/

/-- The extended attributes that settle where an interface is exposed. -/
def exposes (attr : ExtAttr) : Bool :=
  ["Exposed", "LegacyNoInterfaceObject", "NoInterfaceObject"].contains attr.name

/-- What a kind that has to be exposed is called, and its family. -/
def exposable? : Definition.Kind → Option (String × Definition.Family)
  | .interface => some ("Interfaces", .interface)
  | .namespace => some ("Namespaces", .namespace)
  | _ => none

def exposureMessage (noun name : String) : String :=
  noun ++ " must have `[Exposed]` extended attribute. To fix, add, for example, "
    ++ "`[Exposed=Window]`. Please also consider carefully whether `" ++ name
    ++ "` needs to be exposed on all of the globals it names."

/-- Definitions that neither they, their partial definitions nor their mixins expose. -/
def unexposed (catalog : Catalog) : List Finding :=
  catalog.fragments.filterMap fun fragment => do
    let definition := fragment.definition
    if definition.isPartial then none
    let (noun, family) ← exposable? definition.kind
    if (catalog.mergedExtAttrs definition.name family).any exposes then none
    return .error fragment.block "require-exposed" (exposureMessage noun definition.name) none

/-! ### Dictionary arguments -/

/-- The dictionary that a type leads to through nullability and typedefs, in at most `steps` names.
A chain of more names than there are definitions would go round in a circle. -/
def dictionaryWithin (catalog : Catalog) : Nat → IdlType → Option Definition
  | 0, _ => none
  | steps + 1, type => do
    let definition ← catalog.definition? (← type.named?)
    if definition.kind == .dictionary then return definition
    match definition.form with
    | .typedef _ type _ _ => dictionaryWithin catalog steps type
    | _ => none

def dictionaryBehind? (catalog : Catalog) (type : IdlType) : Option Definition :=
  dictionaryWithin catalog (catalog.fragments.length + 1) type

/-- A dictionary called `name`, or one that it inherits from in at most `steps` names, has a
required field. -/
def requiresWithin (catalog : Catalog) : Nat → String → Bool
  | 0, _ => false
  | steps + 1, name =>
    (catalog.mergedMembers name .dictionary).any (·.isRequired)
      || ((catalog.base? name (some .dictionary)).bind (·.definition.parentName?)).any
        (requiresWithin catalog steps)

def hasRequiredFields (catalog : Catalog) (dictionary : Definition) : Bool :=
  requiresWithin catalog (catalog.fragments.length + 1) dictionary.name

/-- The argument lists of extended attributes, with what they belong to. -/
def attrArguments (owner : String) (attrs : Option ExtAttrList) : List (String × ArgumentList) :=
  (attrs.elim [] (·.items)).filterMap fun attr =>
    attr.arguments.map fun list => (owner ++ " [" ++ attr.name ++ "]", list)

/-- A member with its container. -/
def memberOwner (member : Member) : String :=
  match member.name? with
  | some name => member.scope ++ "." ++ name
  | none => member.scope

/-- The argument lists of a definition, with what they belong to. -/
def argumentLists (definition : Definition) : List (String × ArgumentList) :=
  attrArguments definition.name definition.attrs
    ++ (match definition.form with
      | .callback _ _ _ _ list _ => [(definition.name, list)]
      | _ => [])
    ++ definition.members.flatMap fun member =>
      attrArguments (memberOwner member) member.attrs
        ++ member.form.arguments?.toList.map (memberOwner member, ·)

def dictArgMessage (catalog : Catalog) (owner : String) (argument : Argument)
    (dictionary : Definition) : String :=
  if hasRequiredFields catalog dictionary then
    "Optional dictionary argument `" ++ argument.name ++ "` refers to dictionary `"
      ++ dictionary.name ++ "`, which has required fields. Make the argument required, "
      ++ "or make the fields optional."
  else
    "Optional dictionary arguments must have a default value of `\x7b\x7d`. Add `= \x7b\x7d` "
      ++ "to argument `" ++ argument.name ++ "` of `" ++ owner ++ "`."

/-- Optional arguments without a default that are dictionaries. -/
def dictArguments (catalog : Catalog) : List Finding :=
  catalog.fragments.flatMap fun fragment =>
    (argumentLists fragment.definition).flatMap fun (owner, list) =>
      list.arguments.filterMap fun argument => do
        if !argument.isOptional || argument.default.isSome then none
        let dictionary ← dictionaryBehind? catalog argument.type
        return .error fragment.block "dict-arg-default"
          (dictArgMessage catalog owner argument dictionary) (some owner)

/-! ### Repeated members -/

/-- The constants and fields of a member list, by name. -/
def countedName? (member : Member) : Option String :=
  if member.kind == .constant || member.kind == .field then member.name? else none

/-- The names with their blocks that a list of names has more than once, at each repetition. -/
def repeats : List String → List (Nat × String) → List (Nat × String)
  | _, [] => []
  | seen, (block, name) :: rest =>
    if seen.contains name then (block, name) :: repeats seen rest
    else repeats (name :: seen) rest

/-- The constants and fields in the merged view of a container, with their blocks. -/
def counted (catalog : Catalog) (name : String) (family : Definition.Family) :
    List (Nat × String) :=
  (catalog.merged name family).flatMap fun part =>
    part.definition.members.filterMap fun member => (countedName? member).map (part.block, ·)

/-- The containers that have a base, each once. -/
def containers (catalog : Catalog) : List (String × Definition.Family) :=
  (catalog.fragments.filterMap fun fragment => do
    let family ← fragment.definition.family
    if fragment.definition.isPartial then none
    return (fragment.name, family)).eraseDups

def duplicateMembers (catalog : Catalog) : List Finding :=
  (containers catalog).flatMap fun (container, family) =>
    (repeats [] (counted catalog container family)).map fun (block, name) =>
      .error block "duplicate-member"
        ("`" ++ container ++ "` declares member `" ++ name ++ "` more than once.") (some name)

/-! ### Repeated definitions -/

/-- The base definitions of names that earlier ones have, with the block of the first. -/
def redefinitions : List (String × Nat) → List Fragment → List (Fragment × Nat)
  | _, [] => []
  | first, fragment :: rest =>
    if fragment.definition.isBase then
      match first.lookup fragment.name with
      | some block => (fragment, block) :: redefinitions first rest
      | none => redefinitions ((fragment.name, fragment.block) :: first) rest
    else redefinitions first rest

def duplicateDefinitions (catalog : Catalog) : List Finding :=
  (redefinitions [] catalog.fragments).map fun (fragment, first) =>
    .error fragment.block "duplicate-definition"
      ("`" ++ fragment.name ++ "` is already defined in " ++ blockName first
        ++ ". Use a partial definition to extend it.") none

/-! ### Orphans -/

/-- Partial definitions that extend nothing in the document and nothing that is known otherwise. -/
def orphanWarnings (catalog : Catalog) (known : Nat → String → Bool) : List Diagnostic :=
  (catalog.orphans.filter fun fragment => !known fragment.block fragment.name).map fun fragment =>
    warning "orphan-partial" ("Partial definition `" ++ fragment.name ++ "` in "
      ++ blockName fragment.block ++ " does not extend any known definition.")

end WebIdl.Lint
