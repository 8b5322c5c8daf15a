import WebIdl.Syntax.Definition

/-!
# The catalog of definitions

All definitions of a document in order, block by block. Nothing is merged when it is entered: the
positions of partial definitions and the includes statements are noted beside the fragments, and
what a name amounts to, over its base, its partial definitions and the mixins it includes, is put
together when it is asked for. Names are matched exactly.
-/

namespace WebIdl

/-- A definition and where it comes from. -/
structure Fragment where
  block : Nat
  /-- The position of the definition in its block. -/
  index : Nat
  definition : Definition

namespace Fragment

def name (fragment : Fragment) : String := fragment.definition.name

end Fragment

/-- An includes statement: the interface takes in the mixin. -/
structure Inclusion where
  target : String
  mixin : String
deriving DecidableEq, Repr

structure Catalog where
  fragments : List Fragment
  /-- The names that partial definitions extend, with their positions among the fragments. -/
  extensions : List (String × Nat)
  inclusions : List Inclusion

namespace Catalog

def empty : Catalog := ⟨[], [], []⟩

/-- Enters one definition at the end. -/
def insert (catalog : Catalog) (fragment : Fragment) : Catalog :=
  let definition := fragment.definition
  { fragments := catalog.fragments ++ [fragment]
    extensions :=
      if definition.isPartial then
        catalog.extensions ++ [(definition.name, catalog.fragments.length)]
      else catalog.extensions
    inclusions :=
      match definition.mixinName? with
      | some mixin => catalog.inclusions ++ [⟨definition.name, mixin⟩]
      | none => catalog.inclusions }

/-- Enters the definitions of a block. -/
def register (catalog : Catalog) (block : Nat) (definitions : List Definition) : Catalog :=
  definitions.zipIdx.foldl
    (fun catalog (definition, index) => catalog.insert ⟨block, index, definition⟩) catalog

/-- The catalog of blocks numbered from 0. -/
def ofBlocks (blocks : List (List Definition)) : Catalog :=
  blocks.zipIdx.foldl (fun c (definitions, block) => c.register block definitions) empty

/-! ### Looking up definitions -/

/-- The first base definition of a name, of any family or of one. -/
def base? (catalog : Catalog) (name : String) (family : Option Definition.Family) :
    Option Fragment :=
  catalog.fragments.find? fun f =>
    f.definition.isBase && f.name == name
      && (match family with
        | some family => f.definition.family == some family
        | none => true)

/-- The first base definition of a name. -/
def definition? (catalog : Catalog) (name : String) : Option Definition :=
  (catalog.base? name none).map (·.definition)

/-- The first base definition of a name without regard to case. -/
def definitionIgnoringCase? (catalog : Catalog) (name : String) : Option Definition :=
  let key := Text.lower name
  (catalog.fragments.find? fun f => f.definition.isBase && f.definition.key == key).map
    (·.definition)

/-- The partial definitions that extend a name in a family, in order. -/
def partials (catalog : Catalog) (name : String) (family : Definition.Family) : List Fragment :=
  ((catalog.extensions.filter (·.1 == name)).filterMap fun (_, position) =>
    catalog.fragments[position]?).filter fun f => f.definition.family == some family

/-- The mixins that an interface takes in, each at its first inclusion. -/
def includedMixins (catalog : Catalog) (target : String) : List String :=
  ((catalog.inclusions.filter (·.target == target)).map (·.mixin)).eraseDups

/-! ### Merged views -/

/-- The base of a name in a family, and then its partial definitions. -/
def ownFragments (catalog : Catalog) (name : String) (family : Definition.Family) :
    List Fragment :=
  (catalog.base? name (some family)).toList ++ catalog.partials name family

/-- The fragments of a name, and, for interfaces and namespaces, those of the mixins it takes
in. -/
def merged (catalog : Catalog) (name : String) (family : Definition.Family) : List Fragment :=
  catalog.ownFragments name family ++
    match family with
    | .interface | .namespace =>
      (catalog.includedMixins name).flatMap fun mixin => catalog.ownFragments mixin .mixin
    | .mixin | .dictionary => []

def mergedMembers (catalog : Catalog) (name : String) (family : Definition.Family) :
    List Member :=
  (catalog.merged name family).flatMap (·.definition.members)

def mergedExtAttrs (catalog : Catalog) (name : String) (family : Definition.Family) :
    List ExtAttr :=
  (catalog.merged name family).flatMap fun f => f.definition.attrs.elim [] (·.items)

/-- The family of the first fragment of a name that has one. -/
def family? (catalog : Catalog) (name : String) : Option Definition.Family :=
  (catalog.fragments.filter (·.name == name)).findSome? (·.definition.family)

/-- The first member of a name in a merged view. A name without a family may be an enumeration, of
which the members are its values. -/
def member? (catalog : Catalog) (scope name : String) : Option Member :=
  match catalog.family? scope with
  | some family => (catalog.mergedMembers scope family).find? (·.name? == some name)
  | none =>
    ((catalog.fragments.filter fun f => f.name == scope && f.definition.kind == .enum).flatMap
      (·.definition.members)).find? (·.name? == some name)

/-- The partial definitions that no base of their family is there for. -/
def orphans (catalog : Catalog) : List Fragment :=
  (catalog.extensions.filterMap fun (_, position) => catalog.fragments[position]?).filter fun f =>
    match f.definition.family with
    | some family => (catalog.base? f.name (some family)).isNone
    | none => true

/-- The numbers of a list without those that repeat the one before them. -/
def withoutRuns : List Nat → List Nat
  | [] => []
  | [a] => [a]
  | a :: b :: rest => if a = b then withoutRuns (b :: rest) else a :: withoutRuns (b :: rest)

/-- The blocks of the fragments in order, each once for every run of fragments. -/
def blocks (catalog : Catalog) : List Nat := withoutRuns (catalog.fragments.map (·.block))

end Catalog

/-- How messages refer to a block. -/
def blockName (block : Nat) : String := "block #" ++ toString block

end WebIdl
