import WebIdl.Proofs.Syntax.WellFormed

/-!
# The shape of what is read

What the code that walks over definitions relies on, and the types of the trees leave open in part.
Every node has brackets, words and separators of its own, so its shape is said of the node alone,
and of a definition with all nodes in it, at whatever depth.

* `Node`, `Definition.nodes` — the lists, extended attributes, arguments and types that are nested
  in a definition.
* `Node.Shaped` — the shape of one of them, whatever is nested in it.
* `Member.Shaped`, `Definition.Shaped` — the shape of members and of definitions.
* `Member.Form.Shaped.of` — what is left to be shown of the form of a member.
-/

namespace WebIdl

/-! ### Separated lists -/

/-- The word stands between each two of the items, which makes one separator fewer than items. -/
structure Separated.By {α : Type} (word : String) (xs : Separated α) : Prop where
  length_items : xs.items.length = xs.separators.length + 1
  separators_are : ∀ token ∈ xs.separators, token.is word

/-! ### Literals and values -/

/-- The kind of a literal is that of its token, and what is empty has its brackets. -/
def Literal.Shaped : Literal → Prop
  | .scalar kind token => Kind.ofToken? token = some kind
  | .emptySequence opening closing => opening.is "[" ∧ closing.is "]"
  | .emptyDictionary opening closing => opening.is "\x7b" ∧ closing.is "\x7d"

def Default.Shaped (default : Default) : Prop := default.assign.is "=" ∧ default.value.Shaped

namespace ExtAttr

/-- The kind of token that a value of one token is. -/
def ValueKind.Takes : ValueKind → Token → Prop
  | .identifier, token => token.kind = .identifier
  | .string, token => token.kind = .string
  | .integer, token => token.kind = .integer
  | .decimal, token => token.kind = .decimal
  | .wildcard, token => token.is "*"

def Value.Shaped : Value → Prop
  | .scalar kind token => kind.Takes token
  | .list opening items closing =>
    opening.is "(" ∧ items.By "," ∧ (∀ token ∈ items.items, Grammar.isListed token) ∧
      closing.is ")"

def Assignment.Shaped (a : Assignment) : Prop := a.assign.is "=" ∧ a.value.Shaped

end ExtAttr

/-! ### The nested nodes -/

/-- What can be nested in a definition. -/
inductive Node where
  | attrs (list : ExtAttrList)
  | attr (attr : ExtAttr)
  | arguments (list : ArgumentList)
  | argument (argument : Argument)
  | type (type : IdlType)

mutual

/-- The list and all that is nested in it, at whatever depth. -/
def ExtAttrList.nodes : ExtAttrList → List Node
  | list@(.mk _ items _) => .attrs list :: extAttrNodes items

def extAttrNodes : Separated ExtAttr → List Node
  | .last attr => attr.nodes
  | .cons attr _ rest => attr.nodes ++ extAttrNodes rest

def ExtAttr.nodes : ExtAttr → List Node
  | attr@(.mk _ _ none) => [.attr attr]
  | attr@(.mk _ _ (some arguments)) => .attr attr :: arguments.nodes

def ArgumentList.nodes : ArgumentList → List Node
  | list@(.mk _ none _) => [.arguments list]
  | list@(.mk _ (some items) _) => .arguments list :: argumentNodes items

def argumentNodes : Separated Argument → List Node
  | .last argument => argument.nodes
  | .cons argument _ rest => argument.nodes ++ argumentNodes rest

def Argument.nodes : Argument → List Node
  | argument@(.required none type _ _) => .argument argument :: type.nodes
  | argument@(.required (some attrs) type _ _) => .argument argument :: (attrs.nodes ++ type.nodes)
  | argument@(.optional none _ type _ _) => .argument argument :: type.nodes
  | argument@(.optional (some attrs) _ type _ _) =>
    .argument argument :: (attrs.nodes ++ type.nodes)

def IdlType.nodes : IdlType → List Node
  | type@(.mk none form _) => .type type :: form.nodes
  | type@(.mk (some attrs) form _) => .type type :: (attrs.nodes ++ form.nodes)

def TypeForm.nodes : TypeForm → List Node
  | .named _ _ => []
  | .generic _ _ arguments _ => typeNodes arguments
  | .union _ first _ rest _ => first.nodes ++ typeNodes rest

def typeNodes : Separated IdlType → List Node
  | .last type => type.nodes
  | .cons type _ rest => type.nodes ++ typeNodes rest

end

theorem extAttrNodes_eq (items : Separated ExtAttr) :
    extAttrNodes items = items.items.flatMap (·.nodes) := by
  induction items with
  | last attr => simp [extAttrNodes, Separated.items]
  | cons attr separator rest ih => simp [extAttrNodes, Separated.items, ih]

theorem argumentNodes_eq (items : Separated Argument) :
    argumentNodes items = items.items.flatMap (·.nodes) := by
  induction items with
  | last argument => simp [argumentNodes, Separated.items]
  | cons argument separator rest ih => simp [argumentNodes, Separated.items, ih]

theorem typeNodes_eq (types : Separated IdlType) :
    typeNodes types = types.items.flatMap (·.nodes) := by
  induction types with
  | last type => simp [typeNodes, Separated.items]
  | cons type separator rest ih => simp [typeNodes, Separated.items, ih]

theorem ExtAttrList.nodes_mk (opening : Token) (items : Separated ExtAttr) (closing : Token) :
    (ExtAttrList.mk opening items closing).nodes =
      .attrs (.mk opening items closing) :: items.items.flatMap (·.nodes) := by
  rw [ExtAttrList.nodes, extAttrNodes_eq]

theorem ExtAttr.nodes_mk (name : Token) (assignment : Option ExtAttr.Assignment)
    (arguments : Option ArgumentList) :
    (ExtAttr.mk name assignment arguments).nodes =
      .attr (.mk name assignment arguments) :: arguments.elim [] (·.nodes) := by
  cases arguments <;> simp [ExtAttr.nodes]

theorem ArgumentList.nodes_mk (opening : Token) (items : Option (Separated Argument))
    (closing : Token) :
    (ArgumentList.mk opening items closing).nodes =
      .arguments (.mk opening items closing) ::
        items.elim [] fun list => list.items.flatMap (·.nodes) := by
  cases items <;> simp [ArgumentList.nodes, argumentNodes_eq]

theorem Argument.nodes_eq (argument : Argument) :
    argument.nodes =
      .argument argument :: (argument.attrs.elim [] (·.nodes) ++ argument.type.nodes) := by
  cases argument with
  | required attrs => cases attrs <;> simp [Argument.nodes, Argument.attrs, Argument.type]
  | optional attrs => cases attrs <;> simp [Argument.nodes, Argument.attrs, Argument.type]

theorem IdlType.nodes_mk (attrs : Option ExtAttrList) (form : TypeForm)
    (nullable : Option Token) :
    (IdlType.mk attrs form nullable).nodes =
      .type (.mk attrs form nullable) :: (attrs.elim [] (·.nodes) ++ form.nodes) := by
  cases attrs <;> simp [IdlType.nodes]

/-! ### The shape of one node -/

def ExtAttrList.Shaped : ExtAttrList → Prop
  | .mk opening items closing => opening.is "[" ∧ items.By "," ∧ closing.is "]"

def ExtAttr.Shaped : ExtAttr → Prop
  | .mk name assignment _ => name.kind = .identifier ∧ ∀ a ∈ assignment, a.Shaped

def ArgumentList.Shaped : ArgumentList → Prop
  | .mk opening items closing =>
    opening.is "(" ∧ (∀ list ∈ items, list.By ",") ∧ closing.is ")"

/-- An argument with a default is one that callers may leave out, and not one that they may give any
number of times. -/
structure Argument.Shaped (argument : Argument) : Prop where
  kind_name : argument.nameToken.kind = .identifier
  optional_is : ∀ token ∈ argument.optionalToken, token.is "optional"
  variadic_is : ∀ token ∈ argument.variadicToken, token.is "..."
  optional_of_default : argument.default.isSome = true →
    argument.isOptional = true ∧ argument.isVariadic = false
  default_shaped : ∀ default ∈ argument.default, default.Shaped

theorem Argument.shaped_required {attrs : Option ExtAttrList} {type : IdlType}
    {variadic : Option Token} {name : Token} (hname : name.kind = .identifier)
    (hvariadic : ∀ token ∈ variadic, token.is "...") :
    (Argument.required attrs type variadic name).Shaped where
  kind_name := hname
  optional_is := by simp [optionalToken]
  variadic_is := hvariadic
  optional_of_default := by simp [Argument.default]
  default_shaped := by simp [Argument.default]

theorem Argument.shaped_optional {attrs : Option ExtAttrList} {keyword : Token} {type : IdlType}
    {name : Token} {default : Option Default} (hkeyword : keyword.is "optional")
    (hname : name.kind = .identifier) (hdefault : ∀ d ∈ default, d.Shaped) :
    (Argument.optional attrs keyword type name default).Shaped where
  kind_name := hname
  optional_is := by simpa [optionalToken] using hkeyword
  variadic_is := by simp [variadicToken]
  optional_of_default := fun _ => ⟨rfl, rfl⟩
  default_shaped := hdefault

/-- The builtin types of several words. -/
def TypeForm.builtins : List (List String) :=
  [["unsigned", "short"], ["unsigned", "long"], ["unsigned", "long", "long"], ["long", "long"],
    ["unrestricted", "float"], ["unrestricted", "double"]]

/-- A name has one word unless it is builtin, and a union has two alternatives or more. -/
def TypeForm.Shaped : TypeForm → Prop
  | .named first rest =>
    first.kind = .identifier ∧ (rest = [] ∨ (first :: rest).map (·.text) ∈ builtins)
  | .generic name opening arguments closing =>
    name.kind = .identifier ∧ Vocabulary.isGeneric name.text ∧ opening.is "<" ∧
      arguments.By "," ∧ closing.is ">"
  | .union opening first separator rest closing =>
    opening.is "(" ∧ (Separated.cons first separator rest).By "or" ∧
      2 ≤ (Separated.cons first separator rest).items.length ∧ closing.is ")"

def IdlType.Shaped : IdlType → Prop
  | .mk _ form nullable => form.Shaped ∧ ∀ mark ∈ nullable, mark.is "?"

/-- The shape of a node, whatever is nested in it. -/
def Node.Shaped : Node → Prop
  | .attrs list => list.Shaped
  | .attr a => a.Shaped
  | .arguments list => list.Shaped
  | .argument a => a.Shaped
  | .type t => t.Shaped

/-- All of these have their shape. -/
def AllShaped (nodes : List Node) : Prop := ∀ node ∈ nodes, node.Shaped

@[simp] theorem allShaped_nil : AllShaped [] := nofun

@[simp] theorem allShaped_cons {node : Node} {nodes : List Node} :
    AllShaped (node :: nodes) ↔ node.Shaped ∧ AllShaped nodes := List.forall_mem_cons

@[simp] theorem allShaped_append {before after : List Node} :
    AllShaped (before ++ after) ↔ AllShaped before ∧ AllShaped after := List.forall_mem_append

@[simp] theorem allShaped_flatMap {α : Type} {xs : List α} {f : α → List Node} :
    AllShaped (xs.flatMap f) ↔ ∀ a ∈ xs, AllShaped (f a) := List.forall_mem_flatMap

/-! ### Members -/

namespace Member

namespace Kind

/-- The operations: their kinds with the words before their types. -/
def operations : List (Kind × List String) :=
  [(.operation, []), (.operation, ["static"]), (.stringifier, ["stringifier"]),
    (.stringifier, ["static", "stringifier"]), (.getter, ["getter"]), (.setter, ["setter"]),
    (.deleter, ["deleter"])]

/-- The declarations: their kinds with the words before them and the keyword. -/
def declarations : List (Kind × List String × String) :=
  [(.iterable, [], "iterable"), (.maplike, [], "maplike"), (.setlike, [], "setlike"),
    (.asyncIterable, ["async"], "iterable"), (.maplike, ["readonly"], "maplike"),
    (.setlike, ["readonly"], "setlike")]

/-- How many type arguments the declarations of a kind take. -/
def typeCounts : Kind → List Nat
  | .maplike => [2]
  | .setlike => [1]
  | .iterable | .asyncIterable => [1, 2]
  | _ => []

theorem isOperation_of_mem_special {kind : Kind} (h : kind ∈ [.getter, .setter, .deleter]) :
    kind.isOperation = true := by
  cases kind with
  | getter | setter | deleter => rfl
  | _ => simp at h

end Kind

namespace Form

/-- What members of this kind consist of. -/
def IsOf (kind : Kind) : Form → Prop
  | .attribute _ keyword _ _ _ => kind = .attribute ∧ keyword.is "attribute"
  | .operation modifiers _ _ _ _ => (kind, modifiers.map (·.text)) ∈ Kind.operations
  | .stringifier keyword _ => kind = .stringifier ∧ keyword.is "stringifier"
  | .constructor keyword _ _ => kind = .constructor ∧ keyword.is "constructor"
  | .constant keyword _ _ _ _ _ => kind = .constant ∧ keyword.is "const"
  | .field .. => kind = .field
  | .enumValue .. => kind = .enumValue
  | .declaration modifiers keyword _ _ _ _ _ =>
    (kind, modifiers.map (·.text), keyword.text) ∈ Kind.declarations

/-- The keyword alone is the whole member. -/
def isBare : Form → Bool
  | .stringifier .. => true
  | _ => false

/-- The type arguments of a declaration. -/
def typeArguments? : Form → Option (Separated IdlType)
  | .declaration _ _ _ types _ _ _ => some types
  | _ => none

/-- The token that stands for an identifier. -/
def identifier? : Form → Option Token
  | .attribute _ _ _ name _ | .constant _ _ name _ _ _ | .field _ _ name _ _ => some name
  | .operation _ _ name _ _ => name
  | _ => none

/-- The tokens besides those of the nested nodes and those that tell the kind. -/
def Marked : Form → Prop
  | .attribute modifiers _ _ _ semicolon =>
    (modifiers.map (·.text)).Sublist ["static", "stringifier", "inherit", "readonly"] ∧
      semicolon.is ";"
  | .operation _ _ _ _ semicolon | .stringifier _ semicolon | .constructor _ _ semicolon =>
    semicolon.is ";"
  | .constant _ _ _ assign value semicolon => assign.is "=" ∧ value.Shaped ∧ semicolon.is ";"
  | .field required _ _ default semicolon =>
    (∀ token ∈ required, token.is "required") ∧ (∀ d ∈ default, d.Shaped) ∧ semicolon.is ";"
  | .enumValue value separator => value.kind = .string ∧ ∀ token ∈ separator, token.is ","
  | .declaration _ _ opening types closing _ semicolon =>
    opening.is "<" ∧ types.By "," ∧ closing.is ">" ∧ semicolon.is ";"

/-- The nodes in the form, at whatever depth. -/
def nodes : Form → List Node
  | .attribute _ _ type _ _ | .constant _ type _ _ _ _ | .field _ type _ _ _ => type.nodes
  | .operation _ type _ arguments _ => type.nodes ++ arguments.nodes
  | .constructor _ arguments _ => arguments.nodes
  | .stringifier .. | .enumValue .. => []
  | .declaration _ _ _ types _ arguments _ => typeNodes types ++ arguments.elim [] (·.nodes)

end Form

def nodes (member : Member) : List Node := member.attrs.elim [] (·.nodes) ++ member.form.nodes

namespace Form

/-- The shape of a member of a definition of kind `container`. -/
structure Shaped (container : Definition.Kind) (form : Form) : Prop where
  /-- Dictionaries have fields, enumerations have values, and nothing else has either. -/
  belongs : form.belongs container = true
  isOf_kind : form.IsOf form.kind
  /-- Namespaces have no special operations. -/
  kind_of_namespace : container = .namespace → form.kind ∉ [.getter, .setter, .deleter]
  /-- Of all that is called like an operation, the bare stringifier alone has no type. -/
  type?_eq_none_iff : form.kind.isOperation = true → (form.type? = none ↔ form.isBare = true)
  bare : form.isBare = true →
    form.kind = .stringifier ∧ form.nameToken? = none ∧ form.arguments? = none
  typeCount : ∀ types ∈ form.typeArguments?, types.items.length ∈ form.kind.typeCounts
  arguments_of_declaration : form.typeArguments?.isSome = true → form.arguments?.isSome = true →
    form.kind = .asyncIterable
  default_of_required : form.isRequired = true → form.value? = none
  kind_identifier : ∀ name ∈ form.identifier?, name.kind = .identifier
  marked : form.Marked

/-- What is asked of operations, fields and declarations only. -/
def Restricted (container : Definition.Kind) : Form → Prop
  | .operation modifiers _ _ _ _ => container = .namespace →
    Kind.ofModifiers modifiers ∉ [.getter, .setter, .deleter]
  | .field required _ _ default _ => required.isSome = true → default = none
  | .declaration modifiers keyword _ types _ arguments _ =>
    types.items.length ∈ (Kind.ofDeclaration modifiers keyword).typeCounts ∧
      (arguments.isSome = true → Kind.ofDeclaration modifiers keyword = .asyncIterable)
  | _ => True

/-- Declarations are not called like operations. -/
theorem isOperation_ofDeclaration (modifiers : List Token) (keyword : Token) :
    (Kind.ofDeclaration modifiers keyword).isOperation = false := by
  unfold Kind.ofDeclaration
  repeat' split
  all_goals rfl

theorem kind_identifier_of_eq_none {form : Form} (h : form.identifier? = none) :
    ∀ name ∈ form.identifier?, name.kind = .identifier := by
  simp [h]

theorem Shaped.of {container : Definition.Kind} {form : Form}
    (belongs : form.belongs container = true) (isOf_kind : form.IsOf form.kind)
    (restricted : form.Restricted container)
    (kind_identifier : ∀ name ∈ form.identifier?, name.kind = .identifier)
    (marked : form.Marked) : form.Shaped container where
  belongs := belongs
  isOf_kind := isOf_kind
  kind_of_namespace := by
    cases form with
    | operation => exact restricted
    | declaration modifiers keyword =>
      intro _ hspecial
      have hoperation := Kind.isOperation_of_mem_special hspecial
      rw [Form.kind, isOperation_ofDeclaration] at hoperation
      cases hoperation
    | _ => simp [Form.kind]
  type?_eq_none_iff := by
    cases form with
    | declaration modifiers keyword =>
      intro hoperation
      rw [Form.kind, isOperation_ofDeclaration] at hoperation
      cases hoperation
    | _ => simp [Form.kind, Kind.isOperation, Form.type?, Form.isBare]
  bare := by
    cases form <;> simp [Form.isBare, Form.kind, Form.nameToken?, Form.arguments?]
  typeCount := by
    cases form with
    | declaration =>
      intro types htypes
      obtain rfl := Option.some.inj htypes
      exact restricted.1
    | _ => exact nofun
  arguments_of_declaration := by
    cases form with
    | declaration => exact fun _ => restricted.2
    | _ => exact nofun
  default_of_required := by
    cases form with
    | field required _ _ default =>
      intro hrequired
      exact Option.map_eq_none_iff.mpr (restricted hrequired)
    | _ => exact nofun
  kind_identifier := kind_identifier
  marked := marked

end Form

/-- The shape of a member of a definition of this kind and name. -/
structure Shaped (container : Definition.Kind) (scope : String) (member : Member) : Prop where
  scope_eq : member.scope = scope
  form : member.form.Shaped container

end Member

/-! ### Definitions -/

namespace Definition

/-- The words that definitions of a kind start with, after `partial`. -/
def Kind.words : Kind → List String
  | .interface => ["interface"]
  | .interfaceMixin => ["interface", "mixin"]
  | .callbackInterface => ["callback", "interface"]
  | .namespace => ["namespace"]
  | .dictionary => ["dictionary"]
  | .enum => ["enum"]
  | .typedef => ["typedef"]
  | .callback => ["callback"]
  | .includes => []

/-- The kinds that a partial definition can be of. -/
def Kind.extensible : List Kind := [.interface, .interfaceMixin, .namespace, .dictionary]

namespace Form

/-- What definitions of this kind consist of. -/
def IsOf (kind : Kind) : Form → Prop
  | .container .. => kind ∉ [.typedef, .callback, .includes]
  | .typedef .. => kind = .typedef
  | .callback .. => kind = .callback
  | .includes .. => kind = .includes

/-- The tokens besides those of the members and the nested nodes and those that tell the kind. -/
def Marked : Form → Prop
  | .container _ _ parent body =>
    (∀ p ∈ parent, p.colon.is ":" ∧ p.name.kind = .identifier) ∧ body.opening.is "\x7b" ∧
      body.closing.is "\x7d" ∧ body.semicolon.is ";"
  | .typedef _ _ _ semicolon => semicolon.is ";"
  | .callback _ _ assign _ _ semicolon => assign.is "=" ∧ semicolon.is ";"
  | .includes _ keyword mixin semicolon =>
    keyword.is "includes" ∧ mixin.kind = .identifier ∧ semicolon.is ";"

/-- The nodes in the form and in its members, at whatever depth. -/
def nodes : Form → List Node
  | .container _ _ _ body => body.members.flatMap (·.nodes)
  | .typedef _ type _ _ => type.nodes
  | .callback _ _ _ result arguments _ => result.nodes ++ arguments.nodes
  | .includes .. => []

/-- The shape of a definition without its extended attributes. -/
structure Shaped (form : Form) : Prop where
  isOf_kind : form.IsOf form.kind
  keywords_eq : form.keywords.map (·.text) =
    (if form.isPartial = true then ["partial"] else []) ++ form.kind.words
  kind_name : form.nameToken.kind = .identifier
  /-- Only what can be merged is partial, and nothing that is partial inherits. -/
  extensible_of_isPartial : form.isPartial = true →
    form.kind ∈ Kind.extensible ∧ form.parent? = none
  /-- An enumeration inherits nothing; it has values, and commas between them. -/
  separated_of_enum : form.kind = .enum → form.parent? = none ∧ form.members ≠ [] ∧
    ∀ member ∈ form.members.dropLast, member.form.hasSeparator = true
  marked : form.Marked
  members : ∀ member ∈ form.members, member.Shaped form.kind form.nameToken.name

/-- What is left to be shown of a form without braces. -/
theorem Shaped.of_members_eq_nil {form : Form} (members : form.members = [])
    (isPartial : form.isPartial = false) (kind_ne : form.kind ≠ .enum)
    (isOf_kind : form.IsOf form.kind) (keywords_eq : form.keywords.map (·.text) = form.kind.words)
    (kind_name : form.nameToken.kind = .identifier) (marked : form.Marked) : form.Shaped where
  isOf_kind := isOf_kind
  keywords_eq := by simp [isPartial, keywords_eq]
  kind_name := kind_name
  extensible_of_isPartial := by simp [isPartial]
  separated_of_enum := fun h => absurd h kind_ne
  marked := marked
  members := by simp [members]

end Form

/-- All nodes in a definition, at whatever depth. -/
def nodes (d : Definition) : List Node := d.attrs.elim [] (·.nodes) ++ d.form.nodes

/-- The shape of a definition and of all that is in it. -/
structure Shaped (d : Definition) : Prop where
  form : d.form.Shaped
  nodes : AllShaped d.nodes

end Definition

end WebIdl
