import WebIdl.Syntax.Definition

/-!
# Replacing the tokens of a definition

`mapTokens f` puts `f token` in the place of every token of a node. Nothing else changes: the
constructors stay, and so do the kinds of literals and the scopes of members. Two nodes are the same
up to what `f` forgets when `mapTokens f` takes them to the same node.

* `Token.core`, `Token.unplaced` — a token without its trivia and its place, and without its place.
* `Token.Keeps` — `f` forgets neither the kind nor the text of a token, which is all that the
  grammar goes by.
* `IdlType.mapTokens_mk` and its likes — the functions over the nested nodes in terms of the maps of
  options and separated lists, in which they cannot be defined.
* `Definition.mapTokens_id` — a definition whose tokens are all left alone is left alone.
-/

namespace WebIdl

/-! ### What is forgotten of a token -/

namespace Token

/-- The kind and the text of a token, with nothing before it and at no place. -/
def core (token : Token) : Token := { token with trivia := "", start := 0 }

/-- A token at no place. -/
def unplaced (token : Token) : Token := { token with start := 0 }

/-- Every token keeps its kind and its text. -/
structure Keeps (f : Token → Token) : Prop where
  kind (token : Token) : (f token).kind = token.kind
  text (token : Token) : (f token).text = token.text

theorem keeps_id : Keeps id := ⟨fun _ => rfl, fun _ => rfl⟩

theorem keeps_core : Keeps core := ⟨fun _ => rfl, fun _ => rfl⟩

theorem keeps_unplaced : Keeps unplaced := ⟨fun _ => rfl, fun _ => rfl⟩

namespace Keeps

variable {f : Token → Token} (hf : Keeps f) {t u : Token} (h : f t = f u)

include hf h

theorem kind_eq : t.kind = u.kind := by rw [← hf.kind t, h, hf.kind]

theorem text_eq : t.text = u.text := by rw [← hf.text t, h, hf.text]

theorem is_eq (word : String) : t.is word = u.is word := by
  rw [Token.is, Token.is, hf.kind_eq h, hf.text_eq h]

theorem name_eq : t.name = u.name := by rw [Token.name, Token.name, hf.text_eq h]

end Keeps

end Token

/-! ### Literals and values -/

def Separated.mapTokens {α β : Type} (f : Token → Token) (g : α → β) : Separated α → Separated β
  | .last a => .last (g a)
  | .cons a separator rest => .cons (g a) (f separator) (rest.mapTokens f g)

@[simp] theorem Separated.length_separators_mapTokens {α β : Type} (f : Token → Token) (g : α → β)
    (items : Separated α) : (items.mapTokens f g).separators.length = items.separators.length := by
  induction items with
  | last a => rfl
  | cons a separator rest ih => simp [mapTokens, separators, ih]

def Literal.mapTokens (f : Token → Token) : Literal → Literal
  | .scalar kind token => .scalar kind (f token)
  | .emptySequence opening closing => .emptySequence (f opening) (f closing)
  | .emptyDictionary opening closing => .emptyDictionary (f opening) (f closing)

def Default.mapTokens (f : Token → Token) (default : Default) : Default :=
  ⟨f default.assign, default.value.mapTokens f⟩

def ExtAttr.Value.mapTokens (f : Token → Token) : ExtAttr.Value → ExtAttr.Value
  | .scalar kind token => .scalar kind (f token)
  | .list opening items closing => .list (f opening) (items.mapTokens f f) (f closing)

def ExtAttr.Assignment.mapTokens (f : Token → Token) (a : ExtAttr.Assignment) :
    ExtAttr.Assignment :=
  ⟨f a.assign, a.value.mapTokens f⟩

/-! ### The nested nodes -/

mutual

def ExtAttrList.mapTokens (f : Token → Token) : ExtAttrList → ExtAttrList
  | .mk opening items closing => .mk (f opening) (mapExtAttrs f items) (f closing)

def mapExtAttrs (f : Token → Token) : Separated ExtAttr → Separated ExtAttr
  | .last attr => .last (attr.mapTokens f)
  | .cons attr separator rest => .cons (attr.mapTokens f) (f separator) (mapExtAttrs f rest)

def ExtAttr.mapTokens (f : Token → Token) : ExtAttr → ExtAttr
  | .mk name assignment none => .mk (f name) (assignment.map (·.mapTokens f)) none
  | .mk name assignment (some arguments) =>
    .mk (f name) (assignment.map (·.mapTokens f)) (some (arguments.mapTokens f))

def ArgumentList.mapTokens (f : Token → Token) : ArgumentList → ArgumentList
  | .mk opening none closing => .mk (f opening) none (f closing)
  | .mk opening (some items) closing => .mk (f opening) (some (mapArguments f items)) (f closing)

def mapArguments (f : Token → Token) : Separated Argument → Separated Argument
  | .last argument => .last (argument.mapTokens f)
  | .cons argument separator rest =>
    .cons (argument.mapTokens f) (f separator) (mapArguments f rest)

def Argument.mapTokens (f : Token → Token) : Argument → Argument
  | .required none type variadic name =>
    .required none (type.mapTokens f) (variadic.map f) (f name)
  | .required (some attrs) type variadic name =>
    .required (some (attrs.mapTokens f)) (type.mapTokens f) (variadic.map f) (f name)
  | .optional none keyword type name default =>
    .optional none (f keyword) (type.mapTokens f) (f name) (default.map (·.mapTokens f))
  | .optional (some attrs) keyword type name default =>
    .optional (some (attrs.mapTokens f)) (f keyword) (type.mapTokens f) (f name)
      (default.map (·.mapTokens f))

def IdlType.mapTokens (f : Token → Token) : IdlType → IdlType
  | .mk none form nullable => .mk none (form.mapTokens f) (nullable.map f)
  | .mk (some attrs) form nullable =>
    .mk (some (attrs.mapTokens f)) (form.mapTokens f) (nullable.map f)

def TypeForm.mapTokens (f : Token → Token) : TypeForm → TypeForm
  | .named first rest => .named (f first) (rest.map f)
  | .generic name opening arguments closing =>
    .generic (f name) (f opening) (mapTypes f arguments) (f closing)
  | .union opening first separator rest closing =>
    .union (f opening) (first.mapTokens f) (f separator) (mapTypes f rest) (f closing)

def mapTypes (f : Token → Token) : Separated IdlType → Separated IdlType
  | .last type => .last (type.mapTokens f)
  | .cons type separator rest => .cons (type.mapTokens f) (f separator) (mapTypes f rest)

end

section Equations

variable (f : Token → Token)

theorem mapExtAttrs_eq (items : Separated ExtAttr) :
    mapExtAttrs f items = items.mapTokens f (·.mapTokens f) := by
  induction items with
  | last attr => simp [mapExtAttrs, Separated.mapTokens]
  | cons attr separator rest ih => simp [mapExtAttrs, Separated.mapTokens, ih]

theorem mapArguments_eq (items : Separated Argument) :
    mapArguments f items = items.mapTokens f (·.mapTokens f) := by
  induction items with
  | last argument => simp [mapArguments, Separated.mapTokens]
  | cons argument separator rest ih => simp [mapArguments, Separated.mapTokens, ih]

theorem mapTypes_eq (types : Separated IdlType) :
    mapTypes f types = types.mapTokens f (·.mapTokens f) := by
  induction types with
  | last type => simp [mapTypes, Separated.mapTokens]
  | cons type separator rest ih => simp [mapTypes, Separated.mapTokens, ih]

theorem ExtAttr.mapTokens_mk (name : Token) (assignment : Option ExtAttr.Assignment)
    (arguments : Option ArgumentList) :
    (ExtAttr.mk name assignment arguments).mapTokens f =
      .mk (f name) (assignment.map (·.mapTokens f)) (arguments.map (·.mapTokens f)) := by
  cases arguments <;> simp [ExtAttr.mapTokens]

theorem ArgumentList.mapTokens_mk (opening closing : Token) (items : Option (Separated Argument)) :
    (ArgumentList.mk opening items closing).mapTokens f =
      .mk (f opening) (items.map (·.mapTokens f (·.mapTokens f))) (f closing) := by
  cases items <;> simp [ArgumentList.mapTokens, mapArguments_eq]

theorem Argument.mapTokens_required (attrs : Option ExtAttrList) (type : IdlType)
    (variadic : Option Token) (name : Token) :
    (Argument.required attrs type variadic name).mapTokens f =
      .required (attrs.map (·.mapTokens f)) (type.mapTokens f) (variadic.map f) (f name) := by
  cases attrs <;> simp [Argument.mapTokens]

theorem Argument.mapTokens_optional (attrs : Option ExtAttrList) (keyword : Token)
    (type : IdlType) (name : Token) (default : Option Default) :
    (Argument.optional attrs keyword type name default).mapTokens f =
      .optional (attrs.map (·.mapTokens f)) (f keyword) (type.mapTokens f) (f name)
        (default.map (·.mapTokens f)) := by
  cases attrs <;> simp [Argument.mapTokens]

theorem IdlType.mapTokens_mk (attrs : Option ExtAttrList) (form : TypeForm)
    (nullable : Option Token) :
    (IdlType.mk attrs form nullable).mapTokens f =
      .mk (attrs.map (·.mapTokens f)) (form.mapTokens f) (nullable.map f) := by
  cases attrs <;> simp [IdlType.mapTokens]

end Equations

/-! ### Members and definitions -/

def Member.Form.mapTokens (f : Token → Token) : Member.Form → Member.Form
  | .attribute modifiers keyword type name semicolon =>
    .attribute (modifiers.map f) (f keyword) (type.mapTokens f) (f name) (f semicolon)
  | .operation modifiers type name arguments semicolon =>
    .operation (modifiers.map f) (type.mapTokens f) (name.map f) (arguments.mapTokens f)
      (f semicolon)
  | .stringifier keyword semicolon => .stringifier (f keyword) (f semicolon)
  | .constructor keyword arguments semicolon =>
    .constructor (f keyword) (arguments.mapTokens f) (f semicolon)
  | .constant keyword type name assign value semicolon =>
    .constant (f keyword) (type.mapTokens f) (f name) (f assign) (value.mapTokens f) (f semicolon)
  | .field required type name default semicolon =>
    .field (required.map f) (type.mapTokens f) (f name) (default.map (·.mapTokens f)) (f semicolon)
  | .enumValue value separator => .enumValue (f value) (separator.map f)
  | .declaration modifiers keyword opening types closing arguments semicolon =>
    .declaration (modifiers.map f) (f keyword) (f opening) (mapTypes f types) (f closing)
      (arguments.map (·.mapTokens f)) (f semicolon)

def Member.mapTokens (f : Token → Token) (member : Member) : Member :=
  { member with
    attrs := member.attrs.map (·.mapTokens f)
    form := member.form.mapTokens f }

namespace Definition

def Head.mapTokens (f : Token → Token) : Head → Head
  | .interface partialWord keyword => .interface (partialWord.map f) (f keyword)
  | .interfaceMixin partialWord keyword mixinWord =>
    .interfaceMixin (partialWord.map f) (f keyword) (f mixinWord)
  | .callbackInterface callbackWord keyword => .callbackInterface (f callbackWord) (f keyword)
  | .namespace partialWord keyword => .namespace (partialWord.map f) (f keyword)
  | .dictionary partialWord keyword => .dictionary (partialWord.map f) (f keyword)
  | .enum keyword => .enum (f keyword)

def Inheritance.mapTokens (f : Token → Token) (parent : Inheritance) : Inheritance :=
  ⟨f parent.colon, f parent.name⟩

def Body.mapTokens (f : Token → Token) (body : Body) : Body :=
  ⟨f body.opening, body.members.map (·.mapTokens f), f body.closing, f body.semicolon⟩

def Form.mapTokens (f : Token → Token) : Form → Form
  | .container head name parent body =>
    .container (head.mapTokens f) (f name) (parent.map (·.mapTokens f)) (body.mapTokens f)
  | .typedef keyword type name semicolon =>
    .typedef (f keyword) (type.mapTokens f) (f name) (f semicolon)
  | .callback keyword name assign result arguments semicolon =>
    .callback (f keyword) (f name) (f assign) (result.mapTokens f) (arguments.mapTokens f)
      (f semicolon)
  | .includes name keyword mixin semicolon => .includes (f name) (f keyword) (f mixin) (f semicolon)

def mapTokens (f : Token → Token) (definition : Definition) : Definition :=
  ⟨definition.attrs.map (·.mapTokens f), definition.form.mapTokens f⟩

@[simp] theorem Head.kind_mapTokens (f : Token → Token) (head : Head) :
    (head.mapTokens f).kind = head.kind := by
  cases head <;> rfl

@[simp] theorem Head.isPartial_mapTokens (f : Token → Token) (head : Head) :
    (head.mapTokens f).isPartial = head.isPartial := by
  cases head <;> simp [mapTokens, isPartial, partialWord]

end Definition

/-! ### Tokens that are left alone -/

@[simp] theorem Separated.mapTokens_id {α : Type} (items : Separated α) :
    items.mapTokens id id = items := by
  induction items with
  | last a => rfl
  | cons a separator rest ih => simp [mapTokens, ih]

@[simp] theorem Literal.mapTokens_id : Literal.mapTokens id = id := by
  funext l
  cases l <;> rfl

@[simp] theorem Default.mapTokens_id : Default.mapTokens id = id := by
  funext d
  simp [mapTokens]

@[simp] theorem ExtAttr.Value.mapTokens_id : ExtAttr.Value.mapTokens id = id := by
  funext value
  cases value <;> simp [mapTokens]

@[simp] theorem ExtAttr.Assignment.mapTokens_id : ExtAttr.Assignment.mapTokens id = id := by
  funext a
  simp [mapTokens]

mutual

theorem ExtAttrList.mapTokens_id : (attrs : ExtAttrList) → attrs.mapTokens id = attrs
  | .mk opening items closing => by simp [ExtAttrList.mapTokens, mapExtAttrs_id items]

theorem mapExtAttrs_id : (items : Separated ExtAttr) → mapExtAttrs id items = items
  | .last attr => by simp [mapExtAttrs, ExtAttr.mapTokens_id attr]
  | .cons attr separator rest => by
    simp [mapExtAttrs, ExtAttr.mapTokens_id attr, mapExtAttrs_id rest]

theorem ExtAttr.mapTokens_id : (attr : ExtAttr) → attr.mapTokens id = attr
  | .mk name assignment none => by simp [ExtAttr.mapTokens]
  | .mk name assignment (some arguments) => by
    simp [ExtAttr.mapTokens, ArgumentList.mapTokens_id arguments]

theorem ArgumentList.mapTokens_id : (arguments : ArgumentList) → arguments.mapTokens id = arguments
  | .mk opening none closing => by simp [ArgumentList.mapTokens]
  | .mk opening (some items) closing => by simp [ArgumentList.mapTokens, mapArguments_id items]

theorem mapArguments_id : (items : Separated Argument) → mapArguments id items = items
  | .last argument => by simp [mapArguments, Argument.mapTokens_id argument]
  | .cons argument separator rest => by
    simp [mapArguments, Argument.mapTokens_id argument, mapArguments_id rest]

theorem Argument.mapTokens_id : (argument : Argument) → argument.mapTokens id = argument
  | .required none type variadic name => by simp [Argument.mapTokens, IdlType.mapTokens_id type]
  | .required (some attrs) type variadic name => by
    simp [Argument.mapTokens, ExtAttrList.mapTokens_id attrs, IdlType.mapTokens_id type]
  | .optional none keyword type name default => by
    simp [Argument.mapTokens, IdlType.mapTokens_id type]
  | .optional (some attrs) keyword type name default => by
    simp [Argument.mapTokens, ExtAttrList.mapTokens_id attrs, IdlType.mapTokens_id type]

theorem IdlType.mapTokens_id : (type : IdlType) → type.mapTokens id = type
  | .mk none form nullable => by simp [IdlType.mapTokens, TypeForm.mapTokens_id form]
  | .mk (some attrs) form nullable => by
    simp [IdlType.mapTokens, ExtAttrList.mapTokens_id attrs, TypeForm.mapTokens_id form]

theorem TypeForm.mapTokens_id : (form : TypeForm) → form.mapTokens id = form
  | .named first rest => by simp [TypeForm.mapTokens]
  | .generic name opening arguments closing => by
    simp [TypeForm.mapTokens, mapTypes_id arguments]
  | .union opening first separator rest closing => by
    simp [TypeForm.mapTokens, IdlType.mapTokens_id first, mapTypes_id rest]

theorem mapTypes_id : (types : Separated IdlType) → mapTypes id types = types
  | .last type => by simp [mapTypes, IdlType.mapTokens_id type]
  | .cons type separator rest => by
    simp [mapTypes, IdlType.mapTokens_id type, mapTypes_id rest]

end

theorem Member.Form.mapTokens_id (form : Member.Form) : form.mapTokens id = form := by
  cases form <;>
    simp [mapTokens, IdlType.mapTokens_id, ArgumentList.mapTokens_id, mapTypes_id]

theorem Member.mapTokens_id (member : Member) : member.mapTokens id = member := by
  simp [mapTokens, ExtAttrList.mapTokens_id, Form.mapTokens_id]

namespace Definition

theorem Head.mapTokens_id (head : Head) : head.mapTokens id = head := by
  cases head <;> simp [mapTokens]

theorem Body.mapTokens_id (body : Body) : body.mapTokens id = body := by
  simp [mapTokens, Member.mapTokens_id]

theorem Form.mapTokens_id (form : Form) : form.mapTokens id = form := by
  cases form with
  | container head name parent body =>
    have hparent : parent.map (·.mapTokens id) = parent := by cases parent <;> rfl
    simp [mapTokens, Head.mapTokens_id, Body.mapTokens_id, hparent]
  | typedef | callback => simp [mapTokens, IdlType.mapTokens_id, ArgumentList.mapTokens_id]
  | includes => rfl

theorem mapTokens_id (d : Definition) : d.mapTokens id = d := by
  simp [mapTokens, ExtAttrList.mapTokens_id, Form.mapTokens_id]

end Definition

end WebIdl
