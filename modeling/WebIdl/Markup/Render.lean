import WebIdl.Block
import WebIdl.Link.Target
import WebIdl.Markup.Element

/-!
# Rendered blocks

A block as markup: the text of the source, token by token with its trivia, inside elements that say
what each part is. Names that the host defines link to it, the others define themselves, and types
link to what they name. The trivia before a definition stays outside of its element, that before a
member goes inside, and trivia with a comment in it gets an element of its own.

Every function gives the nodes for a part of the syntax in the order of the source; no text is added
to the source or left out of it.
-/

namespace WebIdl

/-- What the names of a block are rendered with. -/
structure Rendering where
  resolver : Resolver
  plan : Anchor.Plan
  claims : Claims

namespace Rendering

/-- The class of what a check has found fault with. -/
def offendingClass : String := "respec-offending-element"

/-! ### Tokens and links -/

def trivia (s : String) : List Markup :=
  if s.isEmpty then []
  else if hasComment s then [.label (.span "idlSectionComment") s]
  else [.text s]

def token (t : Token) : List Markup := trivia t.trivia ++ [.text t.text]

def tokens (ts : List Token) : List Markup := ts.flatMap token

/-- The start of a link. Links out of the document say so. -/
def linkHead (target : Target) (c : Option String) : StartTag :=
  let head := c.elim (StartTag.ofTag .a) (StartTag.ofTag .a).addClass
  let head := if target.isInternal then head.addClass "internalDFN" else head
  let head := (head.setAttr "href" target.href).setAttr "data-link-type" target.linkType
  if target.isInternal then head else head.setAttr "data-xref-type" target.linkType

/-- A link to a term of the host that defines a name. -/
def termLinkHead (designation : Designation) (c : String) : StartTag :=
  let head := ((StartTag.ofTag .a).addClass c).addClass "internalDFN"
  (head.setAttr "href" designation.href).setAttr "data-link-type" designation.linkType

/-- A text that may be a link. -/
def linked (target : Option Target) (text : String) : Markup :=
  match target with
  | some target => .label (linkHead target none) text
  | none => .text text

variable (rendering : Rendering)

/-- A token that names a type. -/
def typeToken (t : Token) (name : String) : List Markup :=
  trivia t.trivia ++ [linked (rendering.resolver.type? name) t.text]

/-! ### Literals and values -/

/-- The trivia before a literal stays outside of its element. -/
def literal : Literal → List Markup
  | .scalar _ t => trivia t.trivia ++ [.label (.span "idlDefaultValue") t.text]
  | .emptySequence opening closing | .emptyDictionary opening closing =>
    trivia opening.trivia
      ++ [.wrap (.span "idlDefaultValue") (.text opening.text :: token closing)]

def default (d : Default) : List Markup := token d.assign ++ literal d.value

/-- An item of an extended attribute; where it names a global, it links to the interface. -/
def valueItem (namesGlobal : Bool) (t : Token) : List Markup :=
  trivia t.trivia
    ++ [linked (if namesGlobal then rendering.resolver.global? t.text else none) t.text]

def extAttrValue (namesGlobal : Bool) : ExtAttr.Value → List Markup
  | .scalar .identifier t => rendering.valueItem namesGlobal t
  | .scalar _ t => token t
  | .list opening items closing =>
    token opening ++ items.flatMap (rendering.valueItem namesGlobal) token ++ token closing

def assignment (namesGlobal : Bool) : Option ExtAttr.Assignment → List Markup
  | none => []
  | some a => token a.assign ++ rendering.extAttrValue namesGlobal a.value

/-- The name of an extended attribute and its value. -/
def extAttrStart (name : Token) (value : Option ExtAttr.Assignment) : List Markup :=
  linked (rendering.resolver.extAttr? name.text) name.text ::
    rendering.assignment (ExtAttr.mk name value none).namesGlobals value

/-! ### Types, arguments and extended attributes -/

mutual

def extAttrList : ExtAttrList → List Markup
  | .mk opening items closing => token opening ++ extAttrs items ++ token closing

def extAttrs : Separated ExtAttr → List Markup
  | .last attr => extAttr attr
  | .cons attr separator rest => extAttr attr ++ token separator ++ extAttrs rest

def extAttr : ExtAttr → List Markup
  | .mk name value none =>
    trivia name.trivia ++ [.wrap (.span "extAttr") (rendering.extAttrStart name value)]
  | .mk name value (some arguments) =>
    trivia name.trivia
      ++ [.wrap (.span "extAttr") (rendering.extAttrStart name value ++ argumentList arguments)]

def argumentList : ArgumentList → List Markup
  | .mk opening none closing => token opening ++ token closing
  | .mk opening (some items) closing => token opening ++ arguments items ++ token closing

def arguments : Separated Argument → List Markup
  | .last a => [argument a]
  | .cons a separator rest => argument a :: (token separator ++ arguments rest)

def argument : Argument → Markup
  | .required none type variadic name =>
    .wrap (.span "idlParam") (outerType type :: (tokens variadic.toList ++ trivia name.trivia
      ++ [.label (.span "idlParamName") name.text]))
  | .required (some attrs) type variadic name =>
    .wrap (.span "idlParam") (extAttrList attrs ++ outerType type :: (tokens variadic.toList
      ++ trivia name.trivia ++ [.label (.span "idlParamName") name.text]))
  | .optional none keyword type name d =>
    .wrap (.span "idlParam") (token keyword ++ outerType type :: (trivia name.trivia
      ++ .label (.span "idlParamName") name.text :: d.elim [] default))
  | .optional (some attrs) keyword type name d =>
    .wrap (.span "idlParam") (extAttrList attrs ++ token keyword ++ outerType type ::
      (trivia name.trivia ++ .label (.span "idlParamName") name.text :: d.elim [] default))

/-- A type that is not part of another, in an element of its own. -/
def outerType : IdlType → Markup
  | .mk none form nullable =>
    .wrap (.span "idlType") (typeForm form ++ tokens nullable.toList)
  | .mk (some attrs) form nullable =>
    .wrap (.span "idlType") (extAttrList attrs ++ typeForm form ++ tokens nullable.toList)

def innerType : IdlType → List Markup
  | .mk none form nullable => typeForm form ++ tokens nullable.toList
  | .mk (some attrs) form nullable =>
    extAttrList attrs ++ typeForm form ++ tokens nullable.toList

/-- A name of several words is one link, with what stands between its words. -/
def typeForm : TypeForm → List Markup
  | .named first rest =>
    trivia first.trivia
      ++ [linked (rendering.resolver.type? (unescape (TypeForm.rawName first rest)))
        (first.text ++ written rest)]
  | .generic name opening arguments closing =>
    rendering.typeToken name name.text ++ token opening ++ types arguments ++ token closing
  | .union opening first separator rest closing =>
    token opening ++ innerType first ++ token separator ++ types rest ++ token closing

def types : Separated IdlType → List Markup
  | .last type => innerType type
  | .cons type separator rest => innerType type ++ token separator ++ types rest

end

/-! ### Members -/

/-- The name of a member: a link to the term that it has taken, or the place that defines it. -/
def memberName (owner : Definition) (member : Member) (place : MemberPlace) (c text : String) :
    Markup :=
  let name := member.name?.getD ""
  match rendering.claims.member? place with
  | some designation =>
    .label ((termLinkHead designation c).setAttr "data-link-for" member.scope) text
  | none =>
    if member.kind == .operation && name == "toJSON" && hasExtAttr member.attrs "Default" then
      .label (linkHead rendering.resolver.defaultToJson (some c)) text
    else
      let head := ((StartTag.ofTag .dfn).addClass c).setAttr "id"
        (Anchor.memberName member.scope name (rendering.plan.overload place))
      let head := head.setAttr? "data-dfn-type" ((DfnType.ofMember? member.kind).map DfnType.name)
      let head := head.setAttr "data-dfn-for" member.scope
      let head := head.setAttr? "data-idl" ((IdlKind.ofMember? member.kind).map IdlKind.name)
      .label (if owner.isPartial then head else head.setAttr "data-export" "") text

/-- The token that names a member. -/
def memberNameToken (owner : Definition) (member : Member) (place : MemberPlace) (t : Token) :
    List Markup :=
  trivia t.trivia ++ [rendering.memberName owner member place "idlName" t.text]

/-- The start of the element around a member. -/
def memberHead (member : Member) (place : MemberPlace) : StartTag :=
  let head := StartTag.span member.kind.cssClass
  match member.name? with
  | some name =>
    let anchor := Anchor.memberWrapper member.scope name (rendering.plan.overload place)
    (head.setAttr "id" anchor).setAttr "data-title" name
  | none => head

/-- A value of an enumeration; its trivia, its quotes and the comma are outside of the name. -/
def enumValue (owner : Definition) (member : Member) (place : MemberPlace) (value : Token)
    (separator : Option Token) : List Markup :=
  trivia value.trivia
    ++ .wrap ((StartTag.span member.kind.cssClass).setAttr "data-title" (member.name?.getD ""))
      [.text "\"", rendering.memberName owner member place "idlEnumValue" (unquote value.text),
        .text "\""]
    :: tokens separator.toList

/-- What a member consists of, enumeration values apart. -/
def memberForm (owner : Definition) (member : Member) (place : MemberPlace) :
    Member.Form → List Markup
  | .attribute modifiers keyword type name semicolon =>
    tokens modifiers ++ token keyword ++ rendering.outerType type ::
      (rendering.memberNameToken owner member place name ++ token semicolon)
  | .operation modifiers type name arguments semicolon =>
    tokens modifiers ++ rendering.outerType type ::
      (name.elim [] (rendering.memberNameToken owner member place)
        ++ rendering.argumentList arguments ++ token semicolon)
  | .stringifier keyword semicolon => token keyword ++ token semicolon
  | .constructor keyword arguments semicolon =>
    rendering.memberNameToken owner member place keyword ++ rendering.argumentList arguments
      ++ token semicolon
  | .constant keyword type name assign value semicolon =>
    token keyword ++ rendering.outerType type ::
      (rendering.memberNameToken owner member place name ++ token assign ++ literal value
        ++ token semicolon)
  | .field required type name d semicolon =>
    tokens required.toList ++ rendering.outerType type ::
      (rendering.memberNameToken owner member place name ++ d.elim [] default
        ++ token semicolon)
  | .enumValue value separator => rendering.enumValue owner member place value separator
  | .declaration modifiers keyword opening types closing arguments semicolon =>
    tokens modifiers ++ token keyword ++ token opening
      ++ types.flatMap (fun type => [rendering.outerType type]) token
      ++ token closing ++ arguments.elim [] rendering.argumentList ++ token semicolon

def member (owner : Definition) (member : Member) (place : MemberPlace) : List Markup :=
  match member.form with
  | .enumValue value separator => rendering.enumValue owner member place value separator
  | form =>
    [.wrap (rendering.memberHead member place)
      (member.attrs.elim [] rendering.extAttrList ++ rendering.memberForm owner member place form)]

/-! ### Definitions -/

/-- The name that a partial definition extends. -/
def partialName (name : String) (text : String) : Markup :=
  match rendering.resolver.type? name with
  | some target =>
    .label (((linkHead target (some "idlID")).setAttr "data-idl" IdlKind.extension.name).setAttr
      "data-title" name) text
  | none =>
    .label (((StartTag.span "idlID").addClass offendingClass).setAttr "title"
      ("No definition found for partial `" ++ name ++ "`")) text

/-- The start of the element that defines the name of a definition. -/
def definitionDfn (definition : Definition) (place : Place) : StartTag :=
  let owns := rendering.plan.owns place
  let head := (StartTag.ofTag .dfn).addClass "idlID"
  let head := if owns then head.setAttr "id" (Anchor.definitionName definition.name) else head
  let head := head.setAttr? "data-dfn-type"
    ((DfnType.ofDefinition? definition.kind).map DfnType.name)
  let head := head.setAttr? "data-idl" ((IdlKind.ofDefinition? definition.kind).map IdlKind.name)
  let head := if owns then head.setAttr "data-export" "" else head
  head.setAttr "data-title" definition.name

/-- The token that names a definition. -/
def definitionName (definition : Definition) (place : Place) (t : Token) : List Markup :=
  trivia t.trivia ++
    if definition.isPartial then [rendering.partialName definition.name t.text]
    else match rendering.claims.definition? place with
      | some designation => [.label (termLinkHead designation "idlID") t.text]
      | none => [.label (rendering.definitionDfn definition place) t.text]

/-- What a definition inherits from. -/
def inheritance (parent : Definition.Inheritance) : List Markup :=
  token parent.colon ++ trivia parent.name.trivia ++
    match rendering.resolver.type? parent.name.name with
    | some target => [.label (linkHead target (some "idlSuperclass")) parent.name.text]
    | none => [.label (.span "idlSuperclass") parent.name.text]

/-- What a definition consists of, extended attributes apart. -/
def definitionForm (definition : Definition) (place : Place) : Definition.Form → List Markup
  | .container head name parent body =>
    tokens head.tokens ++ rendering.definitionName definition place name
      ++ parent.elim [] rendering.inheritance ++ token body.opening
      ++ body.members.zipIdx.flatMap (fun (m, index) =>
        rendering.member definition m (place.member index))
      ++ token body.closing ++ token body.semicolon
  | .typedef keyword type name semicolon =>
    token keyword ++ rendering.outerType type ::
      (rendering.definitionName definition place name ++ token semicolon)
  | .callback keyword name assign result arguments semicolon =>
    token keyword ++ rendering.definitionName definition place name ++ token assign
      ++ rendering.outerType result :: (rendering.argumentList arguments ++ token semicolon)
  | .includes name keyword mixin semicolon =>
    rendering.typeToken name name.name ++ token keyword
      ++ rendering.typeToken mixin mixin.name ++ token semicolon

/-- The start of the element around a definition. Includes statements have no name of their own. -/
def definitionHead (definition : Definition) (place : Place) : StartTag :=
  let head := StartTag.span definition.kind.cssClass
  if definition.kind == .includes then head
  else
    let head := if rendering.plan.owns place then
        head.setAttr "id" (Anchor.definitionWrapper definition.name)
      else head
    head.setAttr "data-title" definition.name

/-- The element around a definition, which has nothing before its first token. -/
def definitionElement (definition : Definition) (place : Place) : Markup :=
  .wrap (rendering.definitionHead definition place)
    (definition.attrs.elim [] rendering.extAttrList
      ++ rendering.definitionForm definition place definition.form)

def definition (definition : Definition) (place : Place) : List Markup :=
  trivia definition.leadingTrivia ++ [rendering.definitionElement definition.bare place]

/-- A block as an element. What could not be read stays as it is. -/
def block (block : Block) (index : Nat) : Element :=
  let nodes := block.definitions.zipIdx.flatMap fun (d, i) => rendering.definition d ⟨index, i⟩
  ⟨(StartTag.ofTag .pre).addClass "idl",
    Markup.join (nodes ++ block.remainder.elim (trivia block.trailing) fun r => [.text r])⟩

end Rendering

end WebIdl
