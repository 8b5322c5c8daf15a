import WebIdl.Proofs.Markup.Collect
import WebIdl.Proofs.Syntax.Tokens

/-!
# What the names of definitions and members say

The element around the name of a definition or of a member starts with a tag of its own: a link to a
term of the host, a link to the specification, or the tag that defines the name.

* `Rendering.nameHead`, `Rendering.memberNameHead` — the start tags of these elements.
* `Rendering.SeesNames` — how what is read off the start tags of a definition depends on its sites.
* `Rendering.collect_definition` — what is read off the start tags of a definition is what its sites
  give, in order.
* `Rendering.collect_block` — what is read off those of a block is what is read off its definitions.
-/

namespace WebIdl

open Markup

namespace StartTag

@[simp] theorem tag_addClass (head : StartTag) (c : String) : (head.addClass c).tag = head.tag := by
  unfold addClass
  split <;> rfl

@[simp] theorem tag_setAttr (head : StartTag) (name value : String) :
    (head.setAttr name value).tag = head.tag := rfl

@[simp] theorem tag_setAttr? (head : StartTag) (name : String) (value : Option String) :
    (head.setAttr? name value).tag = head.tag := by
  cases value <;> rfl

@[simp] theorem tag_ofTag (tag : Tag) : (ofTag tag).tag = tag := rfl

@[simp] theorem tag_span (c : String) : (span c).tag = .span := by
  simp [span]

end StartTag

namespace Rendering

variable (rendering : Rendering)

/-! ### The start tags of names -/

/-- The start of the element around the name that a partial definition extends. -/
def partialHead (name : String) : StartTag :=
  match rendering.resolver.type? name with
  | some target =>
    ((linkHead target (some "idlID")).setAttr "data-idl" IdlKind.extension.name).setAttr
      "data-title" name
  | none =>
    ((StartTag.span "idlID").addClass offendingClass).setAttr "title"
      ("No definition found for partial `" ++ name ++ "`")

/-- The start of the element around the name of a definition. -/
def nameHead (d : Definition) (place : Place) : StartTag :=
  if d.isPartial then rendering.partialHead d.name
  else match rendering.claims.definition? place with
    | some designation => termLinkHead designation "idlID"
    | none => rendering.definitionDfn d place

/-- The start of the element that defines the name of a member. -/
def memberDfn (owner : Definition) (m : Member) (place : MemberPlace) (c : String) : StartTag :=
  let head := ((StartTag.ofTag .dfn).addClass c).setAttr "id"
    (Anchor.memberName m.scope (m.name?.getD "") (rendering.plan.overload place))
  let head := head.setAttr? "data-dfn-type" ((DfnType.ofMember? m.kind).map DfnType.name)
  let head := head.setAttr "data-dfn-for" m.scope
  let head := head.setAttr? "data-idl" ((IdlKind.ofMember? m.kind).map IdlKind.name)
  if owner.isPartial then head else head.setAttr "data-export" ""

/-- The start of the element around the name of a member. -/
def memberNameHead (owner : Definition) (m : Member) (place : MemberPlace) (c : String) :
    StartTag :=
  match rendering.claims.member? place with
  | some designation => (termLinkHead designation c).setAttr "data-link-for" m.scope
  | none =>
    if m.definesItself then rendering.memberDfn owner m place c
    else linkHead rendering.resolver.defaultToJson (some c)

theorem memberName_eq (owner : Definition) (m : Member) (place : MemberPlace) (c text : String) :
    rendering.memberName owner m place c text =
      .label (rendering.memberNameHead owner m place c) text := by
  unfold memberName memberNameHead Member.definesItself
  cases rendering.claims.member? place with
  | some designation => rfl
  | none =>
    cases h : (m.kind == .operation && m.name?.getD "" == "toJSON" && hasExtAttr m.attrs "Default")
    · simp [h, memberDfn]
    · simp [h]

theorem definitionName_eq (d : Definition) (place : Place) (t : Token) :
    rendering.definitionName d place t =
      trivia t.trivia ++ [.label (rendering.nameHead d place) t.text] := by
  unfold definitionName nameHead
  split
  · unfold partialName partialHead
    split <;> simp [*]
  · split <;> simp [*]

/-- What comes before the first token of a definition says nothing about its name. -/
@[simp] theorem nameHead_bare (d : Definition) (place : Place) :
    rendering.nameHead d.bare place = rendering.nameHead d place := by
  simp [nameHead, definitionDfn]

@[simp] theorem memberNameHead_bare (owner : Definition) (m : Member) (place : MemberPlace)
    (c : String) :
    rendering.memberNameHead owner.bare m place c = rendering.memberNameHead owner m place c := by
  simp [memberNameHead, memberDfn]

theorem tag_memberHead (m : Member) (place : MemberPlace) :
    (rendering.memberHead m place).tag = .span := by
  unfold memberHead
  cases m.name? <;> simp

theorem tag_definitionHead (d : Definition) (place : Place) :
    (rendering.definitionHead d place).tag = .span := by
  unfold definitionHead
  split
  · simp
  · split <;> simp

end Rendering

/-! ### The sites of a definition without its leading trivia -/

namespace Definition

theorem sites_bare (d : Definition) : d.bare.sites = d.sites := by
  have hname : d.bare.nameSite = d.nameSite := by simp [nameSite]
  unfold sites
  rw [hname]
  obtain ⟨_ | ⟨opening, items, closing⟩, form⟩ := d
  · cases form <;> rfl
  · rfl

end Definition

namespace Rendering

variable {β : Type}

/-- The classes of the names of members. -/
def memberNameClasses : List String := ["idlName", "idlEnumValue"]

/-- Off the start tags of a definition, `f` reads nothing but what `g` says of the sites. -/
structure SeesNames (rendering : Rendering) (d : Definition) (place : Place)
    (f : StartTag → Option β) (g : Site → Option β) : Prop extends rendering.Sees f g where
  frame : ∀ head, head.tag = .span ∨ head.tag = .pre → f head = none
  superclass : ∀ target, f (linkHead target (some "idlSuperclass")) = f (linkHead target none)
  name : f (rendering.nameHead d place) = g d.nameSite
  member : ∀ m index, (m, index) ∈ d.members.zipIdx → m.name?.isSome = true →
    ∀ c ∈ memberNameClasses,
      f (rendering.memberNameHead d m (place.member index) c) = g (.member index m.definesItself)

section Definitions

variable {rendering : Rendering} {d : Definition} {place : Place} {f : StartTag → Option β}
  {g : Site → Option β}

/-- Nothing is said of a definition that depends on its leading trivia. -/
theorem SeesNames.bare (h : rendering.SeesNames d place f g) :
    rendering.SeesNames d.bare place f g where
  toSees := h.toSees
  frame := h.frame
  superclass := h.superclass
  name := by simpa [Definition.nameSite] using h.name
  member := by simpa using h.member

variable (h : rendering.SeesNames d place f g)

include h

/-! ### Members -/

section Members

variable {m : Member} {index : Nat} (hm : (m, index) ∈ d.members.zipIdx)

include hm

theorem collect_memberName_cons {c : String} (hc : c ∈ memberNameClasses) (text : String)
    (hname : m.name?.isSome = true) (nodes : List Markup) :
    collect f (rendering.memberName d m (place.member index) c text :: nodes) =
      (g (.member index m.definesItself)).toList ++ collect f nodes := by
  rw [memberName_eq, collect_label_cons, h.member m index hm hname c hc]

theorem collect_memberNameToken (t : Token) (hname : m.name?.isSome = true) :
    collect f (rendering.memberNameToken d m (place.member index) t) =
      (g (.member index m.definesItself)).toList := by
  have hc : "idlName" ∈ memberNameClasses := by decide
  rw [memberNameToken, collect_append, collect_trivia h.span,
    collect_memberName_cons h hm hc t.text hname]
  simp

theorem collect_enumValue (value : Token) (separator : Option Token)
    (hname : m.name?.isSome = true) :
    collect f (rendering.enumValue d m (place.member index) value separator) =
      (g (.member index m.definesItself)).toList := by
  have hhead : f ((StartTag.span m.kind.cssClass).setAttr "data-title" (m.name?.getD "")) = none :=
    h.frame _ (.inl (by simp))
  have hc : "idlEnumValue" ∈ memberNameClasses := by decide
  simp [enumValue, hhead, collect_trivia h.span, collect_tokens h.span,
    collect_memberName_cons h hm hc _ hname]

theorem collect_memberForm :
    collect f (rendering.memberForm d m (place.member index) m.form) =
      (m.form.sites (.member index m.definesItself)).filterMap g := by
  have hname (t : Token) := collect_memberNameToken h hm t
  have hvalue (value : Token) (separator : Option Token) :=
    collect_enumValue h hm value separator
  have htype (type : IdlType) (nodes : List Markup) :=
    collect_outerType_cons h.toSees false type nodes
  have harguments (list : ArgumentList) := collect_argumentList h.toSees false list
  generalize m.definesItself = definesItself at hname hvalue ⊢
  obtain ⟨attrs, scope, form⟩ := m
  match form with
  | .attribute modifiers keyword type name semicolon =>
    simp [memberForm, Member.Form.sites, filterMap_cons_toList, collect_tokens h.span,
      collect_token h.span, htype, hname _ rfl]
  | .operation modifiers type none arguments semicolon =>
    simp [memberForm, Member.Form.sites, collect_tokens h.span, collect_token h.span, htype,
      harguments]
  | .operation modifiers type (some name) arguments semicolon =>
    simp [memberForm, Member.Form.sites, filterMap_cons_toList, collect_tokens h.span,
      collect_token h.span, htype, harguments, hname _ rfl]
  | .stringifier keyword semicolon =>
    simp [memberForm, Member.Form.sites, collect_token h.span]
  | .constructor keyword arguments semicolon =>
    simp [memberForm, Member.Form.sites, filterMap_cons_toList, collect_token h.span, harguments,
      hname _ rfl]
  | .constant keyword type name assign value semicolon =>
    simp [memberForm, Member.Form.sites, filterMap_cons_toList, collect_token h.span,
      collect_literal h.span, htype, hname _ rfl]
  | .field required type name d semicolon =>
    cases d <;> simp [memberForm, Member.Form.sites, filterMap_cons_toList, collect_tokens h.span,
      collect_token h.span, collect_default h.span, htype, hname _ rfl]
  | .enumValue value separator =>
    simp [memberForm, Member.Form.sites, filterMap_cons_toList, hvalue _ _ rfl]
  | .declaration modifiers keyword opening types closing arguments semicolon =>
    have htypes : collect f (types.flatMap (fun type => [rendering.outerType type]) token) =
        types.items.flatMap fun type => (type.sites false).filterMap g := by
      simp [collect_separated f (collect_token h.span), htype]
    cases arguments <;> simp [memberForm, Member.Form.sites, List.filterMap_flatMap, htypes,
      collect_tokens h.span, collect_token h.span, harguments]

theorem collect_member :
    collect f (rendering.member d m (place.member index)) = (m.sites index).filterMap g := by
  have hform := collect_memberForm h hm
  have hhead : f (rendering.memberHead m (place.member index)) = none :=
    h.frame _ (.inl (rendering.tag_memberHead ..))
  have hattrs : collect f (m.attrs.elim [] rendering.extAttrList) =
      (m.attrs.elim [] (·.sites false)).filterMap g := by
    cases m.attrs with
    | none => simp
    | some attrs => exact collect_extAttrList h.toSees false attrs
  unfold member Member.sites
  split
  · rename_i value separator hvalue
    rw [hvalue] at hform
    simpa [memberForm, hvalue, Member.Form.sites] using hform
  · simp [hhead, hattrs, hform]

end Members

theorem collect_members (members : List Member) (start : Nat)
    (hsub : ∀ entry ∈ members.zipIdx start, entry ∈ d.members.zipIdx) :
    collect f ((members.zipIdx start).flatMap fun (m, index) =>
        rendering.member d m (place.member index)) =
      ((members.zipIdx start).flatMap fun (m, index) => m.sites index).filterMap g := by
  rw [collect_flatMap, List.filterMap_flatMap]
  refine List.flatMap_congr ?_
  rintro ⟨m, index⟩ hm
  exact collect_member h (hsub _ hm)

/-! ### Definitions -/

theorem collect_definitionName (t : Token) :
    collect f (rendering.definitionName d place t) = (g d.nameSite).toList := by
  rw [definitionName_eq, collect_append, collect_trivia h.span, collect_label_cons, h.name]
  simp

theorem collect_inheritance (parent : Definition.Inheritance) :
    collect f (rendering.inheritance parent) =
      [Site.type parent.name.name false].filterMap g := by
  rw [inheritance, filterMap_cons_toList, h.type]
  cases rendering.resolver.type? parent.name.name <;>
    simp [collect_token h.span, collect_trivia h.span, h.span, h.superclass]

theorem collect_definitionForm :
    collect f (rendering.definitionForm d place d.form) =
      (d.form.sites d.nameSite).filterMap g := by
  have hname (t : Token) := collect_definitionName h t
  have hmembers := collect_members h d.members 0 fun entry hentry => hentry
  have htype (type : IdlType) (nodes : List Markup) :=
    collect_outerType_cons h.toSees false type nodes
  have hoperand (t : Token) := collect_typeToken h.toSees t t.name false
  generalize d.nameSite = name at hname ⊢
  obtain ⟨attrs, form⟩ := d
  cases form with
  | container head t parent body =>
    have hparent : collect f (parent.elim [] rendering.inheritance) =
        (parent.toList.map fun p => Site.type p.name.name false).filterMap g := by
      cases parent with
      | none => simp
      | some parent => exact collect_inheritance h parent
    simp only [Definition.members, Definition.Form.members] at hmembers
    simp [definitionForm, Definition.Form.sites, filterMap_cons_toList, hname, hparent, hmembers,
      collect_tokens h.span, collect_token h.span]
  | typedef keyword type t semicolon =>
    simp [definitionForm, Definition.Form.sites, filterMap_cons_toList, hname, htype,
      collect_token h.span]
  | callback keyword t assign result arguments semicolon =>
    simp [definitionForm, Definition.Form.sites, filterMap_cons_toList, hname, htype,
      collect_token h.span, collect_argumentList h.toSees false arguments]
  | includes t keyword mixin semicolon =>
    simp [definitionForm, Definition.Form.sites, filterMap_cons_toList, hoperand,
      collect_token h.span]

/-- **What is read off the start tags of a definition is what its sites give, in order.** -/
theorem collect_definition :
    collect f (rendering.definition d place) = d.sites.filterMap g := by
  have hform := collect_definitionForm h.bare
  have hhead : f (rendering.definitionHead d.bare place) = none :=
    h.frame _ (.inl (rendering.tag_definitionHead ..))
  have hattrs : collect f (d.bare.attrs.elim [] rendering.extAttrList) =
      (d.bare.attrs.elim [] (·.sites false)).filterMap g := by
    cases d.bare.attrs with
    | none => simp
    | some attrs => exact collect_extAttrList h.toSees false attrs
  rw [← d.sites_bare, definition, collect_append, collect_trivia h.span, definitionElement,
    collect_wrap_cons, collect_append, hhead, hattrs, hform, Definition.sites, List.filterMap_append]
  simp

end Definitions

/-! ### Blocks -/

/-- What is read off the start tags of a block is what is read off its definitions, in order. -/
theorem collect_block (rendering : Rendering) {f : StartTag → Option β}
    (hspan : ∀ c, f (.span c) = none) (block : Block) (index : Nat) :
    collect f (rendering.block block index).children =
      block.definitions.zipIdx.flatMap fun (d, i) =>
        collect f (rendering.definition d ⟨index, i⟩) := by
  have hrest : collect f (block.remainder.elim (trivia block.trailing) fun r => [.text r]) = [] := by
    cases block.remainder with
    | none => exact collect_trivia hspan block.trailing
    | some r => simp
  rw [Rendering.block, collect_join, collect_append, hrest, List.append_nil, collect_flatMap]

end Rendering

end WebIdl
