import Mathlib.Data.List.Chain
import WebIdl.Proofs.Markup.Names

/-!
# The elements of rendered syntax

Every element that is written has one of a few start tags, and its children are joined, so that no
text among them is empty and no two of them meet.

* `Markup.Settled`, `Markup.settled_join` — what joining leaves.
* `Markup.Made` — the elements in nodes in a row have start tags of some sort, and settled children.
* `Rendering.Uses` — the start tags that stand in a definition, the one around it and the one around
  its name apart.
* `Rendering.made_extAttrList`, `Rendering.made_outerType_cons` and the lemmas with them — by one
  induction over types, arguments and extended attributes, their markup is made of these.
* `Rendering.exists_definitionForm_eq` — so is that of a definition, on both sides of its name.
-/

namespace WebIdl

namespace Markup

/-! ### Joined nodes -/

def isText : Markup → Bool
  | .text _ => true
  | .element .. => false

/-- No text is empty, and no two texts are in a row. -/
structure Settled (nodes : List Markup) : Prop where
  text_ne : ∀ s, Markup.text s ∈ nodes → s ≠ ""
  apart : nodes.IsChain fun a b => ¬(a.isText = true ∧ b.isText = true)

theorem settled_nil : Settled [] := ⟨by simp, .nil⟩

theorem Settled.tail {node : Markup} {nodes : List Markup} (h : Settled (node :: nodes)) :
    Settled nodes where
  text_ne := fun s hs => h.text_ne s (List.mem_cons_of_mem node hs)
  apart := (List.isChain_cons.mp h.apart).2

theorem Settled.element_cons {nodes : List Markup} (h : Settled nodes) (head : StartTag)
    (children : List Markup) : Settled (.element head children :: nodes) where
  text_ne := by
    intro s hs
    rcases List.mem_cons.mp hs with hs | hs
    · cases hs
    · exact h.text_ne s hs
  apart := by
    apply List.isChain_cons.mpr
    exact ⟨fun b _ hboth => Bool.false_ne_true hboth.1, h.apart⟩

theorem Settled.text_cons {s : String} {nodes : List Markup} (h : Settled nodes) (hs : s ≠ "")
    (hhead : ∀ node ∈ nodes.head?, node.isText = false) : Settled (.text s :: nodes) where
  text_ne := by
    intro t ht
    rcases List.mem_cons.mp ht with ht | ht
    · rw [Markup.text.inj ht]
      exact hs
    · exact h.text_ne t ht
  apart := by
    apply List.isChain_cons.mpr
    refine ⟨?_, h.apart⟩
    rintro node hnode ⟨-, htext⟩
    rw [hhead node hnode] at htext
    cases htext

/-- What follows a text is no text. -/
theorem Settled.isText_head {s : String} {nodes : List Markup} (h : Settled (.text s :: nodes)) :
    ∀ node ∈ nodes.head?, node.isText = false := by
  intro node hnode
  have hapart := (List.isChain_cons.mp h.apart).1 node hnode
  simpa [isText] using hapart

theorem settled_join (nodes : List Markup) : Settled (join nodes) := by
  induction nodes with
  | nil => exact settled_nil
  | cons node nodes ih =>
    cases node with
    | element head children => exact ih.element_cons head children
    | text s =>
      unfold join
      split
      · exact ih
      · rename_i hempty
        have hs : s ≠ "" := by simpa using hempty
        split
        · rename_i t rest hrest
          rw [hrest] at ih
          have hst : s ++ t ≠ "" := by simp [hs]
          exact ih.tail.text_cons hst ih.isText_head
        · rename_i hrest
          apply ih.text_cons hs
          intro first hfirst
          cases first with
          | element head children => rfl
          | text t =>
            obtain ⟨rest, heq⟩ := List.head?_eq_some_iff.mp hfirst
            exact absurd heq (hrest t rest)

/-! ### Elements in a row -/

section Elements

variable {P : StartTag → Prop} {head : StartTag} {children nodes : List Markup}

@[simp] theorem elementsOf_append (xs ys : List Markup) :
    elementsOf (xs ++ ys) = elementsOf xs ++ elementsOf ys := by
  induction xs with
  | nil => simp [elementsOf]
  | cons x xs ih => simp [elementsOf, ih]

@[simp] theorem elementsOf_join (nodes : List Markup) :
    elementsOf (join nodes) = elementsOf nodes := by
  induction nodes with
  | nil => rfl
  | cons node nodes ih =>
    cases node with
    | element head children => simp [join, elementsOf, ih]
    | text s =>
      unfold join
      split
      · simp [elementsOf, elements, ih]
      · split
        · rename_i t rest hrest
          rw [hrest] at ih
          simpa [elementsOf, elements] using ih
        · simp [elementsOf, elements, ih]

/-- The elements in nodes in a row have start tags of some sort, and their children are settled. -/
def Made (P : StartTag → Prop) (nodes : List Markup) : Prop :=
  ∀ e ∈ elementsOf nodes, P e.head ∧ Settled e.children

@[simp] theorem made_nil : Made P [] := by
  simp [Made, elementsOf]

@[simp] theorem made_text_cons (s : String) : Made P (.text s :: nodes) ↔ Made P nodes := by
  simp [Made, elementsOf, elements]

@[simp] theorem made_append {xs ys : List Markup} :
    Made P (xs ++ ys) ↔ Made P xs ∧ Made P ys := by
  simp only [Made, elementsOf_append, List.forall_mem_append]

theorem made_element_cons :
    Made P (.element head children :: nodes) ↔
      (P head ∧ Settled children) ∧ Made P children ∧ Made P nodes := by
  simp only [Made, elementsOf, elements, List.cons_append, List.forall_mem_cons,
    List.forall_mem_append]

theorem made_join : Made P (join nodes) ↔ Made P nodes := by
  rw [Made, Made, elementsOf_join]

@[simp] theorem made_wrap_cons :
    Made P (wrap head children :: nodes) ↔ P head ∧ Made P children ∧ Made P nodes := by
  rw [wrap, made_element_cons, made_join, and_iff_left (settled_join children)]

@[simp] theorem made_label_cons (text : String) :
    Made P (label head text :: nodes) ↔ P head ∧ Made P nodes := by
  simp [label]

@[simp] theorem made_flatMap {α : Type} {f : α → List Markup} {items : List α} :
    Made P (items.flatMap f) ↔ ∀ a ∈ items, Made P (f a) := by
  induction items with
  | nil => simp
  | cons a items ih => simp [ih]

theorem made_separated {α : Type} {f : α → List Markup} {g : Token → List Markup}
    (hf : ∀ a, Made P (f a)) (hg : ∀ t, Made P (g t)) (items : Separated α) :
    Made P (items.flatMap f g) := by
  induction items with
  | last a => exact hf a
  | cons a separator rest ih => simp [Separated.flatMap, hf, hg, ih]

theorem Made.mono {Q : StartTag → Prop} (h : Made P nodes) (himp : ∀ head, P head → Q head) :
    Made Q nodes :=
  fun e he => ⟨himp e.head (h e he).1, (h e he).2⟩

end Elements

end Markup

namespace Rendering

open Markup

/-! ### Start tags -/

/-- The classes of elements that say nothing but what they are. -/
def plainClasses : List String :=
  ["idlSectionComment", "idlDefaultValue", "extAttr", "idlParam", "idlParamName", "idlType",
    "idlSuperclass"]

/-- What is true of all start tags that stand in a definition, the one around it and the one around
its name apart. -/
structure Uses (rendering : Rendering) (P : StartTag → Prop) : Prop where
  span : ∀ c ∈ plainClasses, P (.span c)
  link : ∀ target, P (linkHead target none)
  superclass : ∀ target, P (linkHead target (some "idlSuperclass"))
  member : ∀ m place, P (rendering.memberHead m place)
  enumItem : ∀ m : Member,
    P ((StartTag.span m.kind.cssClass).setAttr "data-title" (m.name?.getD ""))
  memberName : ∀ owner m place, ∀ c ∈ memberNameClasses,
    P (rendering.memberNameHead owner m place c)

section Syntax

variable {rendering : Rendering} {P : StartTag → Prop} (h : rendering.Uses P)

include h

/-! ### Tokens, literals and values -/

theorem made_trivia (s : String) : Made P (trivia s) := by
  have hspan : P (.span "idlSectionComment") := h.span _ (by decide)
  unfold trivia
  split
  · exact made_nil
  · split <;> simp [hspan]

theorem made_token (t : Token) : Made P (token t) := by
  simp [token, made_trivia h]

theorem made_tokens (ts : List Token) : Made P (tokens ts) := by
  simp [tokens, made_token h]

theorem made_literal (l : Literal) : Made P (literal l) := by
  have hspan : P (.span "idlDefaultValue") := h.span _ (by decide)
  cases l <;> simp [literal, hspan, made_trivia h, made_token h]

theorem made_default (d : Default) : Made P (default d) := by
  simp [default, made_token h, made_literal h]

theorem made_linked (target : Option Target) (text : String) : Made P [linked target text] := by
  cases target with
  | none => simp [linked]
  | some target => simp [linked, h.link]

theorem made_typeToken (t : Token) (name : String) : Made P (rendering.typeToken t name) := by
  simp [typeToken, made_trivia h, made_linked h]

theorem made_valueItem (namesGlobal : Bool) (t : Token) :
    Made P (rendering.valueItem namesGlobal t) := by
  simp [valueItem, made_trivia h, made_linked h]

theorem made_extAttrValue (namesGlobal : Bool) (value : ExtAttr.Value) :
    Made P (rendering.extAttrValue namesGlobal value) := by
  cases value with
  | scalar kind t =>
    cases kind with
    | identifier => exact made_valueItem h namesGlobal t
    | string | integer | decimal | wildcard => exact made_token h t
  | list opening items closing =>
    have hitems := made_separated (made_valueItem h namesGlobal) (made_token h) items
    simp [extAttrValue, made_token h, hitems]

theorem made_extAttrStart (name : Token) (value : Option ExtAttr.Assignment) :
    Made P (rendering.extAttrStart name value) := by
  rw [extAttrStart, ← List.singleton_append, made_append]
  refine ⟨made_linked h _ _, ?_⟩
  cases value with
  | none => exact made_nil
  | some a => simp [assignment, made_token h, made_extAttrValue h]

end Syntax

/-! ### Types, arguments and extended attributes -/

section Nested

variable {rendering : Rendering} {P : StartTag → Prop}

mutual

theorem made_extAttrList (h : rendering.Uses P) (list : ExtAttrList) :
    Made P (rendering.extAttrList list) := by
  match list with
  | .mk opening items closing => simp [extAttrList, made_token h, made_extAttrs h items]

theorem made_extAttrs (h : rendering.Uses P) (items : Separated ExtAttr) :
    Made P (rendering.extAttrs items) := by
  match items with
  | .last attr => exact made_extAttr h attr
  | .cons attr separator rest =>
    simp [extAttrs, made_token h, made_extAttr h attr, made_extAttrs h rest]

theorem made_extAttr (h : rendering.Uses P) (attr : ExtAttr) :
    Made P (rendering.extAttr attr) := by
  have hspan : P (.span "extAttr") := h.span _ (by decide)
  match attr with
  | .mk name value none => simp [extAttr, hspan, made_trivia h, made_extAttrStart h]
  | .mk name value (some arguments) =>
    simp [extAttr, hspan, made_trivia h, made_extAttrStart h, made_argumentList h arguments]

theorem made_argumentList (h : rendering.Uses P) (list : ArgumentList) :
    Made P (rendering.argumentList list) := by
  match list with
  | .mk opening none closing => simp [argumentList, made_token h]
  | .mk opening (some items) closing =>
    simp [argumentList, made_token h, made_arguments h items]

theorem made_arguments (h : rendering.Uses P) (items : Separated Argument) :
    Made P (rendering.arguments items) := by
  match items with
  | .last a => simp [arguments, made_argument_cons h a]
  | .cons a separator rest =>
    simp [arguments, made_token h, made_argument_cons h a, made_arguments h rest]

theorem made_argument_cons (h : rendering.Uses P) (a : Argument) (nodes : List Markup) :
    Made P (rendering.argument a :: nodes) ↔ Made P nodes := by
  have hparam : P (.span "idlParam") := h.span _ (by decide)
  have hname : P (.span "idlParamName") := h.span _ (by decide)
  match a with
  | .required none type variadic name =>
    simp [argument, hparam, hname, made_trivia h, made_tokens h, made_outerType_cons h type]
  | .required (some attrs) type variadic name =>
    simp [argument, hparam, hname, made_trivia h, made_tokens h, made_extAttrList h attrs,
      made_outerType_cons h type]
  | .optional none keyword type name d =>
    cases d <;> simp [argument, hparam, hname, made_trivia h, made_token h, made_default h,
      made_outerType_cons h type]
  | .optional (some attrs) keyword type name d =>
    cases d <;> simp [argument, hparam, hname, made_trivia h, made_token h, made_default h,
      made_extAttrList h attrs, made_outerType_cons h type]

theorem made_outerType_cons (h : rendering.Uses P) (type : IdlType) (nodes : List Markup) :
    Made P (rendering.outerType type :: nodes) ↔ Made P nodes := by
  have hspan : P (.span "idlType") := h.span _ (by decide)
  match type with
  | .mk none form nullable => simp [outerType, hspan, made_tokens h, made_typeForm h form]
  | .mk (some attrs) form nullable =>
    simp [outerType, hspan, made_tokens h, made_extAttrList h attrs, made_typeForm h form]

theorem made_innerType (h : rendering.Uses P) (type : IdlType) :
    Made P (rendering.innerType type) := by
  match type with
  | .mk none form nullable => simp [innerType, made_tokens h, made_typeForm h form]
  | .mk (some attrs) form nullable =>
    simp [innerType, made_tokens h, made_extAttrList h attrs, made_typeForm h form]

theorem made_typeForm (h : rendering.Uses P) (form : TypeForm) :
    Made P (rendering.typeForm form) := by
  match form with
  | .named first rest => simp [typeForm, made_trivia h, made_linked h]
  | .generic name opening arguments closing =>
    simp [typeForm, made_token h, made_typeToken h, made_types h arguments]
  | .union opening first separator rest closing =>
    simp [typeForm, made_token h, made_innerType h first, made_types h rest]

theorem made_types (h : rendering.Uses P) (types : Separated IdlType) :
    Made P (rendering.types types) := by
  match types with
  | .last type => exact made_innerType h type
  | .cons type separator rest =>
    simp [Rendering.types, made_token h, made_innerType h type, made_types h rest]

end

end Nested

/-! ### Members -/

section Members

variable {rendering : Rendering} {P : StartTag → Prop} (h : rendering.Uses P) (owner : Definition)
  (m : Member) (place : MemberPlace)

include h

theorem made_memberName_cons {c : String} (hc : c ∈ memberNameClasses) (text : String)
    (nodes : List Markup) :
    Made P (rendering.memberName owner m place c text :: nodes) ↔ Made P nodes := by
  rw [memberName_eq, made_label_cons]
  exact and_iff_right (h.memberName owner m place c hc)

theorem made_memberNameToken (t : Token) :
    Made P (rendering.memberNameToken owner m place t) := by
  have hc : "idlName" ∈ memberNameClasses := by decide
  simp [memberNameToken, made_trivia h, made_memberName_cons h owner m place hc]

theorem made_enumValue (value : Token) (separator : Option Token) :
    Made P (rendering.enumValue owner m place value separator) := by
  have hc : "idlEnumValue" ∈ memberNameClasses := by decide
  simp [enumValue, made_trivia h, made_tokens h, h.enumItem,
    made_memberName_cons h owner m place hc]

theorem made_memberForm (form : Member.Form) :
    Made P (rendering.memberForm owner m place form) := by
  have hname := made_memberNameToken h owner m place
  cases form with
  | «attribute» modifiers keyword type name semicolon =>
    simp [memberForm, made_tokens h, made_token h, made_outerType_cons h, hname]
  | operation modifiers type name arguments semicolon =>
    cases name <;> simp [memberForm, made_tokens h, made_token h, made_outerType_cons h,
      made_argumentList h, hname]
  | stringifier keyword semicolon => simp [memberForm, made_token h]
  | constructor keyword arguments semicolon =>
    simp [memberForm, made_token h, made_argumentList h, hname]
  | constant keyword type name assign value semicolon =>
    simp [memberForm, made_token h, made_literal h, made_outerType_cons h, hname]
  | field required type name d semicolon =>
    cases d <;> simp [memberForm, made_tokens h, made_token h, made_default h,
      made_outerType_cons h, hname]
  | enumValue value separator => exact made_enumValue h owner m place value separator
  | declaration modifiers keyword opening types closing arguments semicolon =>
    have htypes : Made P (types.flatMap (fun type => [rendering.outerType type]) token) := by
      refine made_separated ?_ (made_token h) types
      intro type
      exact (made_outerType_cons h type []).mpr made_nil
    cases arguments <;> simp [memberForm, made_tokens h, made_token h, made_argumentList h, htypes]

theorem made_attrs (attrs : Option ExtAttrList) :
    Made P (attrs.elim [] rendering.extAttrList) := by
  cases attrs with
  | none => exact made_nil
  | some attrs => exact made_extAttrList h attrs

theorem made_member : Made P (rendering.member owner m place) := by
  unfold member
  split
  · exact made_enumValue h owner m place _ _
  · simp [h.member, made_attrs h, made_memberForm h]

end Members

/-! ### Definitions -/

section Definitions

variable {rendering : Rendering} {P : StartTag → Prop} (h : rendering.Uses P)

include h

theorem made_inheritance (parent : Definition.Inheritance) :
    Made P (rendering.inheritance parent) := by
  have hspan : P (.span "idlSuperclass") := h.span _ (by decide)
  unfold inheritance
  split <;> simp [made_token h, made_trivia h, h.superclass, hspan]

theorem made_members (owner : Definition) (place : Place) (members : List (Member × Nat)) :
    Made P (members.flatMap fun (m, index) => rendering.member owner m (place.member index)) := by
  rw [made_flatMap]
  rintro ⟨m, index⟩ -
  exact made_member h owner m (place.member index)

/-- An includes statement has no name of its own. -/
theorem made_definitionForm_of_includes (d : Definition) (place : Place) {form : Definition.Form}
    (hkind : form.kind = .includes) : Made P (rendering.definitionForm d place form) := by
  cases form with
  | includes name keyword mixin semicolon =>
    simp [definitionForm, made_token h, made_typeToken h]
  | container head => cases head <;> cases hkind
  | typedef | callback => cases hkind

end Definitions

/-- What stands before the name of a definition and what stands after it is made of other elements
than the name. -/
theorem exists_definitionForm_eq (rendering : Rendering) (d : Definition) (place : Place)
    {form : Definition.Form} (hkind : form.kind ≠ .includes) :
    ∃ before after, rendering.definitionForm d place form =
        before ++ .label (rendering.nameHead d place) form.nameToken.text :: after ∧
      ∀ P, rendering.Uses P → Made P before ∧ Made P after := by
  cases form with
  | container head name parent body =>
    refine ⟨tokens head.tokens ++ trivia name.trivia,
      parent.elim [] rendering.inheritance ++ token body.opening ++
        (body.members.zipIdx.flatMap (fun (m, index) =>
          rendering.member d m (place.member index)) ++
        token body.closing ++ token body.semicolon), ?_, ?_⟩
    · simp [definitionForm, definitionName_eq, Definition.Form.nameToken]
    · intro P h
      have hmembers := made_members h d place body.members.zipIdx
      cases parent <;>
        simp [made_tokens h, made_token h, made_trivia h, made_inheritance h, hmembers]
  | typedef keyword type name semicolon =>
    refine ⟨token keyword ++ rendering.outerType type :: trivia name.trivia, token semicolon,
      ?_, ?_⟩
    · simp [definitionForm, definitionName_eq, Definition.Form.nameToken]
    · intro P h
      simp [made_token h, made_trivia h, made_outerType_cons h]
  | callback keyword name assign result arguments semicolon =>
    refine ⟨token keyword ++ trivia name.trivia, token assign ++ rendering.outerType result ::
      (rendering.argumentList arguments ++ token semicolon), ?_, ?_⟩
    · simp [definitionForm, definitionName_eq, Definition.Form.nameToken]
    · intro P h
      simp [made_token h, made_trivia h, made_outerType_cons h, made_argumentList h]
  | includes => exact absurd rfl hkind

section Blocks

variable {rendering : Rendering} {P : StartTag → Prop} (h : rendering.Uses P)
  (hhead : ∀ d place, P (rendering.definitionHead d place))
  (hname : ∀ d place, P (rendering.nameHead d place))

include h hhead hname

theorem made_definition (d : Definition) (place : Place) :
    Made P (rendering.definition d place) := by
  have hform : Made P (rendering.definitionForm d.bare place d.bare.form) := by
    by_cases hkind : d.bare.form.kind = .includes
    · exact made_definitionForm_of_includes h d.bare place hkind
    · obtain ⟨before, after, heq, hmade⟩ :=
        rendering.exists_definitionForm_eq d.bare place hkind
      obtain ⟨hbefore, hafter⟩ := hmade P h
      simp [heq, hbefore, hafter, hname]
  simp [definition, definitionElement, made_trivia h, made_attrs h, hhead, hform]

theorem made_block (block : Block) (index : Nat) :
    Made P (rendering.block block index).children := by
  rw [Rendering.block, made_join, made_append, made_flatMap]
  constructor
  · rintro ⟨d, i⟩ -
    exact made_definition h hhead hname d ⟨index, i⟩
  · cases block.remainder with
    | none => exact made_trivia h block.trailing
    | some r => simp

end Blocks

end Rendering

end WebIdl
