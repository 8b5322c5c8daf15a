import WebIdl.Markup.Render
import WebIdl.Proofs.Link.Sites

/-!
# What start tags say

Reading one thing off every start tag in markup, such as its id or the link it makes.

* `Markup.collect` — what the start tags of nodes in a row say, in order.
* `Rendering.Sees` — how what is read off the links of nested syntax depends on their sites.
* `Rendering.collect_extAttrList`, `Rendering.collect_outerType` and the lemmas with them — by one
  induction over types, arguments and extended attributes, what is read off their markup is what
  their sites give, in order.
-/

namespace WebIdl

/-! ### Nodes in a row -/

theorem filterMap_cons_toList {α β : Type} (g : α → Option β) (a : α) (items : List α) :
    (a :: items).filterMap g = (g a).toList ++ items.filterMap g := by
  cases ha : g a <;> simp [ha]

namespace Markup

variable {β : Type} (f : StartTag → Option β)

/-- What the start tags in nodes in a row say, in order. -/
def collect (nodes : List Markup) : List β := (elementsOf nodes).filterMap fun e => f e.head

@[simp] theorem collect_nil : collect f [] = [] := by
  simp [collect, elementsOf]

@[simp] theorem collect_text_cons (s : String) (nodes : List Markup) :
    collect f (.text s :: nodes) = collect f nodes := by
  simp [collect, elementsOf, elements]

@[simp] theorem collect_element_cons (head : StartTag) (children nodes : List Markup) :
    collect f (.element head children :: nodes) =
      (f head).toList ++ (collect f children ++ collect f nodes) := by
  cases hhead : f head <;> simp [collect, elementsOf, elements, hhead]

theorem collect_cons (node : Markup) (nodes : List Markup) :
    collect f (node :: nodes) = collect f [node] ++ collect f nodes := by
  cases node <;> simp

@[simp] theorem collect_append (xs ys : List Markup) :
    collect f (xs ++ ys) = collect f xs ++ collect f ys := by
  induction xs with
  | nil => simp
  | cons x xs ih => rw [List.cons_append, collect_cons, ih, collect_cons f x xs, List.append_assoc]

@[simp] theorem collect_join (nodes : List Markup) : collect f (join nodes) = collect f nodes := by
  induction nodes with
  | nil => rfl
  | cons node nodes ih =>
    cases node with
    | element head children => simp [join, ih]
    | text s =>
      unfold join
      split
      · simp [ih]
      · split
        · rename_i t rest hrest
          rw [hrest] at ih
          simpa using ih
        · simp [ih]

@[simp] theorem collect_wrap_cons (head : StartTag) (children nodes : List Markup) :
    collect f (wrap head children :: nodes) =
      (f head).toList ++ (collect f children ++ collect f nodes) := by
  simp [wrap]

@[simp] theorem collect_label_cons (head : StartTag) (text : String) (nodes : List Markup) :
    collect f (label head text :: nodes) = (f head).toList ++ collect f nodes := by
  simp [label]

theorem collect_flatMap {α : Type} (g : α → List Markup) (items : List α) :
    collect f (items.flatMap g) = items.flatMap fun a => collect f (g a) := by
  induction items with
  | nil => simp
  | cons a items ih => simp [ih]

theorem collect_separated {α : Type} {g : α → List Markup} {h : Token → List Markup}
    (hh : ∀ t, collect f (h t) = []) (items : Separated α) :
    collect f (items.flatMap g h) = items.items.flatMap fun a => collect f (g a) := by
  induction items with
  | last a => simp [Separated.flatMap, Separated.items]
  | cons a separator rest ih => simp [Separated.flatMap, Separated.items, hh, ih]

end Markup

namespace Rendering

open Markup

variable {β : Type} {rendering : Rendering} {f : StartTag → Option β} {g : Site → Option β}

/-- Of nested syntax, `f` reads nothing off elements that only have a class, and off a link what
`g` says of its site. -/
structure Sees (rendering : Rendering) (f : StartTag → Option β) (g : Site → Option β) : Prop where
  span : ∀ c, f (.span c) = none
  type : ∀ name nested, g (.type name nested) =
    (rendering.resolver.type? name).bind fun target => f (linkHead target none)
  extAttr : ∀ name, g (.extAttr name) =
    (rendering.resolver.extAttr? name).bind fun target => f (linkHead target none)

/-! ### Tokens, literals and values -/

section Tokens

variable (hspan : ∀ c, f (.span c) = none)

include hspan

theorem collect_trivia (s : String) : collect f (trivia s) = [] := by
  unfold trivia
  split
  · simp
  · split <;> simp [hspan]

theorem collect_token (t : Token) : collect f (token t) = [] := by
  simp [token, collect_trivia hspan]

theorem collect_tokens (ts : List Token) : collect f (tokens ts) = [] := by
  simp [tokens, collect_flatMap, collect_token hspan]

theorem collect_literal (l : Literal) : collect f (literal l) = [] := by
  cases l <;> simp [literal, hspan, collect_trivia hspan, collect_token hspan]

theorem collect_default (d : Default) : collect f (default d) = [] := by
  simp [default, collect_token hspan, collect_literal hspan]

end Tokens

theorem collect_linked_cons (target : Option Target) (text : String) (nodes : List Markup) :
    collect f (linked target text :: nodes) =
      (target.bind fun t => f (linkHead t none)).toList ++ collect f nodes := by
  cases target <;> simp [linked]

section Nested

variable (h : rendering.Sees f g)

include h

theorem collect_typeToken (t : Token) (name : String) (nested : Bool) :
    collect f (rendering.typeToken t name) = [Site.type name nested].filterMap g := by
  simp [typeToken, filterMap_cons_toList, collect_trivia h.span, collect_linked_cons, h.type]

/-- The items of a value lead somewhere only where they name globals. -/
theorem collect_valueItem (namesGlobal nested : Bool) (t : Token) :
    collect f (rendering.valueItem namesGlobal t) =
      if namesGlobal then (ExtAttr.globalSites nested t).filterMap g else [] := by
  rw [valueItem, collect_append, collect_trivia h.span, collect_linked_cons]
  cases namesGlobal with
  | false => simp
  | true =>
    unfold ExtAttr.globalSites Resolver.global?
    cases Vocabulary.globalInterface? t.text with
    | none => simp
    | some interface => simp [filterMap_cons_toList, h.type]

theorem collect_extAttrValue (namesGlobal nested : Bool) (value : ExtAttr.Value) :
    collect f (rendering.extAttrValue namesGlobal value) =
      if namesGlobal then (value.sites nested).filterMap g else [] := by
  have hitem := collect_valueItem h namesGlobal nested
  cases value with
  | scalar kind t =>
    cases kind with
    | identifier => exact hitem t
    | string | integer | decimal | wildcard =>
      simp [extAttrValue, ExtAttr.Value.sites, collect_token h.span]
  | list opening items closing =>
    have hitems := collect_separated f (g := rendering.valueItem namesGlobal)
      (collect_token h.span) items
    simp only [extAttrValue, collect_append, collect_token h.span, hitems, hitem]
    cases namesGlobal with
    | false => simp
    | true => simp [ExtAttr.Value.sites, List.filterMap_flatMap]

theorem collect_extAttrStart (nested : Bool) (name : Token) (value : Option ExtAttr.Assignment) :
    collect f (rendering.extAttrStart name value) =
      (ExtAttr.startSites nested name value).filterMap g := by
  have hvalue := fun namesGlobal (a : ExtAttr.Assignment) =>
    collect_extAttrValue h namesGlobal nested a.value
  rw [extAttrStart, collect_linked_cons, ← h.extAttr, ExtAttr.startSites, filterMap_cons_toList]
  congr 1
  cases value with
  | none => simp [assignment]
  | some a =>
    rw [assignment, collect_append, collect_token h.span, List.nil_append, hvalue]
    split <;> rfl

end Nested

/-! ### Types, arguments and extended attributes -/

mutual

theorem collect_extAttrList (h : rendering.Sees f g) (nested : Bool) (list : ExtAttrList) :
    collect f (rendering.extAttrList list) = (list.sites nested).filterMap g := by
  match list with
  | .mk opening items closing =>
    simp [extAttrList, ExtAttrList.sites, collect_token h.span, collect_extAttrs h nested items]

theorem collect_extAttrs (h : rendering.Sees f g) (nested : Bool) (items : Separated ExtAttr) :
    collect f (rendering.extAttrs items) = (extAttrSites nested items).filterMap g := by
  match items with
  | .last attr => exact collect_extAttr h nested attr
  | .cons attr separator rest =>
    simp [extAttrs, extAttrSites, collect_token h.span, collect_extAttr h nested attr,
      collect_extAttrs h nested rest]

theorem collect_extAttr (h : rendering.Sees f g) (nested : Bool) (attr : ExtAttr) :
    collect f (rendering.extAttr attr) = (attr.sites nested).filterMap g := by
  have hstart := collect_extAttrStart h nested
  match attr with
  | .mk name value none =>
    simp [extAttr, ExtAttr.sites, h.span, collect_trivia h.span, hstart]
  | .mk name value (some arguments) =>
    simp [extAttr, ExtAttr.sites, h.span, collect_trivia h.span, hstart,
      collect_argumentList h nested arguments]

theorem collect_argumentList (h : rendering.Sees f g) (nested : Bool) (list : ArgumentList) :
    collect f (rendering.argumentList list) = (list.sites nested).filterMap g := by
  match list with
  | .mk opening none closing => simp [argumentList, ArgumentList.sites, collect_token h.span]
  | .mk opening (some items) closing =>
    simp [argumentList, ArgumentList.sites, collect_token h.span, collect_arguments h nested items]

theorem collect_arguments (h : rendering.Sees f g) (nested : Bool) (items : Separated Argument) :
    collect f (rendering.arguments items) = (argumentSites nested items).filterMap g := by
  match items with
  | .last a => simpa [arguments, argumentSites] using collect_argument_cons h nested a []
  | .cons a separator rest =>
    simp [arguments, argumentSites, collect_token h.span, collect_argument_cons h nested a,
      collect_arguments h nested rest]

theorem collect_argument_cons (h : rendering.Sees f g) (nested : Bool) (a : Argument)
    (nodes : List Markup) :
    collect f (rendering.argument a :: nodes) =
      (a.sites nested).filterMap g ++ collect f nodes := by
  match a with
  | .required none type variadic name =>
    simp [argument, Argument.sites, h.span, collect_trivia h.span, collect_tokens h.span,
      collect_outerType_cons h nested type]
  | .required (some attrs) type variadic name =>
    simp [argument, Argument.sites, h.span, collect_trivia h.span, collect_tokens h.span,
      collect_extAttrList h nested attrs, collect_outerType_cons h nested type]
  | .optional none keyword type name d =>
    cases d <;> simp [argument, Argument.sites, h.span, collect_trivia h.span,
      collect_token h.span, collect_default h.span, collect_outerType_cons h nested type]
  | .optional (some attrs) keyword type name d =>
    cases d <;> simp [argument, Argument.sites, h.span, collect_trivia h.span,
      collect_token h.span, collect_default h.span, collect_extAttrList h nested attrs,
      collect_outerType_cons h nested type]

theorem collect_outerType_cons (h : rendering.Sees f g) (nested : Bool) (type : IdlType)
    (nodes : List Markup) :
    collect f (rendering.outerType type :: nodes) =
      (type.sites nested).filterMap g ++ collect f nodes := by
  match type with
  | .mk none form nullable =>
    simp [outerType, IdlType.sites, h.span, collect_tokens h.span, collect_typeForm h nested form]
  | .mk (some attrs) form nullable =>
    simp [outerType, IdlType.sites, h.span, collect_tokens h.span,
      collect_extAttrList h nested attrs, collect_typeForm h nested form]

theorem collect_innerType (h : rendering.Sees f g) (nested : Bool) (type : IdlType) :
    collect f (rendering.innerType type) = (type.innerSites nested).filterMap g := by
  match type with
  | .mk none form nullable =>
    simp [innerType, IdlType.innerSites, collect_tokens h.span, collect_typeForm h nested form]
  | .mk (some attrs) form nullable =>
    simp [innerType, IdlType.innerSites, collect_tokens h.span, collect_extAttrList h true attrs,
      collect_typeForm h nested form]

theorem collect_typeForm (h : rendering.Sees f g) (nested : Bool) (form : TypeForm) :
    collect f (rendering.typeForm form) = (form.sites nested).filterMap g := by
  match form with
  | .named first rest =>
    simp [typeForm, TypeForm.sites, filterMap_cons_toList, collect_trivia h.span,
      collect_linked_cons, h.type]
  | .generic name opening arguments closing =>
    simp [typeForm, TypeForm.sites, filterMap_cons_toList, collect_token h.span,
      collect_typeToken h name name.text nested, collect_types h nested arguments]
  | .union opening first separator rest closing =>
    simp [typeForm, TypeForm.sites, collect_token h.span, collect_innerType h nested first,
      collect_types h nested rest]

theorem collect_types (h : rendering.Sees f g) (nested : Bool) (types : Separated IdlType) :
    collect f (rendering.types types) = (typeSites nested types).filterMap g := by
  match types with
  | .last type => exact collect_innerType h nested type
  | .cons type separator rest =>
    simp [Rendering.types, typeSites, collect_token h.span, collect_innerType h nested type,
      collect_types h nested rest]

end

end Rendering

end WebIdl
