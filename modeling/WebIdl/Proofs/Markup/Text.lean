import WebIdl.Markup.Render
import WebIdl.Proofs.Grammar.Statements

/-!
# The text of rendered syntax

Rendering goes through the syntax a second time, on its own. For every node of the syntax, the text
of what is rendered for it is what its tokens say in the source, whatever the names resolve to.

* `Markup.textContents_join` — joining texts that meet changes no text.
* `Rendering.textContents_extAttrList`, `Rendering.textContents_innerType` and the lemmas with them —
  by one induction over types, arguments and extended attributes.
* `Rendering.textContents_member` — members, enumeration values among them: those must have both of
  the quotes that rendering puts around them.
* `Rendering.textContent_definitionElement` — definitions.
-/

namespace WebIdl

/-! ### Nodes in a row -/

namespace Markup

@[simp] theorem textContent_text (s : String) : textContent (.text s) = s := by
  simp [textContent]

@[simp] theorem textContent_element (head : StartTag) (children : List Markup) :
    textContent (.element head children) = textContents children := by
  simp [textContent]

@[simp] theorem textContents_nil : textContents [] = "" := by
  simp [textContents]

@[simp] theorem textContents_cons (node : Markup) (nodes : List Markup) :
    textContents (node :: nodes) = textContent node ++ textContents nodes := by
  simp [textContents]

@[simp] theorem textContents_append (xs ys : List Markup) :
    textContents (xs ++ ys) = textContents xs ++ textContents ys := by
  induction xs with
  | nil => simp
  | cons x xs ih => simp [ih, String.append_assoc]

@[simp] theorem textContents_join (nodes : List Markup) :
    textContents (join nodes) = textContents nodes := by
  induction nodes with
  | nil => rfl
  | cons node nodes ih =>
    cases node with
    | element head children => simp [join, ih]
    | text s =>
      unfold join
      split
      · rename_i hempty
        obtain rfl : s = "" := by simpa using hempty
        simp [ih]
      · -- the text before is joined to the first of the others, if that is a text
        split
        · rename_i t rest hrest
          rw [hrest] at ih
          simp [← ih, String.append_assoc]
        · rw [textContents_cons, textContents_cons, ih]

@[simp] theorem textContent_wrap (head : StartTag) (nodes : List Markup) :
    textContent (wrap head nodes) = textContents nodes := by
  simp [wrap]

@[simp] theorem textContent_label (head : StartTag) (text : String) :
    textContent (label head text) = text := by
  simp [label]

theorem textContents_flatMap {α : Type} {f : α → List Markup} {ofItem : α → List Token}
    {items : List α} (h : ∀ a ∈ items, textContents (f a) = written (ofItem a)) :
    textContents (items.flatMap f) = written (items.flatMap ofItem) := by
  induction items with
  | nil => simp
  | cons a items ih =>
    have ha := h a List.mem_cons_self
    have ih := ih fun b hb => h b (List.mem_cons_of_mem _ hb)
    simp [ha, ih]

theorem textContents_separated {α : Type} {f : α → List Markup} {g : Token → List Markup}
    {ofItem : α → List Token} (hf : ∀ a, textContents (f a) = written (ofItem a))
    (hg : ∀ t, textContents (g t) = t.written) (items : Separated α) :
    textContents (items.flatMap f g) = written (items.tokens ofItem) := by
  induction items with
  | last a => exact hf a
  | cons a separator rest ih =>
    simp [Separated.flatMap, Separated.tokens, hf, hg, ih]

end Markup

/-- An enumeration value has both of its quotes and no extended attributes. -/
def Member.IsPlain (m : Member) : Prop :=
  ∀ value separator, m.form = .enumValue value separator →
    Lexeme.IsQuoted value.text ∧ m.attrs = none

namespace Rendering

open Markup

/-! ### Tokens, literals and values -/

@[simp] theorem textContents_trivia (s : String) : textContents (trivia s) = s := by
  unfold trivia
  split
  · simp_all
  · split <;> simp

@[simp] theorem textContents_token (t : Token) : textContents (token t) = t.written := by
  simp [token, Token.written]

@[simp] theorem textContents_tokens (ts : List Token) :
    textContents (tokens ts) = written ts := by
  have each : ∀ t ∈ ts, textContents (token t) = written [t] := by simp
  rw [tokens, textContents_flatMap each, List.flatMap_singleton' ts]

@[simp] theorem textContent_linked (target : Option Target) (text : String) :
    textContent (linked target text) = text := by
  cases target <;> simp [linked]

variable (rendering : Rendering)

@[simp] theorem textContents_typeToken (t : Token) (name : String) :
    textContents (rendering.typeToken t name) = t.written := by
  simp [typeToken, Token.written]

@[simp] theorem textContents_literal (l : Literal) :
    textContents (literal l) = written l.tokens := by
  cases l <;> simp [literal, Literal.tokens, Token.written, String.append_assoc]

@[simp] theorem textContents_default (d : Default) :
    textContents (default d) = written d.tokens := by
  simp [default, Default.tokens]

@[simp] theorem textContents_valueItem (namesGlobal : Bool) (t : Token) :
    textContents (rendering.valueItem namesGlobal t) = t.written := by
  simp [valueItem, Token.written]

@[simp] theorem textContents_extAttrValue (namesGlobal : Bool) (value : ExtAttr.Value) :
    textContents (rendering.extAttrValue namesGlobal value) = written value.tokens := by
  cases value with
  | scalar kind t => cases kind <;> simp [extAttrValue, ExtAttr.Value.tokens]
  | list opening items closing =>
    have hitems := textContents_separated
      (fun t => (rendering.textContents_valueItem namesGlobal t).trans (by simp : _ = written [t]))
      textContents_token items
    simp [extAttrValue, ExtAttr.Value.tokens, hitems]

@[simp] theorem textContents_assignment (namesGlobal : Bool) (value : Option ExtAttr.Assignment) :
    textContents (rendering.assignment namesGlobal value) =
      written (value.elim [] (·.tokens)) := by
  cases value <;> simp [assignment, ExtAttr.Assignment.tokens]

@[simp] theorem textContents_extAttrStart (name : Token) (value : Option ExtAttr.Assignment) :
    textContents (rendering.extAttrStart name value) =
      name.text ++ written (value.elim [] (·.tokens)) := by
  simp [extAttrStart]

/-! ### Types, arguments and extended attributes -/

mutual

@[simp] theorem textContents_extAttrList (list : ExtAttrList) :
    textContents (rendering.extAttrList list) = written list.tokens := by
  match list with
  | .mk opening items closing =>
    simp [extAttrList, ExtAttrList.tokens, textContents_extAttrs items]

theorem textContents_extAttrs (items : Separated ExtAttr) :
    textContents (rendering.extAttrs items) = written (extAttrTokens items) := by
  match items with
  | .last attr => simp [extAttrs, extAttrTokens, textContents_extAttr attr]
  | .cons attr separator rest =>
    simp [extAttrs, extAttrTokens, textContents_extAttr attr, textContents_extAttrs rest]

theorem textContents_extAttr (attr : ExtAttr) :
    textContents (rendering.extAttr attr) = written attr.tokens := by
  match attr with
  | .mk name value none =>
    simp [extAttr, ExtAttr.tokens, Token.written, String.append_assoc]
  | .mk name value (some arguments) =>
    simp [extAttr, ExtAttr.tokens, Token.written, String.append_assoc,
      textContents_argumentList arguments]

@[simp] theorem textContents_argumentList (list : ArgumentList) :
    textContents (rendering.argumentList list) = written list.tokens := by
  match list with
  | .mk opening none closing => simp [argumentList, ArgumentList.tokens]
  | .mk opening (some items) closing =>
    simp [argumentList, ArgumentList.tokens, textContents_arguments items]

theorem textContents_arguments (items : Separated Argument) :
    textContents (rendering.arguments items) = written (argumentTokens items) := by
  match items with
  | .last a => simp [arguments, argumentTokens, textContent_argument a]
  | .cons a separator rest =>
    simp [arguments, argumentTokens, textContent_argument a, textContents_arguments rest]

theorem textContent_argument (a : Argument) :
    textContent (rendering.argument a) = written a.tokens := by
  match a with
  | .required none type variadic name =>
    simp [argument, Argument.tokens, Token.written, textContent_outerType type]
  | .required (some attrs) type variadic name =>
    simp [argument, Argument.tokens, Token.written, textContents_extAttrList attrs,
      textContent_outerType type]
  | .optional none keyword type name d =>
    cases d <;> simp [argument, Argument.tokens, Token.written, String.append_assoc,
      textContent_outerType type]
  | .optional (some attrs) keyword type name d =>
    cases d <;> simp [argument, Argument.tokens, Token.written, String.append_assoc,
      textContents_extAttrList attrs, textContent_outerType type]

@[simp] theorem textContent_outerType (type : IdlType) :
    textContent (rendering.outerType type) = written type.tokens := by
  match type with
  | .mk none form nullable => simp [outerType, IdlType.tokens, textContents_typeForm form]
  | .mk (some attrs) form nullable =>
    simp [outerType, IdlType.tokens, textContents_extAttrList attrs, textContents_typeForm form]

theorem textContents_innerType (type : IdlType) :
    textContents (rendering.innerType type) = written type.tokens := by
  match type with
  | .mk none form nullable => simp [innerType, IdlType.tokens, textContents_typeForm form]
  | .mk (some attrs) form nullable =>
    simp [innerType, IdlType.tokens, textContents_extAttrList attrs, textContents_typeForm form]

theorem textContents_typeForm (form : TypeForm) :
    textContents (rendering.typeForm form) = written form.tokens := by
  match form with
  | .named first rest =>
    simp [typeForm, TypeForm.tokens, Token.written, String.append_assoc]
  | .generic name opening arguments closing =>
    simp [typeForm, TypeForm.tokens, textContents_types arguments]
  | .union opening first separator rest closing =>
    simp [typeForm, TypeForm.tokens, textContents_innerType first, textContents_types rest]

theorem textContents_types (types : Separated IdlType) :
    textContents (rendering.types types) = written (typeTokens types) := by
  match types with
  | .last type => simp [Rendering.types, typeTokens, textContents_innerType type]
  | .cons type separator rest =>
    simp [Rendering.types, typeTokens, textContents_innerType type, textContents_types rest]

end

/-! ### Members -/

@[simp] theorem textContent_memberName (owner : Definition) (m : Member) (place : MemberPlace)
    (c text : String) : textContent (rendering.memberName owner m place c text) = text := by
  unfold memberName
  split
  · simp
  · rw [apply_ite textContent]
    simp

@[simp] theorem textContents_memberNameToken (owner : Definition) (m : Member)
    (place : MemberPlace) (t : Token) :
    textContents (rendering.memberNameToken owner m place t) = t.written := by
  simp [memberNameToken, Token.written]

/-- The quotes around the name of a value are those that were cut off it. -/
theorem textContents_enumValue (owner : Definition) (m : Member) (place : MemberPlace)
    {value : Token} (separator : Option Token) (h : Lexeme.IsQuoted value.text) :
    textContents (rendering.enumValue owner m place value separator) =
      written (value :: separator.toList) := by
  have htext : value.trivia ++ ("\"" ++ unquote value.text ++ "\"") = value.written := by
    rw [quote_unquote h, Token.written]
  simp only [enumValue, textContents_append, textContents_trivia, textContents_cons,
    textContent_wrap, textContent_text, textContent_memberName, textContents_nil,
    textContents_tokens, written_cons, String.append_empty]
  rw [← htext]
  simp only [String.append_assoc]

theorem textContents_memberForm (owner : Definition) (m : Member) (place : MemberPlace)
    {form : Member.Form} (h : ∀ value separator, form = .enumValue value separator →
      Lexeme.IsQuoted value.text) :
    textContents (rendering.memberForm owner m place form) = written form.tokens := by
  match form, h with
  | .attribute modifiers keyword type name semicolon, _ =>
    simp [memberForm, Member.Form.tokens]
  | .operation modifiers type name arguments semicolon, _ =>
    cases name <;> simp [memberForm, Member.Form.tokens]
  | .stringifier keyword semicolon, _ => simp [memberForm, Member.Form.tokens]
  | .constructor keyword arguments semicolon, _ =>
    simp [memberForm, Member.Form.tokens]
  | .constant keyword type name assign value semicolon, _ =>
    simp [memberForm, Member.Form.tokens]
  | .field required type name d semicolon, _ =>
    cases d <;> simp [memberForm, Member.Form.tokens]
  | .enumValue value separator, h =>
    exact rendering.textContents_enumValue owner m place separator (h value separator rfl)
  | .declaration modifiers keyword opening types closing arguments semicolon, _ =>
    have htypes := textContents_separated
      (fun type => (by simp : textContents [rendering.outerType type] = written type.tokens))
      textContents_token types
    cases arguments <;>
      simp [memberForm, Member.Form.tokens, htypes, typeTokens_eq]

theorem textContents_member (owner : Definition) {m : Member} (place : MemberPlace)
    (h : m.IsPlain) : textContents (rendering.member owner m place) = written m.tokens := by
  obtain ⟨attrs, scope, form⟩ := m
  unfold member
  split
  · rename_i value separator hform
    obtain rfl : form = .enumValue value separator := hform
    obtain ⟨hquoted, hattrs⟩ := h value separator rfl
    obtain rfl : attrs = none := hattrs
    simpa [Member.tokens, Member.Form.tokens] using
      rendering.textContents_enumValue owner _ place separator hquoted
  · have hform := rendering.textContents_memberForm owner ⟨attrs, scope, form⟩ place
      fun value separator hform => (h value separator hform).1
    cases attrs <;> simp [Member.tokens, hform]

/-! ### Definitions -/

@[simp] theorem textContents_definitionName (d : Definition) (place : Place) (t : Token) :
    textContents (rendering.definitionName d place t) = t.written := by
  unfold definitionName
  split
  · unfold partialName
    split <;> simp [Token.written]
  · split <;> simp [Token.written]

@[simp] theorem textContents_inheritance (parent : Definition.Inheritance) :
    textContents (rendering.inheritance parent) = written [parent.colon, parent.name] := by
  unfold inheritance
  split <;> simp [Token.written]

theorem textContents_members (owner : Definition) (place : Place) {members : List Member}
    (h : ∀ m ∈ members, m.IsPlain) (start : Nat) :
    textContents ((members.zipIdx start).flatMap fun entry =>
      rendering.member owner entry.1 (place.member entry.2)) =
        written (members.flatMap (·.tokens)) := by
  induction members generalizing start with
  | nil => rfl
  | cons m members ih =>
    have hm := rendering.textContents_member owner (place.member start) (h m List.mem_cons_self)
    have ih := ih (fun m hm => h m (List.mem_cons_of_mem _ hm)) (start + 1)
    simp [hm, ih]

theorem textContents_definitionForm (d : Definition) (place : Place) {form : Definition.Form}
    (h : ∀ m ∈ form.members, m.IsPlain) :
    textContents (rendering.definitionForm d place form) = written form.tokens := by
  cases form with
  | container head name parent body =>
    have h : ∀ m ∈ body.members, m.IsPlain := h
    have hmembers := rendering.textContents_members d place h 0
    cases parent <;>
      simp [definitionForm, Definition.Form.tokens, Definition.Body.tokens, hmembers,
        String.append_assoc]
  | typedef keyword type name semicolon => simp [definitionForm, Definition.Form.tokens]
  | callback keyword name assign result arguments semicolon =>
    simp [definitionForm, Definition.Form.tokens]
  | includes name keyword mixin semicolon =>
    simp [definitionForm, Definition.Form.tokens]

theorem textContent_definitionElement {d : Definition} (place : Place)
    (h : ∀ m ∈ d.members, m.IsPlain) :
    textContent (rendering.definitionElement d place) = written d.tokens := by
  have hform := rendering.textContents_definitionForm d place h
  unfold definitionElement Definition.tokens
  cases d.attrs <;> simp [hform]

end Rendering

end WebIdl
