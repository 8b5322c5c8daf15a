import WebIdl.Proofs.Markup.Offending
import WebIdl.Proofs.Markup.Text
import WebIdl.Proofs.Syntax.Words

/-!
# Where comments are marked up

Trivia with a comment in it becomes an element of its own, wherever a token is rendered by itself.
Each construct renders its tokens in their order, and most of them one by one.

* `Markup.comments` — the elements around comments, with the stretches of text that they cover.
* `commentsBefore` — the trivia with comments in it before words, in its places; that before the
  words of a type name after the first is left out, since they are put into one text.
* `Rendering.comments_block` — the elements around comments in a block are what its words have of
  such trivia, and what trails them.
-/

namespace WebIdl

/-! ### Elements in their places -/

namespace Markup

mutual

/-- The element of a node and those inside it, each with the stretch of text that it covers, if the
text of the node starts at an offset. -/
def placed (offset : Nat) : Markup → List (Element × Text.Span)
  | .text _ => []
  | .element head children =>
    (⟨head, children⟩, ⟨offset, offset + (textContents children).utf8ByteSize⟩) ::
      placedOf offset children

/-- The same for nodes in a row. -/
def placedOf (offset : Nat) : List Markup → List (Element × Text.Span)
  | [] => []
  | node :: nodes =>
    placed offset node ++ placedOf (offset + (textContent node).utf8ByteSize) nodes

end

mutual

theorem map_fst_placed (offset : Nat) (node : Markup) :
    (placed offset node).map (·.1) = elements node := by
  match node with
  | .text s => simp [placed, elements]
  | .element head children => simp [placed, elements, map_fst_placedOf offset children]

/-- All elements have a place. -/
theorem map_fst_placedOf (offset : Nat) (nodes : List Markup) :
    (placedOf offset nodes).map (·.1) = elementsOf nodes := by
  match nodes with
  | [] => simp [placedOf, elementsOf]
  | node :: nodes => simp [placedOf, elementsOf, map_fst_placed, map_fst_placedOf _ nodes]

end

@[simp] theorem placedOf_nil (offset : Nat) : placedOf offset [] = [] := by
  simp [placedOf]

@[simp] theorem placedOf_text_cons (offset : Nat) (s : String) (nodes : List Markup) :
    placedOf offset (.text s :: nodes) = placedOf (offset + s.utf8ByteSize) nodes := by
  simp [placedOf, placed]

theorem placedOf_element_cons (offset : Nat) (head : StartTag) (children nodes : List Markup) :
    placedOf offset (.element head children :: nodes) =
      (⟨head, children⟩, ⟨offset, offset + (textContents children).utf8ByteSize⟩) ::
        (placedOf offset children ++
          placedOf (offset + (textContents children).utf8ByteSize) nodes) := by
  simp [placedOf, placed]

theorem placedOf_append (offset : Nat) (xs ys : List Markup) :
    placedOf offset (xs ++ ys) =
      placedOf offset xs ++ placedOf (offset + (textContents xs).utf8ByteSize) ys := by
  induction xs generalizing offset with
  | nil => simp
  | cons x xs ih => simp [placedOf, ih, Nat.add_assoc]

theorem placedOf_join (offset : Nat) (nodes : List Markup) :
    placedOf offset (join nodes) = placedOf offset nodes := by
  induction nodes generalizing offset with
  | nil => rfl
  | cons node nodes ih =>
    cases node with
    | element head children => simp [join, placedOf, ih]
    | text s =>
      unfold join
      split
      · rename_i hempty
        obtain rfl : s = "" := by simpa using hempty
        simp [ih]
      · split
        · rename_i t rest hrest
          have ih := ih (offset + s.utf8ByteSize)
          rw [hrest, placedOf_text_cons] at ih
          simp [← ih, Nat.add_assoc]
        · simp [ih]

end Markup

/-! ### Comments in their places -/

/-- The element is made around trivia with a comment. -/
def StartTag.isComment (head : StartTag) : Bool :=
  head.tag == .span && head.hasClass "idlSectionComment"

namespace StartTag

theorem isComment_of_tag_ne {head : StartTag} (h : head.tag ≠ .span) : head.isComment = false := by
  simp [isComment, h]

@[simp] theorem isComment_span (c : String) :
    (span c).isComment = decide (c = "idlSectionComment") := by
  simp [isComment, span, hasClass_addClass, beq_eq_decide, eq_comm]

@[simp] theorem isComment_setAttr (head : StartTag) (name value : String) :
    (head.setAttr name value).isComment = head.isComment := rfl

end StartTag

@[simp] theorem Definition.Kind.cssClass_ne_comment (kind : Kind) :
    kind.cssClass ≠ "idlSectionComment" := by
  cases kind <;> decide

@[simp] theorem Member.Kind.cssClass_ne_comment (kind : Kind) :
    kind.cssClass ≠ "idlSectionComment" := by
  cases kind <;> decide

namespace Markup

/-- The elements around comments in nodes in a row: their texts, and the stretches they cover. -/
def comments (offset : Nat) (nodes : List Markup) : List (String × Text.Span) :=
  (placedOf offset nodes).filterMap fun (e, span) =>
    if e.head.isComment then some (e.textContent, span) else none

/-- No element around a comment is left out. -/
theorem exists_mem_comments (offset : Nat) {nodes : List Markup} {e : Element}
    (he : e ∈ elementsOf nodes) (hcomment : e.head.isComment = true) :
    ∃ c ∈ comments offset nodes, c.1 = e.textContent := by
  rw [← map_fst_placedOf offset nodes] at he
  obtain ⟨⟨e, span⟩, hplaced, rfl⟩ := List.mem_map.mp he
  exact ⟨(e.textContent, span), List.mem_filterMap.mpr ⟨_, hplaced, if_pos hcomment⟩, rfl⟩

@[simp] theorem comments_nil (offset : Nat) : comments offset [] = [] := by
  simp [comments]

@[simp] theorem comments_text_cons (offset : Nat) (s : String) (nodes : List Markup) :
    comments offset (.text s :: nodes) = comments (offset + s.utf8ByteSize) nodes := by
  simp [comments]

@[simp] theorem comments_append (offset : Nat) (xs ys : List Markup) :
    comments offset (xs ++ ys) =
      comments offset xs ++ comments (offset + (textContents xs).utf8ByteSize) ys := by
  simp [comments, placedOf_append]

@[simp] theorem comments_join (offset : Nat) (nodes : List Markup) :
    comments offset (join nodes) = comments offset nodes := by
  rw [comments, placedOf_join, comments]

variable {head : StartTag}

@[simp] theorem comments_wrap_cons (h : head.isComment = false) (offset : Nat)
    (children nodes : List Markup) :
    comments offset (wrap head children :: nodes) =
      comments offset children ++
        comments (offset + (textContents children).utf8ByteSize) nodes := by
  simp [comments, wrap, placedOf_element_cons, h, placedOf_join]

@[simp] theorem comments_label_cons (h : head.isComment = false) (offset : Nat) (text : String)
    (nodes : List Markup) :
    comments offset (label head text :: nodes) = comments (offset + text.utf8ByteSize) nodes := by
  simp [label, comments_wrap_cons h]

end Markup

/-- Trivia that is made an element of, in its place. -/
def commentAt (offset : Nat) (trivia : String) : List (String × Text.Span) :=
  if hasComment trivia then [(trivia, ⟨offset, offset + trivia.utf8ByteSize⟩)] else []

/-- The trivia with comments in it before words in a row, if they start at an offset; that before
later words is passed over. -/
def commentsBefore : Nat → List Word → List (String × Text.Span)
  | _, [] => []
  | offset, word :: rest =>
    (if word.later then [] else commentAt offset word.token.trivia) ++
      commentsBefore (offset + word.token.written.utf8ByteSize) rest

@[simp] theorem commentsBefore_nil (offset : Nat) : commentsBefore offset [] = [] := rfl

@[simp] theorem commentsBefore_plain_cons (offset : Nat) (t : Token) (rest : List Word) :
    commentsBefore offset (⟨t, false⟩ :: rest) =
      commentAt offset t.trivia ++ commentsBefore (offset + t.written.utf8ByteSize) rest := rfl

@[simp] theorem commentsBefore_append (offset : Nat) (xs ys : List Word) :
    commentsBefore offset (xs ++ ys) = commentsBefore offset xs ++
      commentsBefore (offset + (written (xs.map Word.token)).utf8ByteSize) ys := by
  induction xs generalizing offset with
  | nil => simp
  | cons x xs ih => simp [commentsBefore, ih, Nat.add_assoc]

/-- What stands before the words after the first of a type name is passed over. -/
@[simp] theorem commentsBefore_later (offset : Nat) (ts : List Token) :
    commentsBefore offset (ts.map (⟨·, true⟩)) = [] := by
  induction ts generalizing offset with
  | nil => rfl
  | cons t ts ih => simp [commentsBefore, ih]

namespace Rendering

open Markup StartTag

/-! ### Tokens, literals and values -/

@[simp] theorem isComment_linkHead (target : Target) (c : Option String) :
    (linkHead target c).isComment = false :=
  isComment_of_tag_ne (by simp [tag_linkHead])

@[simp] theorem comments_trivia (offset : Nat) (s : String) :
    comments offset (trivia s) = commentAt offset s := by
  unfold trivia commentAt
  by_cases hempty : s = ""
  · subst hempty
    rfl
  · rw [if_neg (by simpa using hempty)]
    by_cases hcomment : hasComment s
    · simp [hcomment, comments, label, wrap, placedOf_element_cons, placedOf_join,
        Element.textContent]
    · simp [hcomment]

@[simp] theorem comments_token (offset : Nat) (t : Token) :
    comments offset (token t) = commentAt offset t.trivia := by
  simp [token]

@[simp] theorem comments_tokens (offset : Nat) (ts : List Token) :
    comments offset (tokens ts) = commentsBefore offset (plain ts) := by
  induction ts generalizing offset with
  | nil => rfl
  | cons t ts ih =>
    have htail : tokens (t :: ts) = token t ++ tokens ts := List.flatMap_cons
    rw [htail]
    simp [ih]

theorem comments_linked_cons (offset : Nat) (target : Option Target) (text : String)
    (nodes : List Markup) :
    comments offset (linked target text :: nodes) =
      comments (offset + text.utf8ByteSize) nodes := by
  cases target with
  | none => simp [linked]
  | some target => simp [linked]

@[simp] theorem comments_literal (offset : Nat) (l : Literal) :
    comments offset (literal l) = commentsBefore offset (plain l.tokens) := by
  cases l <;>
    simp [literal, Literal.tokens,
      Token.written, Nat.add_assoc]

@[simp] theorem comments_default (offset : Nat) (d : Default) :
    comments offset (default d) = commentsBefore offset (plain d.tokens) := by
  simp [default, Default.tokens]

theorem comments_separated {α : Type} {f : α → List Markup} {g : Token → List Markup}
    {ofItem : α → List Word}
    (hf : ∀ a, textContents (f a) = written ((ofItem a).map Word.token) ∧
      ∀ offset, comments offset (f a) = commentsBefore offset (ofItem a))
    (hg : ∀ t, textContents (g t) = t.written ∧
      ∀ offset, comments offset (g t) = commentAt offset t.trivia)
    (offset : Nat) (items : Separated α) :
    comments offset (items.flatMap f g) =
      commentsBefore offset (items.flatMap ofItem fun t => plain [t]) := by
  induction items generalizing offset with
  | last a => exact (hf a).2 offset
  | cons a separator rest ih => simp [Separated.flatMap, hf, hg, ih, Nat.add_assoc]

variable (rendering : Rendering)

@[simp] theorem comments_typeToken (offset : Nat) (t : Token) (name : String) :
    comments offset (rendering.typeToken t name) = commentAt offset t.trivia := by
  simp [typeToken, comments_linked_cons]

@[simp] theorem comments_valueItem (offset : Nat) (namesGlobal : Bool) (t : Token) :
    comments offset (rendering.valueItem namesGlobal t) = commentAt offset t.trivia := by
  simp [valueItem, comments_linked_cons]

@[simp] theorem comments_extAttrValue (offset : Nat) (namesGlobal : Bool) (value : ExtAttr.Value) :
    comments offset (rendering.extAttrValue namesGlobal value) =
      commentsBefore offset (plain value.tokens) := by
  cases value with
  | scalar kind t => cases kind <;> simp [extAttrValue, ExtAttr.Value.tokens]
  | list opening items closing =>
    have htext := textContents_separated
      (fun t => (rendering.textContents_valueItem namesGlobal t).trans (by simp : _ = written [t]))
      textContents_token items
    have hitems (offset : Nat) :
        comments offset (items.flatMap (rendering.valueItem namesGlobal) token) =
          commentsBefore offset (plain (items.tokens ([·]))) := by
      rw [plain_separated]
      exact comments_separated (by simp) (by simp) offset items
    simp [extAttrValue, ExtAttr.Value.tokens, htext, hitems, Nat.add_assoc]

@[simp] theorem comments_assignment (offset : Nat) (namesGlobal : Bool)
    (value : Option ExtAttr.Assignment) :
    comments offset (rendering.assignment namesGlobal value) =
      commentsBefore offset (plain (value.elim [] (·.tokens))) := by
  cases value <;> simp [assignment, ExtAttr.Assignment.tokens]

theorem comments_extAttrStart (offset : Nat) (name : Token) (value : Option ExtAttr.Assignment) :
    comments offset (rendering.extAttrStart name value) =
      commentsBefore (offset + name.text.utf8ByteSize) (plain (value.elim [] (·.tokens))) := by
  simp [extAttrStart, comments_linked_cons]

/-! ### Types, arguments and extended attributes -/

mutual

@[simp] theorem comments_extAttrList (offset : Nat) (list : ExtAttrList) :
    comments offset (rendering.extAttrList list) = commentsBefore offset list.words := by
  match list with
  | .mk opening items closing =>
    simp [extAttrList, ExtAttrList.words, comments_extAttrs _ items, textContents_extAttrs,
      map_token_extAttrWords, Nat.add_assoc]

theorem comments_extAttrs (offset : Nat) (items : Separated ExtAttr) :
    comments offset (rendering.extAttrs items) = commentsBefore offset (extAttrWords items) := by
  match items with
  | .last attr => simp [extAttrs, extAttrWords, comments_extAttr _ attr]
  | .cons attr separator rest =>
    simp [extAttrs, extAttrWords, comments_extAttr _ attr, comments_extAttrs _ rest,
      textContents_extAttr, attr.map_token_words, Nat.add_assoc]

theorem comments_extAttr (offset : Nat) (attr : ExtAttr) :
    comments offset (rendering.extAttr attr) = commentsBefore offset attr.words := by
  match attr with
  | .mk name value none =>
    simp [extAttr, ExtAttr.words, comments_extAttrStart, Token.written, Nat.add_assoc]
  | .mk name value (some arguments) =>
    simp [extAttr, ExtAttr.words, comments_extAttrStart, Token.written,
      comments_argumentList _ arguments, Nat.add_assoc]

@[simp] theorem comments_argumentList (offset : Nat) (list : ArgumentList) :
    comments offset (rendering.argumentList list) = commentsBefore offset list.words := by
  match list with
  | .mk opening none closing => simp [argumentList, ArgumentList.words]
  | .mk opening (some items) closing =>
    simp [argumentList, ArgumentList.words, comments_arguments _ items, textContents_arguments,
      map_token_argumentWords, Nat.add_assoc]

theorem comments_arguments (offset : Nat) (items : Separated Argument) :
    comments offset (rendering.arguments items) = commentsBefore offset (argumentWords items) := by
  match items with
  | .last a => simp [arguments, argumentWords, comments_argument_cons _ a]
  | .cons a separator rest =>
    simp [arguments, argumentWords, comments_argument_cons _ a, comments_arguments _ rest,
      a.map_token_words, Nat.add_assoc]

theorem comments_argument_cons (offset : Nat) (a : Argument) (nodes : List Markup) :
    comments offset (rendering.argument a :: nodes) = commentsBefore offset a.words ++
      comments (offset + (written a.tokens).utf8ByteSize) nodes := by
  rw [← rendering.textContent_argument a]
  match a with
  | .required none type variadic name =>
    simp [argument, Argument.words, comments_outerType_cons _ type, Nat.add_assoc]
  | .required (some attrs) type variadic name =>
    simp [argument, Argument.words, comments_extAttrList _ attrs, comments_outerType_cons _ type,
      Nat.add_assoc]
  | .optional none keyword type name d =>
    cases d <;>
      simp [argument, Argument.words, comments_outerType_cons _ type, Token.written, Nat.add_assoc]
  | .optional (some attrs) keyword type name d =>
    cases d <;>
      simp [argument, Argument.words, comments_extAttrList _ attrs, comments_outerType_cons _ type,
        Token.written, Nat.add_assoc]

theorem comments_outerType_cons (offset : Nat) (type : IdlType) (nodes : List Markup) :
    comments offset (rendering.outerType type :: nodes) = commentsBefore offset type.words ++
      comments (offset + (written type.tokens).utf8ByteSize) nodes := by
  rw [← rendering.textContent_outerType type]
  match type with
  | .mk none form nullable =>
    simp [outerType, IdlType.words, comments_typeForm _ form, textContents_typeForm,
      form.map_token_words]
  | .mk (some attrs) form nullable =>
    simp [outerType, IdlType.words, comments_extAttrList _ attrs, comments_typeForm _ form,
      textContents_typeForm, form.map_token_words, Nat.add_assoc]

theorem comments_innerType (offset : Nat) (type : IdlType) :
    comments offset (rendering.innerType type) = commentsBefore offset type.words := by
  match type with
  | .mk none form nullable =>
    simp [innerType, IdlType.words, comments_typeForm _ form, textContents_typeForm,
      form.map_token_words]
  | .mk (some attrs) form nullable =>
    simp [innerType, IdlType.words, comments_extAttrList _ attrs, comments_typeForm _ form,
      textContents_typeForm, form.map_token_words, Nat.add_assoc]

/-- A name of several words is one text: only what stands before its first word is made an element
of. -/
theorem comments_typeForm (offset : Nat) (form : TypeForm) :
    comments offset (rendering.typeForm form) = commentsBefore offset form.words := by
  match form with
  | .named first rest => simp [typeForm, TypeForm.words, comments_linked_cons]
  | .generic name opening arguments closing =>
    simp [typeForm, TypeForm.words, comments_types _ arguments, textContents_types, Nat.add_assoc]
  | .union opening first separator rest closing =>
    simp [typeForm, TypeForm.words, comments_innerType _ first, comments_types _ rest,
      textContents_innerType, textContents_types, Nat.add_assoc]

theorem comments_types (offset : Nat) (types : Separated IdlType) :
    comments offset (rendering.types types) = commentsBefore offset (typeWords types) := by
  match types with
  | .last type => simp [Rendering.types, typeWords, comments_innerType _ type]
  | .cons type separator rest =>
    simp [Rendering.types, typeWords, comments_innerType _ type, comments_types _ rest,
      textContents_innerType, Nat.add_assoc]

end

/-! ### Members -/

theorem comments_memberName_cons (offset : Nat) (owner : Definition) (m : Member)
    (place : MemberPlace) (c text : String) (nodes : List Markup) :
    comments offset (rendering.memberName owner m place c text :: nodes) =
      comments (offset + text.utf8ByteSize) nodes := by
  have hhead := isComment_of_tag_ne (rendering.tag_memberNameHead owner m place c)
  rw [memberName_eq, comments_label_cons hhead]

@[simp] theorem comments_memberNameToken (offset : Nat) (owner : Definition) (m : Member)
    (place : MemberPlace) (t : Token) :
    comments offset (rendering.memberNameToken owner m place t) = commentAt offset t.trivia := by
  simp [memberNameToken, comments_memberName_cons]

@[simp] theorem isComment_memberHead (m : Member) (place : MemberPlace) :
    (rendering.memberHead m place).isComment = false := by
  unfold memberHead
  cases m.name? <;> simp

theorem comments_enumValue (offset : Nat) (owner : Definition) (m : Member) (place : MemberPlace)
    {value : Token} (separator : Option Token) (h : Lexeme.IsQuoted value.text) :
    comments offset (rendering.enumValue owner m place value separator) =
      commentsBefore offset (plain (value :: separator.toList)) := by
  have htext : ("\"" ++ (unquote value.text ++ "\"")).utf8ByteSize = value.text.utf8ByteSize := by
    rw [← String.append_assoc, quote_unquote h]
  simp only [String.utf8ByteSize_append] at htext
  simp [enumValue, comments_memberName_cons, Token.written, htext, Nat.add_assoc]

theorem comments_memberForm (offset : Nat) (owner : Definition) (m : Member) (place : MemberPlace)
    {form : Member.Form} (h : ∀ value separator, form = .enumValue value separator →
      Lexeme.IsQuoted value.text) :
    comments offset (rendering.memberForm owner m place form) =
      commentsBefore offset form.words := by
  match form, h with
  | .attribute modifiers keyword type name semicolon, _ =>
    simp [memberForm, Member.Form.words, comments_outerType_cons, Nat.add_assoc]
  | .operation modifiers type name arguments semicolon, _ =>
    cases name <;> simp [memberForm, Member.Form.words, comments_outerType_cons, Nat.add_assoc]
  | .stringifier keyword semicolon, _ => simp [memberForm, Member.Form.words]
  | .constructor keyword arguments semicolon, _ =>
    simp [memberForm, Member.Form.words, Nat.add_assoc]
  | .constant keyword type name assign value semicolon, _ =>
    simp [memberForm, Member.Form.words, comments_outerType_cons, Nat.add_assoc]
  | .field required type name d semicolon, _ =>
    cases d <;> simp [memberForm, Member.Form.words, comments_outerType_cons, Nat.add_assoc]
  | .enumValue value separator, h =>
    exact rendering.comments_enumValue offset owner m place separator (h value separator rfl)
  | .declaration modifiers keyword opening types closing arguments semicolon, _ =>
    have htext := textContents_separated
      (fun type => (by simp : textContents [rendering.outerType type] = written type.tokens))
      textContents_token types
    have htypes (offset : Nat) :
        comments offset (types.flatMap (fun type => [rendering.outerType type]) token) =
          commentsBefore offset (typeWords types) := by
      rw [typeWords_eq]
      exact comments_separated (by simp [comments_outerType_cons]) (by simp) offset types
    cases arguments <;>
      simp [memberForm, Member.Form.words, htext, htypes, typeTokens_eq, Nat.add_assoc]

theorem comments_member (offset : Nat) (owner : Definition) {m : Member} (place : MemberPlace)
    (h : m.IsPlain) :
    comments offset (rendering.member owner m place) = commentsBefore offset m.words := by
  obtain ⟨attrs, scope, form⟩ := m
  unfold member
  split
  · rename_i value separator hform
    obtain rfl : form = .enumValue value separator := hform
    obtain ⟨hquoted, hattrs⟩ := h value separator rfl
    obtain rfl : attrs = none := hattrs
    simpa [Member.words, Member.Form.words] using
      rendering.comments_enumValue offset owner _ place separator hquoted
  · have hform (offset : Nat) := rendering.comments_memberForm offset owner ⟨attrs, scope, form⟩
      place fun value separator hform => (h value separator hform).1
    cases attrs <;> simp [Member.words, hform]

/-! ### Definitions -/

@[simp] theorem isComment_nameHead (d : Definition) (place : Place) :
    (rendering.nameHead d place).isComment = false := by
  unfold nameHead
  split
  · unfold partialHead
    split
    · simp
    · have hspan : ((StartTag.span "idlID").addClass offendingClass).isComment = false := by decide
      exact hspan
  · apply isComment_of_tag_ne
    split
    · simp [tag_termLinkHead]
    · unfold definitionDfn
      dsimp only
      split <;> simp

@[simp] theorem comments_definitionName (offset : Nat) (d : Definition) (place : Place)
    (t : Token) :
    comments offset (rendering.definitionName d place t) = commentAt offset t.trivia := by
  simp [definitionName_eq]

@[simp] theorem comments_inheritance (offset : Nat) (parent : Definition.Inheritance) :
    comments offset (rendering.inheritance parent) =
      commentsBefore offset (plain [parent.colon, parent.name]) := by
  unfold inheritance
  split <;> simp

theorem comments_members (offset : Nat) (owner : Definition) (place : Place)
    {members : List Member} (h : ∀ m ∈ members, m.IsPlain) (start : Nat) :
    comments offset ((members.zipIdx start).flatMap fun entry =>
      rendering.member owner entry.1 (place.member entry.2)) =
        commentsBefore offset (members.flatMap (·.words)) := by
  induction members generalizing offset start with
  | nil => simp
  | cons m members ih =>
    have hm := h m List.mem_cons_self
    have hmembers := fun m hm => h m (List.mem_cons_of_mem _ hm)
    simp [rendering.comments_member _ owner _ hm, rendering.textContents_member owner _ hm,
      ih _ hmembers]

theorem comments_definitionForm (offset : Nat) (d : Definition) (place : Place)
    {form : Definition.Form} (h : ∀ m ∈ form.members, m.IsPlain) :
    comments offset (rendering.definitionForm d place form) = commentsBefore offset form.words := by
  cases form with
  | container head name parent body =>
    have h : ∀ m ∈ body.members, m.IsPlain := h
    have hmembers (offset : Nat) := rendering.comments_members offset d place h 0
    have htext := rendering.textContents_members d place h 0
    cases parent <;>
      simp [definitionForm, Definition.Form.words, hmembers, htext, Nat.add_assoc,
        map_token_flatMap Member.map_token_words]
  | typedef keyword type name semicolon =>
    simp [definitionForm, Definition.Form.words, comments_outerType_cons, Nat.add_assoc]
  | callback keyword name assign result arguments semicolon =>
    simp [definitionForm, Definition.Form.words, comments_outerType_cons, Nat.add_assoc]
  | includes name keyword mixin semicolon =>
    simp [definitionForm, Definition.Form.words, Nat.add_assoc]

@[simp] theorem isComment_definitionHead (d : Definition) (place : Place) :
    (rendering.definitionHead d place).isComment = false := by
  unfold definitionHead
  dsimp only
  split
  · simp
  · split <;> simp

theorem comments_definitionElement (offset : Nat) {d : Definition} (place : Place)
    (h : ∀ m ∈ d.members, m.IsPlain) :
    comments offset [rendering.definitionElement d place] = commentsBefore offset d.words := by
  have hform (offset : Nat) := rendering.comments_definitionForm offset d place h
  unfold definitionElement Definition.words
  cases d.attrs <;> simp [hform]

/-- The trivia before the first token stands before the element of the definition. -/
theorem comments_definition (offset : Nat) {d : Definition} (place : Place)
    (h : ∀ m ∈ d.members, m.IsPlain) :
    comments offset (rendering.definition d place) = commentsBefore offset d.words := by
  have hbare : ∀ m ∈ d.bare.members, m.IsPlain := by
    rw [d.members_bare]
    exact h
  obtain ⟨rest, hwords, hbareWords⟩ := d.words_bare
  have helement := rendering.comments_definitionElement (offset + d.leadingTrivia.utf8ByteSize)
    place hbare
  have hnone (offset : Nat) : commentAt offset "" = [] := rfl
  rw [definition, comments_append, comments_trivia, textContents_trivia, helement, hwords,
    hbareWords, commentsBefore_plain_cons, commentsBefore_plain_cons]
  simp [Token.bare, Token.written, hnone, Definition.leadingTrivia, Nat.add_assoc]

theorem textContents_definition {d : Definition} (place : Place) (h : ∀ m ∈ d.members, m.IsPlain) :
    textContents (rendering.definition d place) = written d.tokens := by
  have hbare : ∀ m ∈ d.bare.members, m.IsPlain := by
    rw [d.members_bare]
    exact h
  simp [definition, rendering.textContent_definitionElement place hbare, d.written_tokens,
    d.written_tokens_bare]

section Blocks

variable {definitions : List Definition} (h : ∀ d ∈ definitions, ∀ m ∈ d.members, m.IsPlain)

include h

theorem textContents_definitions (index start : Nat) :
    textContents ((definitions.zipIdx start).flatMap fun entry =>
      rendering.definition entry.1 ⟨index, entry.2⟩) =
        written (definitions.flatMap (·.tokens)) := by
  induction definitions generalizing start with
  | nil => simp
  | cons d definitions ih =>
    have hd := h d List.mem_cons_self
    have hmore := fun d hd => h d (List.mem_cons_of_mem _ hd)
    simp [rendering.textContents_definition _ hd, ih hmore]

theorem comments_definitions (offset index start : Nat) :
    comments offset ((definitions.zipIdx start).flatMap fun entry =>
      rendering.definition entry.1 ⟨index, entry.2⟩) =
        commentsBefore offset (definitions.flatMap (·.words)) := by
  induction definitions generalizing offset start with
  | nil => simp
  | cons d definitions ih =>
    have hd := h d List.mem_cons_self
    have hmore := fun d hd => h d (List.mem_cons_of_mem _ hd)
    simp [rendering.comments_definition _ _ hd, rendering.textContents_definition _ hd, ih hmore]

end Blocks

/-- What is made an element of in a block without syntax errors is the trivia with comments in it,
but for that between the words of a type name. -/
theorem comments_block {block : Block} (h : ∀ d ∈ block.definitions, ∀ m ∈ d.members, m.IsPlain)
    (hremainder : block.remainder = none) (index : Nat) :
    comments 0 (rendering.block block index).children =
      commentsBefore 0 (block.definitions.flatMap (·.words)) ++
        commentAt (written (block.definitions.flatMap (·.tokens))).utf8ByteSize block.trailing := by
  have htext := rendering.textContents_definitions h index 0
  have hcomments := rendering.comments_definitions h 0 index 0
  rw [Rendering.block, comments_join, comments_append, hcomments, htext, hremainder,
    Option.elim_none, comments_trivia, Nat.zero_add]

end Rendering

end WebIdl
