import WebIdl.Proofs.Anchor.Ids
import WebIdl.Proofs.Markup.Collect
import WebIdl.Proofs.Syntax.Tokens

/-!
# The ids in rendered syntax

The ids that are generated stand on the elements around definitions and members and on their names,
and nowhere else: types, arguments, values and links carry none.

* `Rendering.sees_ids` — links have no ids, so the nested syntax carries none.
* `Rendering.ids_member` — the ids of a member, `Anchor.Plan.memberIds`.
* `Rendering.ids_definition` — those of a definition, `Anchor.Plan.definitionIds`, and then those of
  its members.
-/

namespace WebIdl

/-! ### Attributes -/

namespace StartTag

theorem lookup_put (name value key : String) (attributes : List (String × String)) :
    (put name value attributes).lookup key =
      if key = name then some value else attributes.lookup key := by
  induction attributes with
  | nil =>
    by_cases hkey : key = name
    · simp [put, hkey]
    · simp [put, List.lookup_cons, hkey, beq_false_of_ne hkey]
  | cons first attributes ih =>
    obtain ⟨n, v⟩ := first
    unfold put
    by_cases hkey : key = name
    · subst hkey
      by_cases hn : n = key
      · simp [hn]
      · simp [hn, List.lookup_cons, beq_false_of_ne (Ne.symm hn), ih]
    · by_cases hn : n = name
      · subst hn
        simp [List.lookup_cons, hkey, beq_false_of_ne hkey]
      · simp [hn, List.lookup_cons, hkey, ih]

@[simp] theorem id?_ofTag (tag : Tag) : (ofTag tag).id? = none := rfl

@[simp] theorem id?_addClass (head : StartTag) (c : String) : (head.addClass c).id? = head.id? := by
  unfold addClass
  split <;> rfl

@[simp] theorem id?_setAttr (head : StartTag) (name value : String) :
    (head.setAttr name value).id? = if name = "id" then some value else head.id? := by
  simp only [id?, attr?, setAttr, lookup_put, eq_comm]

@[simp] theorem id?_setAttr? (head : StartTag) {name : String} (value : Option String)
    (h : name ≠ "id") : (head.setAttr? name value).id? = head.id? := by
  cases value <;> simp [setAttr?, h]

@[simp] theorem id?_span (c : String) : (span c).id? = none := by
  simp [span]

end StartTag

/-! ### Nodes in a row -/

namespace Markup

/-- The ids in nodes in a row, in order. -/
def ids (nodes : List Markup) : List String := (elementsOf nodes).filterMap (·.head.id?)

theorem ids_eq_collect (nodes : List Markup) : ids nodes = collect StartTag.id? nodes := rfl

@[simp] theorem ids_nil : ids [] = [] := by
  simp [ids_eq_collect]

@[simp] theorem ids_text_cons (s : String) (nodes : List Markup) :
    ids (.text s :: nodes) = ids nodes := by
  simp [ids_eq_collect]

@[simp] theorem ids_element_cons (head : StartTag) (children nodes : List Markup) :
    ids (.element head children :: nodes) = head.id?.toList ++ (ids children ++ ids nodes) := by
  simp [ids_eq_collect]

@[simp] theorem ids_append (xs ys : List Markup) : ids (xs ++ ys) = ids xs ++ ids ys := by
  simp [ids_eq_collect]

@[simp] theorem ids_join (nodes : List Markup) : ids (join nodes) = ids nodes := by
  simp [ids_eq_collect]

@[simp] theorem ids_wrap_cons (head : StartTag) (children nodes : List Markup) :
    ids (wrap head children :: nodes) = head.id?.toList ++ (ids children ++ ids nodes) := by
  simp [ids_eq_collect]

@[simp] theorem ids_label_cons (head : StartTag) (text : String) (nodes : List Markup) :
    ids (label head text :: nodes) = head.id?.toList ++ ids nodes := by
  simp [ids_eq_collect]

end Markup

namespace Rendering

open Markup

/-! ### Nested syntax -/

@[simp] theorem id?_linkHead (target : Target) (c : Option String) :
    (linkHead target c).id? = none := by
  unfold linkHead
  cases c <;> cases target.isInternal <;> simp

@[simp] theorem ids_trivia (s : String) : ids (trivia s) = [] :=
  collect_trivia StartTag.id?_span s

@[simp] theorem ids_token (t : Token) : ids (token t) = [] :=
  collect_token StartTag.id?_span t

@[simp] theorem ids_tokens (ts : List Token) : ids (tokens ts) = [] :=
  collect_tokens StartTag.id?_span ts

@[simp] theorem ids_literal (l : Literal) : ids (literal l) = [] :=
  collect_literal StartTag.id?_span l

@[simp] theorem ids_default (d : Default) : ids (default d) = [] :=
  collect_default StartTag.id?_span d

variable (rendering : Rendering)

/-- Links have no ids. -/
theorem sees_ids : rendering.Sees StartTag.id? fun _ => none where
  span := StartTag.id?_span
  type name nested := by simp
  extAttr name := by simp

@[simp] theorem ids_typeToken (t : Token) (name : String) :
    ids (rendering.typeToken t name) = [] := by
  simp [ids_eq_collect, collect_typeToken rendering.sees_ids t name false]

@[simp] theorem ids_extAttrList (list : ExtAttrList) : ids (rendering.extAttrList list) = [] := by
  simp [ids_eq_collect, collect_extAttrList rendering.sees_ids false]

@[simp] theorem ids_argumentList (list : ArgumentList) :
    ids (rendering.argumentList list) = [] := by
  simp [ids_eq_collect, collect_argumentList rendering.sees_ids false]

@[simp] theorem ids_outerType_cons (type : IdlType) (nodes : List Markup) :
    ids (rendering.outerType type :: nodes) = ids nodes := by
  simp [ids_eq_collect, collect_outerType_cons rendering.sees_ids false]

/-! ### Members -/

theorem ids_memberName_cons (owner : Definition) {m : Member} {place : MemberPlace}
    (c text : String) (hclaims : rendering.claims.member? place = none)
    (hname : m.name?.isSome = true) (nodes : List Markup) :
    ids (rendering.memberName owner m place c text :: nodes) =
      rendering.plan.nameIds place m ++ ids nodes := by
  obtain ⟨name, hname⟩ := Option.isSome_iff_exists.mp hname
  have hself : m.definesItself =
      !(m.kind == .operation && name == "toJSON" && hasExtAttr m.attrs "Default") := by
    simp [Member.definesItself, hname]
  unfold memberName Anchor.Plan.nameIds
  rw [hclaims, hself, hname]
  dsimp only [Option.getD_some]
  generalize (m.kind == .operation && name == "toJSON" && hasExtAttr m.attrs "Default") = isDefault
  cases isDefault with
  | true => simp
  | false => cases owner.isPartial <;> simp

theorem id?_memberHead (m : Member) (place : MemberPlace) :
    (rendering.memberHead m place).id? =
      m.name?.map fun name =>
        Anchor.memberWrapper m.scope name (rendering.plan.overload place) := by
  unfold memberHead
  cases m.name? <;> simp

theorem ids_memberForm (owner : Definition) {m : Member} {place : MemberPlace}
    (hclaims : rendering.claims.member? place = none) :
    ids (rendering.memberForm owner m place m.form) = rendering.plan.nameIds place m := by
  have hnamed (c text : String) (hname : m.name?.isSome = true) (nodes : List Markup) :=
    rendering.ids_memberName_cons owner c text hclaims hname nodes
  have hnameless (hname : m.name? = none) : rendering.plan.nameIds place m = [] := by
    simp [Anchor.Plan.nameIds, hname]
  obtain ⟨attrs, scope, form⟩ := m
  match form with
  | .attribute modifiers keyword type name semicolon =>
    simp [memberForm, memberNameToken, hnamed _ _ rfl]
  | .operation modifiers type none arguments semicolon =>
    simp [memberForm, hnameless rfl]
  | .operation modifiers type (some name) arguments semicolon =>
    simp [memberForm, memberNameToken, hnamed _ _ rfl]
  | .stringifier keyword semicolon => simp [memberForm, hnameless rfl]
  | .constructor keyword arguments semicolon =>
    simp [memberForm, memberNameToken, hnamed _ _ rfl]
  | .constant keyword type name assign value semicolon =>
    simp [memberForm, memberNameToken, hnamed _ _ rfl]
  | .field required type name d semicolon =>
    cases d <;> simp [memberForm, memberNameToken, hnamed _ _ rfl]
  | .enumValue value separator => simp [memberForm, enumValue, hnamed _ _ rfl]
  | .declaration modifiers keyword opening types closing arguments semicolon =>
    have htypes : ids (types.flatMap (fun type => [rendering.outerType type]) token) = [] := by
      rw [ids_eq_collect, collect_separated _ (collect_token StartTag.id?_span)]
      simp [← ids_eq_collect]
    cases arguments <;> simp [memberForm, htypes, hnameless rfl]

/-- Where the host defines no member, every member carries its own ids. -/
theorem ids_member (owner : Definition) {m : Member} {place : MemberPlace}
    (hclaims : rendering.claims.member? place = none) :
    ids (rendering.member owner m place) = rendering.plan.memberIds place m := by
  have hform := rendering.ids_memberForm owner (m := m) hclaims
  have hhead := rendering.id?_memberHead m place
  unfold member Anchor.Plan.memberIds Anchor.Plan.wrapperIds
  split
  · rename_i value separator hvalue
    have hwrapped : m.isWrapped = false := by simp [Member.isWrapped, hvalue]
    rw [hvalue, memberForm] at hform
    simpa [hwrapped] using hform
  · rename_i hvalue
    have hwrapped : m.isWrapped = true := by
      unfold Member.isWrapped
      split
      · rename_i value separator hform
        exact absurd hform (hvalue value separator)
      · rfl
    cases m.attrs <;> simp [hwrapped, hhead, hform]

/-! ### Definitions -/

theorem ids_members (owner : Definition) (place : Place)
    (hmember : ∀ p, rendering.claims.member? p = none) (members : List Member) (start : Nat) :
    ids ((members.zipIdx start).flatMap fun (m, index) =>
      rendering.member owner m (place.member index)) =
        (members.zipIdx start).flatMap fun (m, index) =>
          rendering.plan.memberIds (place.member index) m := by
  induction members generalizing start with
  | nil => simp
  | cons m members ih => simp [ih, rendering.ids_member owner (hmember _)]

section Definitions

variable {d : Definition} {place : Place}
  (howns : rendering.plan.owns place = true → d.isBase = true)

include howns

theorem owns_eq_false (h : d.isBase = false) : rendering.plan.owns place = false := by
  rw [← Bool.not_eq_true]
  intro hplan
  have hbase := howns hplan
  rw [h] at hbase
  cases hbase

theorem ids_definitionName (t : Token) (hclaims : rendering.claims.definition? place = none) :
    ids (rendering.definitionName d place t) =
      if rendering.plan.owns place then [Anchor.definitionName d.name] else [] := by
  unfold definitionName
  split
  · rename_i hpartial
    have hnot := rendering.owns_eq_false howns (by simp [Definition.isBase, hpartial])
    unfold partialName
    split <;> simp [hnot]
  · rw [hclaims]
    unfold definitionDfn
    cases rendering.plan.owns place <;> simp

theorem id?_definitionHead :
    (rendering.definitionHead d place).id? =
      if rendering.plan.owns place then some (Anchor.definitionWrapper d.name) else none := by
  unfold definitionHead
  split
  · rename_i hkind
    have hnot := rendering.owns_eq_false howns (by simp [Definition.isBase, bne, hkind])
    simp [hnot]
  · cases rendering.plan.owns place <;> simp

/-- The id of the name of a definition, and then the ids of its members. -/
theorem ids_definitionForm (hdefinition : rendering.claims.definition? place = none)
    (hmember : ∀ p, rendering.claims.member? p = none) :
    ids (rendering.definitionForm d place d.form) =
      (if rendering.plan.owns place then [Anchor.definitionName d.name] else []) ++
        d.members.zipIdx.flatMap fun (m, index) =>
          rendering.plan.memberIds (place.member index) m := by
  have hname (t : Token) := rendering.ids_definitionName howns t hdefinition
  have hmembers := rendering.ids_members d place hmember
  obtain ⟨attrs, form⟩ := d
  cases form with
  | container head name parent body =>
    have hparent : ids (parent.elim [] rendering.inheritance) = [] := by
      cases parent with
      | none => rfl
      | some parent =>
        simp only [Option.elim_some, inheritance]
        split <;> simp
    simp [definitionForm, hname, hparent, hmembers, Definition.members, Definition.Form.members]
  | typedef keyword type name semicolon =>
    simp [definitionForm, hname, Definition.members, Definition.Form.members]
  | callback keyword name assign result arguments semicolon =>
    simp [definitionForm, hname, Definition.members, Definition.Form.members]
  | includes name keyword mixin semicolon =>
    -- an includes statement is no base definition
    have hnot := rendering.owns_eq_false howns rfl
    simp [definitionForm, hnot, Definition.members, Definition.Form.members]

/-- Where the host defines nothing, a definition carries its own ids and those of its members. -/
theorem ids_definition (hdefinition : rendering.claims.definition? place = none)
    (hmember : ∀ p, rendering.claims.member? p = none) :
    ids (rendering.definition d place) =
      rendering.plan.definitionIds place d ++ d.members.zipIdx.flatMap fun (m, index) =>
        rendering.plan.memberIds (place.member index) m := by
  have hbare : rendering.plan.owns place = true → d.bare.isBase = true := by
    simpa [Definition.isBase] using howns
  have hhead := rendering.id?_definitionHead hbare
  have hform := rendering.ids_definitionForm hbare hdefinition hmember
  have hattrs : ids (d.bare.attrs.elim [] rendering.extAttrList) = [] := by
    cases d.bare.attrs <;> simp
  rw [d.name_bare] at hhead hform
  rw [d.members_bare] at hform
  unfold Rendering.definition definitionElement Anchor.Plan.definitionIds
  cases h : rendering.plan.owns place <;> simp_all

end Definitions

end Rendering

end WebIdl
