import WebIdl.Proofs.Link.Sites
import WebIdl.Proofs.Markup.Template

/-!
# What rendering looks up

Rendering a definition resolves no other names as types than those at its sites. Its markup is a
template that does not depend on where types lead, with a hole for the name at every such site.

* `Rendering.Agrees` — two renderings differ at most in what some types resolve to, and they agree on
  those at some sites.
* `Rendering.Templated` — what is rendered comes from one template, whose holes are the names at the
  given sites in their order.
* `Rendering.outerType_templated` and the lemmas with it — by one induction over types, arguments
  and extended attributes.
* `Rendering.definition_congr` — a definition is rendered alike wherever the names that it looks up
  resolve alike, and `Rendering.block_congr` — so is a block.
* `Rendering.block_templated` — the holes in a block, once the names are known that need no lookup.
-/

namespace WebIdl

namespace Rendering

/-! ### Renderings that share their templates -/

/-- Two renderings differ in nothing but what types resolve to, and not at these sites. -/
structure Agrees (r r' : Rendering) (sites : List Site) : Prop where
  plan : r.plan = r'.plan
  claims : r.claims = r'.claims
  baseUrl : r.resolver.baseUrl = r'.resolver.baseUrl
  type : ∀ name nested, .type name nested ∈ sites →
    r.resolver.type? name = r'.resolver.type? name

namespace Agrees

variable {r r' : Rendering} {sites : List Site}

theorem extAttr?_eq (h : Agrees r r' sites) (name : String) :
    r.resolver.extAttr? name = r'.resolver.extAttr? name := by
  simp only [Resolver.extAttr?, Resolver.specUrl, h.baseUrl]

theorem defaultToJson_eq (h : Agrees r r' sites) :
    r.resolver.defaultToJson = r'.resolver.defaultToJson := by
  simp only [Resolver.defaultToJson, Resolver.specUrl, h.baseUrl]

end Agrees

section Alike

variable {r r' : Rendering} {sites : List Site}

/-- Where no global is named, a value leads nowhere. -/
theorem extAttrValue_false (r r' : Rendering) (value : ExtAttr.Value) :
    r.extAttrValue false value = r'.extAttrValue false value := by
  cases value with
  | scalar kind t => cases kind <;> rfl
  | list opening items closing => rfl

theorem memberName_congr (h : Agrees r r' sites) (owner : Definition) (m : Member)
    (place : MemberPlace) (c text : String) :
    r.memberName owner m place c text = r'.memberName owner m place c text := by
  unfold memberName
  rw [h.claims, h.plan, h.defaultToJson_eq]

theorem memberNameToken_congr (h : Agrees r r' sites) (owner : Definition) (m : Member)
    (place : MemberPlace) (t : Token) :
    r.memberNameToken owner m place t = r'.memberNameToken owner m place t := by
  rw [memberNameToken, memberNameToken, memberName_congr h]

theorem enumValue_congr (h : Agrees r r' sites) (owner : Definition) (m : Member)
    (place : MemberPlace) (value : Token) (separator : Option Token) :
    r.enumValue owner m place value separator = r'.enumValue owner m place value separator := by
  rw [enumValue, enumValue, memberName_congr h]

theorem memberHead_congr (h : Agrees r r' sites) (m : Member) (place : MemberPlace) :
    r.memberHead m place = r'.memberHead m place := by
  unfold memberHead
  rw [h.plan]

theorem definitionName_congr (h : Agrees r r' sites) (d : Definition) (place : Place)
    (hpartial : ¬d.isPartial) (t : Token) :
    r.definitionName d place t = r'.definitionName d place t := by
  unfold definitionName definitionDfn
  rw [h.claims, h.plan, if_neg hpartial, if_neg hpartial]

end Alike

/-- What `nodes` renders comes from one template, with a hole for every name that is looked up at the
sites. -/
def Templated (r : Rendering) (sites : List Site) (nodes : Rendering → List Markup) : Prop :=
  ∃ parts : List Template,
    (Template.holesAll parts).map Hole.name = sites.filterMap Site.lookup? ∧
      ∀ r', Agrees r r' [] → nodes r' = Template.fillAll r'.resolver.type? parts

namespace Templated

variable {r : Rendering} {sites rest : List Site} {nodes more : Rendering → List Markup}

theorem congr (h : Templated r sites nodes) (heq : ∀ r', Agrees r r' [] → more r' = nodes r') :
    Templated r sites more := by
  obtain ⟨parts, hholes, hfill⟩ := h
  refine ⟨parts, hholes, ?_⟩
  intro r' hagrees
  rw [heq r' hagrees, hfill r' hagrees]

/-- Where the names that are looked up resolve alike, the holes are filled alike. -/
theorem eq_of_agrees {r' : Rendering} (h : Templated r sites nodes) (hagrees : Agrees r r' sites) :
    nodes r = nodes r' := by
  obtain ⟨parts, hholes, hfill⟩ := h
  rw [hfill r ⟨rfl, rfl, rfl, nofun⟩,
    hfill r' ⟨hagrees.plan, hagrees.claims, hagrees.baseUrl, nofun⟩]
  apply Template.fillAll_congr
  intro name hname
  rw [hholes, List.mem_filterMap] at hname
  obtain ⟨site, hsite, hlookup⟩ := hname
  cases site with
  | type _ nested =>
    obtain rfl := Option.some.inj hlookup
    exact hagrees.type _ nested hsite
  | extAttr | definition | member => cases hlookup

/-- Sites at which no types are looked up do not count. -/
theorem of_lookups (h : Templated r sites nodes)
    (heq : rest.filterMap Site.lookup? = sites.filterMap Site.lookup?) : Templated r rest nodes := by
  obtain ⟨parts, hholes, hfill⟩ := h
  exact ⟨parts, hholes.trans heq.symm, hfill⟩

theorem fixed (list : List Markup) : Templated r [] fun _ => list := by
  refine ⟨list.map .fixed, by simp [Template.holesAll_fixed], ?_⟩
  intro r' _
  rw [Template.fillAll_fixed]

theorem append (h : Templated r sites nodes) (hmore : Templated r rest more) :
    Templated r (sites ++ rest) fun r' => nodes r' ++ more r' := by
  obtain ⟨parts, hholes, hfill⟩ := h
  obtain ⟨parts', hholes', hfill'⟩ := hmore
  refine ⟨parts ++ parts', by simp [hholes, hholes'], ?_⟩
  intro r' hagrees
  show nodes r' ++ more r' = _
  rw [Template.fillAll_append, hfill r' hagrees, hfill' r' hagrees]

/-- What does not depend on the answers may come before. -/
theorem before (list : List Markup) (h : Templated r sites nodes) :
    Templated r sites fun r' => list ++ nodes r' :=
  (fixed list).append h

/-- What does not depend on the answers may come after. -/
theorem after (h : Templated r sites nodes) (list : List Markup) :
    Templated r sites fun r' => nodes r' ++ list :=
  (h.append (fixed list)).of_lookups (by rw [List.append_nil])

theorem wrap (head : StartTag) (h : Templated r sites nodes) :
    Templated r sites fun r' => [.wrap head (nodes r')] := by
  obtain ⟨parts, hholes, hfill⟩ := h
  refine ⟨[.wrap head parts], by simpa [Template.holesAll, Template.holes] using hholes, ?_⟩
  intro r' hagrees
  simp [Template.fillAll, Template.fill, hfill r' hagrees]

/-- The markup of a name is a hole. -/
theorem hole (hole : Hole) (nested : Bool) :
    Templated r [.type hole.name nested]
      fun r' => [hole.fill (r'.resolver.type? hole.name)] := by
  refine ⟨[.hole hole], by simp [Template.holesAll, Template.holes, Site.lookup?], ?_⟩
  intro r' _
  simp [Template.fillAll, Template.fill]

theorem flatMap {α : Type} (list : List α) (ofItem : α → List Site)
    (render : Rendering → α → List Markup)
    (h : ∀ a ∈ list, Templated r (ofItem a) fun r' => render r' a) :
    Templated r (list.flatMap ofItem) fun r' => list.flatMap (render r') := by
  induction list with
  | nil => exact fixed []
  | cons a list ih =>
    simp only [List.flatMap_cons]
    exact (h a List.mem_cons_self).append (ih fun b hb => h b (List.mem_cons_of_mem _ hb))

/-- Items with separators between them. -/
theorem separated {α : Type} (items : Separated α) {ofItem : α → List Site}
    {render : Rendering → α → List Markup}
    (h : ∀ a, Templated r (ofItem a) fun r' => render r' a) :
    Templated r (items.items.flatMap ofItem) fun r' => items.flatMap (render r') token := by
  induction items with
  | last a =>
    simp only [Separated.items, Separated.flatMap, List.flatMap_singleton]
    exact h a
  | cons a separator rest ih =>
    simp only [Separated.items, Separated.flatMap, List.flatMap_cons]
    exact ((h a).after (token separator)).append ih

end Templated

/-! ### Tokens and values -/

section Values

variable {r : Rendering}

theorem typeToken_templated (t : Token) (name : String) (nested : Bool) :
    Templated r [.type name nested] fun r' => r'.typeToken t name :=
  (Templated.hole ⟨.reference, name, t.text⟩ nested).before (trivia t.trivia)

theorem valueItem_templated (nested : Bool) (t : Token) :
    Templated r (ExtAttr.globalSites nested t) fun r' => r'.valueItem true t := by
  cases hinterface : Vocabulary.globalInterface? t.text with
  | none =>
    simp only [valueItem, Resolver.global?, ExtAttr.globalSites, hinterface]
    exact Templated.fixed (trivia t.trivia ++ [linked none t.text])
  | some interface =>
    simp only [valueItem, Resolver.global?, ExtAttr.globalSites, hinterface]
    exact (Templated.hole ⟨.reference, interface, t.text⟩ nested).before (trivia t.trivia)

theorem extAttrValue_templated (nested : Bool) (value : ExtAttr.Value) :
    Templated r (value.sites nested) fun r' => r'.extAttrValue true value := by
  cases value with
  | scalar kind t =>
    cases kind with
    | identifier => exact valueItem_templated nested t
    | string | integer | decimal | wildcard => exact Templated.fixed (token t)
  | list opening items closing =>
    simp only [extAttrValue]
    exact ((Templated.separated items (valueItem_templated nested)).before (token opening)).after
      (token closing)

theorem extAttrStart_templated (nested : Bool) (name : Token)
    (value : Option ExtAttr.Assignment) :
    Templated r (ExtAttr.startSites nested name value) fun r' => r'.extAttrStart name value := by
  -- the name of the attribute leads to the specification
  have hname : Templated r [.extAttr name.text]
      fun r' => [linked (r'.resolver.extAttr? name.text) name.text] :=
    ((Templated.fixed [linked (r.resolver.extAttr? name.text) name.text]).of_lookups rfl).congr
      fun r' hagrees => by rw [hagrees.extAttr?_eq]
  have hvalue : Templated r
      (if (ExtAttr.mk name value none).namesGlobals then value.elim [] (·.value.sites nested)
        else [])
      fun r' => r'.assignment (ExtAttr.mk name value none).namesGlobals value := by
    cases value with
    | none => simpa [assignment] using Templated.fixed []
    | some a =>
      simp only [assignment]
      cases hglobals : (ExtAttr.mk name (some a) none).namesGlobals with
      | false =>
        exact (Templated.fixed (token a.assign ++ r.extAttrValue false a.value)).congr
          fun r' _ => by rw [extAttrValue_false r' r]
      | true => exact (extAttrValue_templated nested a.value).before (token a.assign)
  exact hname.append hvalue

end Values

/-! ### Types, arguments and extended attributes -/

section Nested

variable {r : Rendering}

mutual

theorem extAttrList_templated (nested : Bool) (list : ExtAttrList) :
    Templated r (list.sites nested) fun r' => r'.extAttrList list := by
  match list with
  | .mk opening items closing =>
    simp only [extAttrList, ExtAttrList.sites]
    exact ((extAttrs_templated nested items).before (token opening)).after (token closing)

theorem extAttrs_templated (nested : Bool) (items : Separated ExtAttr) :
    Templated r (extAttrSites nested items) fun r' => r'.extAttrs items := by
  match items with
  | .last attr =>
    simp only [extAttrs, extAttrSites]
    exact extAttr_templated nested attr
  | .cons attr separator rest =>
    simp only [extAttrs, extAttrSites]
    exact ((extAttr_templated nested attr).after (token separator)).append
      (extAttrs_templated nested rest)

theorem extAttr_templated (nested : Bool) (attr : ExtAttr) :
    Templated r (attr.sites nested) fun r' => r'.extAttr attr := by
  match attr with
  | .mk name value none =>
    simp only [extAttr, ExtAttr.sites]
    exact ((extAttrStart_templated nested name value).wrap _).before (trivia name.trivia)
  | .mk name value (some arguments) =>
    simp only [extAttr, ExtAttr.sites]
    exact (((extAttrStart_templated nested name value).append
      (argumentList_templated nested arguments)).wrap _).before (trivia name.trivia)

theorem argumentList_templated (nested : Bool) (list : ArgumentList) :
    Templated r (list.sites nested) fun r' => r'.argumentList list := by
  match list with
  | .mk opening none closing =>
    simp only [argumentList, ArgumentList.sites]
    exact Templated.fixed _
  | .mk opening (some items) closing =>
    simp only [argumentList, ArgumentList.sites]
    exact ((arguments_templated nested items).before (token opening)).after (token closing)

theorem arguments_templated (nested : Bool) (items : Separated Argument) :
    Templated r (argumentSites nested items) fun r' => r'.arguments items := by
  match items with
  | .last a =>
    simp only [arguments, argumentSites]
    exact argument_templated nested a
  | .cons a separator rest =>
    simp only [arguments, argumentSites]
    exact (argument_templated nested a).append
      ((arguments_templated nested rest).before (token separator))

theorem argument_templated (nested : Bool) (a : Argument) :
    Templated r (a.sites nested) fun r' => [r'.argument a] := by
  match a with
  | .required none type variadic name =>
    simp only [argument, Argument.sites]
    exact ((outerType_templated nested type).after _).wrap _
  | .required (some attrs) type variadic name =>
    simp only [argument, Argument.sites]
    exact ((extAttrList_templated nested attrs).append
      ((outerType_templated nested type).after _)).wrap _
  | .optional none keyword type name d =>
    simp only [argument, Argument.sites]
    exact (((outerType_templated nested type).after _).before (token keyword)).wrap _
  | .optional (some attrs) keyword type name d =>
    simp only [argument, Argument.sites]
    exact (((extAttrList_templated nested attrs).after (token keyword)).append
      ((outerType_templated nested type).after _)).wrap _

theorem outerType_templated (nested : Bool) (type : IdlType) :
    Templated r (type.sites nested) fun r' => [r'.outerType type] := by
  match type with
  | .mk none form nullable =>
    simp only [outerType, IdlType.sites]
    exact ((typeForm_templated nested form).after _).wrap _
  | .mk (some attrs) form nullable =>
    simp only [outerType, IdlType.sites]
    exact (((extAttrList_templated nested attrs).append
      (typeForm_templated nested form)).after _).wrap _

theorem innerType_templated (nested : Bool) (type : IdlType) :
    Templated r (type.innerSites nested) fun r' => r'.innerType type := by
  match type with
  | .mk none form nullable =>
    simp only [innerType, IdlType.innerSites]
    exact (typeForm_templated nested form).after _
  | .mk (some attrs) form nullable =>
    simp only [innerType, IdlType.innerSites]
    exact ((extAttrList_templated true attrs).append (typeForm_templated nested form)).after _

theorem typeForm_templated (nested : Bool) (form : TypeForm) :
    Templated r (form.sites nested) fun r' => r'.typeForm form := by
  match form with
  | .named first rest =>
    simp only [typeForm, TypeForm.sites]
    exact (Templated.hole ⟨.reference, unescape (TypeForm.rawName first rest),
      first.text ++ written rest⟩ nested).before (trivia first.trivia)
  | .generic name opening arguments closing =>
    simp only [typeForm, TypeForm.sites]
    exact (((typeToken_templated name name.text nested).after (token opening)).append
      (types_templated nested arguments)).after (token closing)
  | .union opening first separator rest closing =>
    simp only [typeForm, TypeForm.sites]
    exact ((((innerType_templated nested first).before (token opening)).after
      (token separator)).append (types_templated nested rest)).after (token closing)

theorem types_templated (nested : Bool) (types : Separated IdlType) :
    Templated r (typeSites nested types) fun r' => r'.types types := by
  match types with
  | .last type =>
    simp only [Rendering.types, typeSites]
    exact innerType_templated nested type
  | .cons type separator rest =>
    simp only [Rendering.types, typeSites]
    exact ((innerType_templated nested type).after (token separator)).append
      (types_templated nested rest)

end

end Nested

/-! ### Members -/

section Members

variable {r : Rendering}

/-- The name of a member is a place that defines it, or leads to a term or to the specification. -/
theorem memberNameToken_templated (owner : Definition) (m : Member) (place : MemberPlace)
    (t : Token) : Templated r [] fun r' => r'.memberNameToken owner m place t :=
  (Templated.fixed (r.memberNameToken owner m place t)).congr
    fun _ hagrees => (memberNameToken_congr hagrees owner m place t).symm

theorem enumValue_templated (owner : Definition) (m : Member) (place : MemberPlace)
    (value : Token) (separator : Option Token) :
    Templated r [] fun r' => r'.enumValue owner m place value separator :=
  (Templated.fixed (r.enumValue owner m place value separator)).congr
    fun _ hagrees => (enumValue_congr hagrees owner m place value separator).symm

theorem attrs_templated (attrs : Option ExtAttrList) :
    Templated r (attrs.elim [] (·.sites false)) fun r' => attrs.elim [] r'.extAttrList := by
  cases attrs with
  | none => exact Templated.fixed []
  | some attrs => exact extAttrList_templated false attrs

theorem memberForm_templated (owner : Definition) (m : Member) (place : MemberPlace)
    (index : Nat) (definesItself : Bool) (form : Member.Form) :
    Templated r (form.sites (.member index definesItself))
      fun r' => r'.memberForm owner m place form := by
  have hname (t : Token) : Templated r [.member index definesItself]
      fun r' => r'.memberNameToken owner m place t :=
    (memberNameToken_templated owner m place t).of_lookups rfl
  match form with
  | .attribute modifiers keyword type t semicolon =>
    simp only [memberForm, Member.Form.sites]
    exact ((outerType_templated false type).append ((hname t).after (token semicolon))).before _
  | .operation modifiers type none arguments semicolon =>
    simp only [memberForm, Member.Form.sites]
    exact ((outerType_templated false type).append
      ((argumentList_templated false arguments).after (token semicolon))).before _
  | .operation modifiers type (some t) arguments semicolon =>
    simp only [memberForm, Member.Form.sites]
    exact ((outerType_templated false type).append
      (((hname t).append (argumentList_templated false arguments)).after
        (token semicolon))).before _
  | .stringifier keyword semicolon =>
    simp only [memberForm, Member.Form.sites]
    exact Templated.fixed _
  | .constructor keyword arguments semicolon =>
    simp only [memberForm, Member.Form.sites]
    exact ((hname keyword).append (argumentList_templated false arguments)).after
      (token semicolon)
  | .constant keyword type t assign value semicolon =>
    simp only [memberForm, Member.Form.sites]
    exact ((outerType_templated false type).append ((((hname t).after (token assign)).after
      (literal value)).after (token semicolon))).before (token keyword)
  | .field required type t d semicolon =>
    simp only [memberForm, Member.Form.sites]
    exact ((outerType_templated false type).append (((hname t).after _).after
      (token semicolon))).before _
  | .enumValue value separator =>
    simp only [memberForm, Member.Form.sites]
    exact (enumValue_templated owner m place value separator).of_lookups rfl
  | .declaration modifiers keyword opening types closing arguments semicolon =>
    simp only [memberForm, Member.Form.sites]
    have htypes := Templated.separated types (outerType_templated (r := r) false)
    have harguments : Templated r (arguments.elim [] (·.sites false))
        fun r' => arguments.elim [] r'.argumentList := by
      cases arguments with
      | none => exact Templated.fixed []
      | some arguments => exact argumentList_templated false arguments
    exact (((htypes.before _).after (token closing)).append harguments).after (token semicolon)

theorem member_templated (owner : Definition) (m : Member) (place : MemberPlace) (index : Nat) :
    Templated r (m.sites index) fun r' => r'.member owner m place := by
  have hnodes := (attrs_templated (r := r) m.attrs).append
    (memberForm_templated owner m place index m.definesItself m.form)
  have helement : Templated r
      (m.attrs.elim [] (·.sites false) ++ m.form.sites (.member index m.definesItself))
      fun r' => [.wrap (r'.memberHead m place)
        (m.attrs.elim [] r'.extAttrList ++ r'.memberForm owner m place m.form)] :=
    (hnodes.wrap (r.memberHead m place)).congr
      fun r' hagrees => by rw [memberHead_congr hagrees]
  unfold Rendering.member Member.sites
  cases hform : m.form with
  | enumValue value separator =>
    exact (enumValue_templated owner m place value separator).of_lookups rfl
  | «attribute» | operation | stringifier | constructor | constant | field | declaration =>
    rw [hform] at helement
    exact helement

end Members

/-! ### Definitions -/

section Definitions

variable {r : Rendering} (d : Definition) (place : Place)

theorem definitionName_templated (t : Token) :
    Templated r [d.nameSite] fun r' => r'.definitionName d place t := by
  by_cases hpartial : d.isPartial
  · have hname := (Templated.hole (r := r) ⟨.extension, d.name, t.text⟩ false).before
      (trivia t.trivia)
    rw [Definition.nameSite, if_pos hpartial]
    apply hname.congr
    intro r' _
    rw [definitionName, if_pos hpartial, partialName]
    cases r'.resolver.type? d.name <;> rfl
  · rw [Definition.nameSite, if_neg hpartial]
    apply ((Templated.fixed (r.definitionName d place t)).of_lookups rfl).congr
    intro r' hagrees
    exact (definitionName_congr hagrees d place hpartial t).symm

theorem inheritance_templated (parent : Definition.Inheritance) :
    Templated r [.type parent.name.name false] fun r' => r'.inheritance parent := by
  have hname := (Templated.hole (r := r) ⟨.superclass, parent.name.name, parent.name.text⟩
    false).before (token parent.colon ++ trivia parent.name.trivia)
  apply hname.congr
  intro r' _
  rw [inheritance]
  cases r'.resolver.type? parent.name.name <;> rfl

theorem members_templated (members : List Member) :
    Templated r (members.zipIdx.flatMap fun (m, index) => m.sites index)
      fun r' => members.zipIdx.flatMap fun (m, index) => r'.member d m (place.member index) := by
  apply Templated.flatMap
  rintro ⟨m, index⟩ _
  exact member_templated d m (place.member index) index

theorem definitionForm_templated (form : Definition.Form) :
    Templated r (form.sites d.nameSite) fun r' => r'.definitionForm d place form := by
  cases form with
  | container head t parent body =>
    simp only [definitionForm, Definition.Form.sites]
    have hparent : Templated r (parent.toList.map fun p => Site.type p.name.name false)
        fun r' => parent.elim [] r'.inheritance := by
      cases parent with
      | none => exact Templated.fixed []
      | some parent => exact inheritance_templated parent
    have hname := definitionName_templated (r := r) d place t
    have hmembers := members_templated (r := r) d place body.members
    exact (((((hname.before _).append hparent).after (token body.opening)).append hmembers).after
      (token body.closing)).after (token body.semicolon)
  | typedef keyword type t semicolon =>
    simp only [definitionForm, Definition.Form.sites]
    exact ((outerType_templated false type).append
      ((definitionName_templated d place t).after (token semicolon))).before (token keyword)
  | callback keyword t assign result arguments semicolon =>
    simp only [definitionForm, Definition.Form.sites]
    exact (((definitionName_templated d place t).before (token keyword)).after
      (token assign)).append ((outerType_templated false result).append
        ((argumentList_templated false arguments).after (token semicolon)))
  | includes t keyword mixin semicolon =>
    simp only [definitionForm, Definition.Form.sites]
    exact (((typeToken_templated t t.name false).after (token keyword)).append
      (typeToken_templated mixin mixin.name false)).after (token semicolon)

theorem definition_templated : Templated r d.sites fun r' => r'.definition d place := by
  have hnodes := (attrs_templated (r := r) d.bare.attrs).append
    (definitionForm_templated d.bare place d.bare.form)
  have helement := (hnodes.wrap (r.definitionHead d.bare place)).before
    (trivia d.leadingTrivia)
  rw [← d.sites_bare]
  apply helement.congr
  intro r' hagrees
  rw [definition, definitionElement, definitionHead, definitionHead, hagrees.plan]

theorem definitions_templated (r : Rendering) (definitions : List Definition) (index : Nat) :
    Templated r (definitions.zipIdx.flatMap fun (d, _) => d.sites)
      fun r' => definitions.zipIdx.flatMap fun (d, i) => r'.definition d ⟨index, i⟩ := by
  apply Templated.flatMap
  rintro ⟨d, i⟩ _
  exact definition_templated d ⟨index, i⟩

/-- **A definition is rendered alike wherever the names that it looks up resolve alike.** -/
theorem definition_congr {r' : Rendering} (h : Agrees r r' d.sites) :
    r.definition d place = r'.definition d place :=
  (definition_templated d place).eq_of_agrees h

/-- So is a block where all names do. -/
theorem block_congr {r' : Rendering} (h : ∀ sites, Agrees r r' sites) (b : Block) (index : Nat) :
    r.block b index = r'.block b index := by
  have hdefinitions := (definitions_templated r b.definitions index).eq_of_agrees (h _)
  rw [block, block, hdefinitions]

/-- **The nodes of a block come from one template.** Its holes are the names that the definitions look
up and that only a lookup resolves, in the order of the source. -/
theorem block_templated (r : Rendering) (b : Block) (index : Nat) :
    ∃ parts : List Template,
      (Template.holesAll parts).map Hole.name =
        b.definitions.flatMap (fun d => d.lookups.filter r.resolver.needsLookup) ∧
      ∀ r', Agrees r r' [] → r'.resolver.localType? = r.resolver.localType? →
        r'.block b index = ⟨(StartTag.ofTag .pre).addClass "idl",
          Markup.join (Template.fillAll r'.resolver.external? parts)⟩ := by
  have hdefinitions := (definitions_templated r b.definitions index).after
    (b.remainder.elim (trivia b.trailing) fun s => [.text s])
  obtain ⟨parts, hholes, hfill⟩ := hdefinitions
  have hlookups : (Template.holesAll parts).map Hole.name =
      b.definitions.flatMap (·.lookups) := by
    conv_rhs => rw [← List.zipIdx_map_fst 0 b.definitions, List.flatMap_map]
    rw [hholes, List.filterMap_flatMap]
    rfl
  refine ⟨Template.settleAll r.resolver.localType? parts, ?_, ?_⟩
  · rw [Template.holesAll_settle, ← List.filter_flatMap, ← hlookups, List.filter_map]
    rfl
  · intro r' hagrees hlocal
    have hnodes : r'.block b index = ⟨(StartTag.ofTag .pre).addClass "idl",
        Markup.join (Template.fillAll r'.resolver.type? parts)⟩ := by
      rw [block, ← hfill r' hagrees]
    have htype : r'.resolver.type? =
        fun name => (r.resolver.localType? name).or (r'.resolver.external? name) := by
      funext name
      rw [Resolver.type?, hlocal, Option.orElse_eq_orElse, Option.orElse_eq_or]
    rw [hnodes, Template.fillAll_settle, htype]

end Definitions

end Rendering

end WebIdl
