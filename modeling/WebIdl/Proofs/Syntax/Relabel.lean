import WebIdl.Proofs.Syntax.Map

/-!
# Replacing the tokens of a definition twice

Two replacements, one after the other, are one replacement, and only what is put in the place of the
tokens of the node at hand matters. Both are stated together: if `f (g t)` is `h t` for the tokens
of a node, then `f` after `g` does to the node what `h` does. The lemmas follow the mutual recursion
of `mapTokens`, one constructor at a time.

* `Definition.mapTokens_mapTokens` — the statement for definitions.
* `Definition.mapTokens_eq_self` — a definition none of whose tokens is changed is not changed.
-/

namespace WebIdl

variable {f g h : Token → Token}

/-! ### Lists and options -/

theorem tokens_map_map {tokens : List Token} (hfg : ∀ t ∈ tokens, f (g t) = h t) :
    (tokens.map g).map f = tokens.map h := by
  rw [List.map_map]
  exact List.map_congr_left hfg

theorem token?_map_map {token : Option Token} (hfg : ∀ t ∈ token.toList, f (g t) = h t) :
    (token.map g).map f = token.map h := by
  cases token with
  | none => rfl
  | some token => exact congrArg some (hfg token List.mem_cons_self)

/-- What holds of a node holds of a node that may be left out. -/
theorem node?_map_map {α : Type} {outer inner both : α → α} {tokens : α → List Token}
    (hnode : ∀ a, (∀ t ∈ tokens a, f (g t) = h t) → outer (inner a) = both a) {a : Option α}
    (hfg : ∀ t ∈ a.elim [] tokens, f (g t) = h t) : (a.map inner).map outer = a.map both := by
  cases a with
  | none => rfl
  | some a => exact congrArg some (hnode a hfg)

theorem Separated.mapTokens_mapTokens (items : Separated Token)
    (hfg : ∀ t ∈ items.tokens ([·]), f (g t) = h t) :
    (items.mapTokens g g).mapTokens f f = items.mapTokens h h := by
  induction items with
  | last token => exact congrArg Separated.last (hfg token List.mem_cons_self)
  | cons token separator rest ih =>
    simp only [Separated.tokens, List.singleton_append, List.forall_mem_cons] at hfg
    obtain ⟨htoken, hseparator, hrest⟩ := hfg
    simp only [Separated.mapTokens, htoken, hseparator, ih hrest]

/-! ### Literals and values -/

theorem Literal.mapTokens_mapTokens (l : Literal) (hfg : ∀ t ∈ l.tokens, f (g t) = h t) :
    (l.mapTokens g).mapTokens f = l.mapTokens h := by
  cases l <;> simp_all [Literal.mapTokens, Literal.tokens]

theorem Default.mapTokens_mapTokens (d : Default) (hfg : ∀ t ∈ d.tokens, f (g t) = h t) :
    (d.mapTokens g).mapTokens f = d.mapTokens h := by
  rw [Default.tokens, List.forall_mem_cons] at hfg
  simp only [Default.mapTokens, hfg.1, d.value.mapTokens_mapTokens hfg.2]

theorem ExtAttr.Value.mapTokens_mapTokens (value : ExtAttr.Value)
    (hfg : ∀ t ∈ value.tokens, f (g t) = h t) :
    (value.mapTokens g).mapTokens f = value.mapTokens h := by
  cases value with
  | scalar kind token => simp_all [ExtAttr.Value.mapTokens, ExtAttr.Value.tokens]
  | list opening items closing =>
    simp only [ExtAttr.Value.tokens, List.forall_mem_cons, List.forall_mem_append] at hfg
    obtain ⟨hopening, hitems, hclosing, -⟩ := hfg
    simp only [ExtAttr.Value.mapTokens, hopening, hclosing, items.mapTokens_mapTokens hitems]

theorem ExtAttr.Assignment.mapTokens_mapTokens (a : ExtAttr.Assignment)
    (hfg : ∀ t ∈ a.tokens, f (g t) = h t) : (a.mapTokens g).mapTokens f = a.mapTokens h := by
  rw [ExtAttr.Assignment.tokens, List.forall_mem_cons] at hfg
  simp only [ExtAttr.Assignment.mapTokens, hfg.1, a.value.mapTokens_mapTokens hfg.2]

/-! ### The nested nodes -/

mutual

theorem ExtAttrList.mapTokens_mapTokens : (attrs : ExtAttrList) →
    (∀ t ∈ attrs.tokens, f (g t) = h t) → (attrs.mapTokens g).mapTokens f = attrs.mapTokens h
  | .mk opening items closing, hfg => by
    simp only [ExtAttrList.tokens, List.forall_mem_cons, List.forall_mem_append] at hfg
    obtain ⟨hopening, hitems, hclosing, -⟩ := hfg
    simp only [ExtAttrList.mapTokens, hopening, hclosing, mapExtAttrs_mapExtAttrs items hitems]

theorem mapExtAttrs_mapExtAttrs : (items : Separated ExtAttr) →
    (∀ t ∈ extAttrTokens items, f (g t) = h t) →
      mapExtAttrs f (mapExtAttrs g items) = mapExtAttrs h items
  | .last attr, hfg => by
    rw [extAttrTokens] at hfg
    simp only [mapExtAttrs, attr.mapTokens_mapTokens hfg]
  | .cons attr separator rest, hfg => by
    simp only [extAttrTokens, List.forall_mem_cons, List.forall_mem_append] at hfg
    obtain ⟨hattr, hseparator, hrest⟩ := hfg
    simp only [mapExtAttrs, attr.mapTokens_mapTokens hattr, hseparator,
      mapExtAttrs_mapExtAttrs rest hrest]

theorem ExtAttr.mapTokens_mapTokens : (attr : ExtAttr) →
    (∀ t ∈ attr.tokens, f (g t) = h t) → (attr.mapTokens g).mapTokens f = attr.mapTokens h
  | .mk name assignment none, hfg => by
    simp only [ExtAttr.tokens, List.forall_mem_cons] at hfg
    have hassignment := node?_map_map ExtAttr.Assignment.mapTokens_mapTokens hfg.2
    simp only [ExtAttr.mapTokens, hfg.1, hassignment]
  | .mk name assignment (some arguments), hfg => by
    simp only [ExtAttr.tokens, List.forall_mem_cons, List.forall_mem_append] at hfg
    obtain ⟨hname, hassignment, harguments⟩ := hfg
    have hassignment := node?_map_map ExtAttr.Assignment.mapTokens_mapTokens hassignment
    simp only [ExtAttr.mapTokens, hname, hassignment, arguments.mapTokens_mapTokens harguments]

theorem ArgumentList.mapTokens_mapTokens : (arguments : ArgumentList) →
    (∀ t ∈ arguments.tokens, f (g t) = h t) →
      (arguments.mapTokens g).mapTokens f = arguments.mapTokens h
  | .mk opening none closing, hfg => by
    simp only [ArgumentList.tokens, List.forall_mem_cons] at hfg
    obtain ⟨hopening, hclosing, -⟩ := hfg
    simp only [ArgumentList.mapTokens, hopening, hclosing]
  | .mk opening (some items) closing, hfg => by
    simp only [ArgumentList.tokens, List.forall_mem_cons, List.forall_mem_append] at hfg
    obtain ⟨hopening, hitems, hclosing, -⟩ := hfg
    simp only [ArgumentList.mapTokens, hopening, hclosing, mapArguments_mapArguments items hitems]

theorem mapArguments_mapArguments : (items : Separated Argument) →
    (∀ t ∈ argumentTokens items, f (g t) = h t) →
      mapArguments f (mapArguments g items) = mapArguments h items
  | .last argument, hfg => by
    rw [argumentTokens] at hfg
    simp only [mapArguments, argument.mapTokens_mapTokens hfg]
  | .cons argument separator rest, hfg => by
    simp only [argumentTokens, List.forall_mem_cons, List.forall_mem_append] at hfg
    obtain ⟨hargument, hseparator, hrest⟩ := hfg
    simp only [mapArguments, argument.mapTokens_mapTokens hargument, hseparator,
      mapArguments_mapArguments rest hrest]

theorem Argument.mapTokens_mapTokens : (argument : Argument) →
    (∀ t ∈ argument.tokens, f (g t) = h t) →
      (argument.mapTokens g).mapTokens f = argument.mapTokens h
  | .required none type variadic name, hfg => by
    simp only [Argument.tokens, List.forall_mem_append, List.forall_mem_cons] at hfg
    obtain ⟨⟨htype, hvariadic⟩, hname, -⟩ := hfg
    simp only [Argument.mapTokens, type.mapTokens_mapTokens htype,
      token?_map_map hvariadic, hname]
  | .required (some attrs) type variadic name, hfg => by
    simp only [Argument.tokens, List.forall_mem_append, List.forall_mem_cons] at hfg
    obtain ⟨⟨⟨hattrs, htype⟩, hvariadic⟩, hname, -⟩ := hfg
    simp only [Argument.mapTokens, attrs.mapTokens_mapTokens hattrs,
      type.mapTokens_mapTokens htype, token?_map_map hvariadic, hname]
  | .optional none keyword type name default, hfg => by
    simp only [Argument.tokens, List.forall_mem_append, List.forall_mem_cons] at hfg
    obtain ⟨hkeyword, htype, hname, hdefault⟩ := hfg
    have hdefault := node?_map_map Default.mapTokens_mapTokens hdefault
    simp only [Argument.mapTokens, hkeyword, type.mapTokens_mapTokens htype, hname, hdefault]
  | .optional (some attrs) keyword type name default, hfg => by
    simp only [Argument.tokens, List.forall_mem_append, List.forall_mem_cons] at hfg
    obtain ⟨hattrs, hkeyword, htype, hname, hdefault⟩ := hfg
    have hdefault := node?_map_map Default.mapTokens_mapTokens hdefault
    simp only [Argument.mapTokens, attrs.mapTokens_mapTokens hattrs, hkeyword,
      type.mapTokens_mapTokens htype, hname, hdefault]

theorem IdlType.mapTokens_mapTokens : (type : IdlType) →
    (∀ t ∈ type.tokens, f (g t) = h t) → (type.mapTokens g).mapTokens f = type.mapTokens h
  | .mk none form nullable, hfg => by
    simp only [IdlType.tokens, List.forall_mem_append] at hfg
    simp only [IdlType.mapTokens, form.mapTokens_mapTokens hfg.1, token?_map_map hfg.2]
  | .mk (some attrs) form nullable, hfg => by
    simp only [IdlType.tokens, List.forall_mem_append] at hfg
    obtain ⟨⟨hattrs, hform⟩, hnullable⟩ := hfg
    simp only [IdlType.mapTokens, attrs.mapTokens_mapTokens hattrs,
      form.mapTokens_mapTokens hform, token?_map_map hnullable]

theorem TypeForm.mapTokens_mapTokens : (form : TypeForm) →
    (∀ t ∈ form.tokens, f (g t) = h t) → (form.mapTokens g).mapTokens f = form.mapTokens h
  | .named first rest, hfg => by
    simp only [TypeForm.tokens, List.forall_mem_cons] at hfg
    simp only [TypeForm.mapTokens, hfg.1, tokens_map_map hfg.2]
  | .generic name opening arguments closing, hfg => by
    simp only [TypeForm.tokens, List.forall_mem_cons, List.forall_mem_append] at hfg
    obtain ⟨hname, hopening, harguments, hclosing, -⟩ := hfg
    simp only [TypeForm.mapTokens, hname, hopening, hclosing, mapTypes_mapTypes arguments harguments]
  | .union opening first separator rest closing, hfg => by
    simp only [TypeForm.tokens, List.forall_mem_cons, List.forall_mem_append] at hfg
    obtain ⟨hopening, hfirst, hseparator, hrest, hclosing, -⟩ := hfg
    simp only [TypeForm.mapTokens, hopening, first.mapTokens_mapTokens hfirst, hseparator, hclosing,
      mapTypes_mapTypes rest hrest]

theorem mapTypes_mapTypes : (types : Separated IdlType) →
    (∀ t ∈ typeTokens types, f (g t) = h t) → mapTypes f (mapTypes g types) = mapTypes h types
  | .last type, hfg => by
    rw [typeTokens] at hfg
    simp only [mapTypes, type.mapTokens_mapTokens hfg]
  | .cons type separator rest, hfg => by
    simp only [typeTokens, List.forall_mem_cons, List.forall_mem_append] at hfg
    obtain ⟨htype, hseparator, hrest⟩ := hfg
    simp only [mapTypes, type.mapTokens_mapTokens htype, hseparator, mapTypes_mapTypes rest hrest]

end

/-! ### Members -/

theorem Member.Form.mapTokens_mapTokens (form : Member.Form)
    (hfg : ∀ t ∈ form.tokens, f (g t) = h t) :
    (form.mapTokens g).mapTokens f = form.mapTokens h := by
  cases form with
  | «attribute» modifiers keyword type name semicolon =>
    simp only [tokens, List.forall_mem_cons, List.forall_mem_append] at hfg
    obtain ⟨hmodifiers, hkeyword, htype, hname, hsemicolon, -⟩ := hfg
    simp only [mapTokens, tokens_map_map hmodifiers, hkeyword,
      type.mapTokens_mapTokens htype, hname, hsemicolon]
  | operation modifiers type name arguments semicolon =>
    simp only [tokens, List.forall_mem_cons, List.forall_mem_append] at hfg
    obtain ⟨⟨⟨⟨hmodifiers, htype⟩, hname⟩, harguments⟩, hsemicolon, -⟩ := hfg
    simp only [mapTokens, tokens_map_map hmodifiers, type.mapTokens_mapTokens htype,
      token?_map_map hname, arguments.mapTokens_mapTokens harguments, hsemicolon]
  | stringifier keyword semicolon =>
    simp only [tokens, List.forall_mem_cons] at hfg
    simp only [mapTokens, hfg.1, hfg.2.1]
  | constructor keyword arguments semicolon =>
    simp only [tokens, List.forall_mem_cons, List.forall_mem_append] at hfg
    obtain ⟨hkeyword, harguments, hsemicolon, -⟩ := hfg
    simp only [mapTokens, hkeyword, arguments.mapTokens_mapTokens harguments, hsemicolon]
  | constant keyword type name assign value semicolon =>
    simp only [tokens, List.forall_mem_cons, List.forall_mem_append] at hfg
    obtain ⟨hkeyword, htype, hname, hassign, hvalue, hsemicolon, -⟩ := hfg
    simp only [mapTokens, hkeyword, type.mapTokens_mapTokens htype, hname, hassign,
      value.mapTokens_mapTokens hvalue, hsemicolon]
  | field required type name default semicolon =>
    simp only [tokens, List.forall_mem_cons, List.forall_mem_append] at hfg
    obtain ⟨⟨hrequired, htype⟩, hname, hdefault, hsemicolon, -⟩ := hfg
    have hdefault := node?_map_map Default.mapTokens_mapTokens hdefault
    simp only [mapTokens, token?_map_map hrequired, type.mapTokens_mapTokens htype, hname,
      hdefault, hsemicolon]
  | enumValue value separator =>
    simp only [tokens, List.forall_mem_cons] at hfg
    simp only [mapTokens, hfg.1, token?_map_map hfg.2]
  | declaration modifiers keyword opening types closing arguments semicolon =>
    simp only [tokens, List.forall_mem_cons, List.forall_mem_append] at hfg
    obtain ⟨hmodifiers, hkeyword, hopening, htypes, hclosing, harguments, hsemicolon, -⟩ := hfg
    have harguments := node?_map_map ArgumentList.mapTokens_mapTokens harguments
    simp only [mapTokens, tokens_map_map hmodifiers, hkeyword, hopening,
      mapTypes_mapTypes types htypes, hclosing, harguments, hsemicolon]

theorem Member.mapTokens_mapTokens (member : Member)
    (hfg : ∀ t ∈ member.tokens, f (g t) = h t) :
    (member.mapTokens g).mapTokens f = member.mapTokens h := by
  rw [tokens, List.forall_mem_append] at hfg
  have hattrs := node?_map_map ExtAttrList.mapTokens_mapTokens hfg.1
  simp only [mapTokens, hattrs, member.form.mapTokens_mapTokens hfg.2]

/-! ### Definitions -/

namespace Definition

theorem Head.mapTokens_mapTokens (head : Head) (hfg : ∀ t ∈ head.tokens, f (g t) = h t) :
    (head.mapTokens g).mapTokens f = head.mapTokens h := by
  cases head with
  | interface word keyword | «namespace» word keyword | dictionary word keyword =>
    simp only [tokens, List.forall_mem_append, List.forall_mem_cons] at hfg
    simp only [mapTokens, token?_map_map hfg.1, hfg.2.1]
  | interfaceMixin word keyword mixinWord =>
    simp only [tokens, List.forall_mem_append, List.forall_mem_cons] at hfg
    obtain ⟨hword, hkeyword, hmixinWord, -⟩ := hfg
    simp only [mapTokens, token?_map_map hword, hkeyword, hmixinWord]
  | callbackInterface callbackWord keyword =>
    simp only [tokens, List.forall_mem_cons] at hfg
    simp only [mapTokens, hfg.1, hfg.2.1]
  | enum keyword =>
    simp only [tokens, List.forall_mem_cons] at hfg
    simp only [mapTokens, hfg.1]

theorem Inheritance.mapTokens_mapTokens (parent : Inheritance)
    (hfg : ∀ t ∈ [parent.colon, parent.name], f (g t) = h t) :
    (parent.mapTokens g).mapTokens f = parent.mapTokens h := by
  simp only [List.forall_mem_cons] at hfg
  simp only [mapTokens, hfg.1, hfg.2.1]

theorem Body.mapTokens_mapTokens (body : Body) (hfg : ∀ t ∈ body.tokens, f (g t) = h t) :
    (body.mapTokens g).mapTokens f = body.mapTokens h := by
  simp only [tokens, List.forall_mem_cons, List.forall_mem_append] at hfg
  obtain ⟨hopening, hmembers, hclosing, hsemicolon, -⟩ := hfg
  have hmembers : (body.members.map (·.mapTokens g)).map (·.mapTokens f) =
      body.members.map (·.mapTokens h) := by
    rw [List.map_map]
    apply List.map_congr_left
    intro member hmember
    apply member.mapTokens_mapTokens
    intro t ht
    exact hmembers t (List.mem_flatMap.mpr ⟨member, hmember, ht⟩)
  simp only [mapTokens, hopening, hmembers, hclosing, hsemicolon]

theorem Form.mapTokens_mapTokens (form : Form) (hfg : ∀ t ∈ form.tokens, f (g t) = h t) :
    (form.mapTokens g).mapTokens f = form.mapTokens h := by
  cases form with
  | container head name parent body =>
    rw [tokens, List.forall_mem_append, List.forall_mem_cons, List.forall_mem_append] at hfg
    obtain ⟨hhead, hname, hparent, hbody⟩ := hfg
    have hparent := node?_map_map Inheritance.mapTokens_mapTokens hparent
    simp only [mapTokens, head.mapTokens_mapTokens hhead, hname, hparent,
      body.mapTokens_mapTokens hbody]
  | typedef keyword type name semicolon =>
    simp only [tokens, List.forall_mem_append, List.forall_mem_cons] at hfg
    obtain ⟨hkeyword, htype, hname, hsemicolon, -⟩ := hfg
    simp only [mapTokens, hkeyword, type.mapTokens_mapTokens htype, hname, hsemicolon]
  | callback keyword name assign result arguments semicolon =>
    simp only [tokens, List.forall_mem_append, List.forall_mem_cons] at hfg
    obtain ⟨hkeyword, hname, hassign, ⟨hresult, harguments⟩, hsemicolon, -⟩ := hfg
    simp only [mapTokens, hkeyword, hname, hassign, result.mapTokens_mapTokens hresult,
      arguments.mapTokens_mapTokens harguments, hsemicolon]
  | includes name keyword mixin semicolon =>
    simp only [tokens, List.forall_mem_cons] at hfg
    obtain ⟨hname, hkeyword, hmixin, hsemicolon, -⟩ := hfg
    simp only [mapTokens, hname, hkeyword, hmixin, hsemicolon]

theorem mapTokens_mapTokens (d : Definition) (hfg : ∀ t ∈ d.tokens, f (g t) = h t) :
    (d.mapTokens g).mapTokens f = d.mapTokens h := by
  rw [tokens, List.forall_mem_append] at hfg
  have hattrs := node?_map_map ExtAttrList.mapTokens_mapTokens hfg.1
  simp only [mapTokens, hattrs, d.form.mapTokens_mapTokens hfg.2]

theorem mapTokens_eq_self (d : Definition) (hf : ∀ t ∈ d.tokens, f t = t) : d.mapTokens f = d :=
  calc d.mapTokens f
      = (d.mapTokens id).mapTokens f := by rw [mapTokens_id]
    _ = d.mapTokens id := d.mapTokens_mapTokens hf
    _ = d := d.mapTokens_id

end Definition

end WebIdl
