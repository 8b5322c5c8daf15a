import WebIdl.Vocabulary
import WebIdl.Proofs.Anchor.Ids

/-!
# The sites of links

Where rendering a definition may put a link, in the order of the source, with what decides whether
there is one. Rendering resolves a name as a type at the sites of types and nowhere else, so
`Definition.lookups` are the names that should be looked up beforehand.

* `Definition.sites`, `Definition.lookups` — the sites of a definition, and the names at those of
  types.
* `Definition.filter_sites_isName` — its other sites, but for those of names of extended attributes,
  are its own name and those of its members.
* `Definition.passedOver` — the names in the extended attributes of types that are part of another
  type.
-/

namespace WebIdl

/-- Where a rendered definition may have a link. -/
inductive Site where
  /-- A name that is resolved as a type; `nested` if it stands in the extended attributes of a type
  that is part of another. -/
  | type (name : String) (nested : Bool)
  /-- The name of an extended attribute. -/
  | extAttr (name : String)
  /-- The name of the definition itself. -/
  | definition
  /-- The name of a member, which may be a place that defines it. -/
  | member (index : Nat) (definesItself : Bool)
deriving DecidableEq, Repr

namespace Site

/-- The name that is resolved as a type at a site. -/
def lookup? : Site → Option String
  | .type name _ => some name
  | _ => none

/-- The name that is resolved in the extended attributes of a type inside a type. -/
def nestedLookup? : Site → Option String
  | .type name true => some name
  | _ => none

/-- The site is the name of the definition or of a member. -/
def isName : Site → Bool
  | .type .. | .extAttr _ => false
  | .definition | .member .. => true

end Site

/-! ### Types, arguments and extended attributes -/

namespace ExtAttr

/-- A value that names a global leads to its interface. -/
def globalSites (nested : Bool) (value : Token) : List Site :=
  ((Vocabulary.globalInterface? value.text).map (Site.type · nested)).toList

def Value.sites (nested : Bool) : Value → List Site
  | .scalar .identifier t => globalSites nested t
  | .scalar _ _ => []
  | .list _ items _ => items.items.flatMap (globalSites nested)

/-- The sites of an extended attribute without its arguments. -/
def startSites (nested : Bool) (name : Token) (value : Option Assignment) : List Site :=
  .extAttr name.text ::
    if (ExtAttr.mk name value none).namesGlobals then value.elim [] (·.value.sites nested) else []

end ExtAttr

mutual

def ExtAttrList.sites (nested : Bool) : ExtAttrList → List Site
  | .mk _ items _ => extAttrSites nested items

def extAttrSites (nested : Bool) : Separated ExtAttr → List Site
  | .last attr => attr.sites nested
  | .cons attr _ rest => attr.sites nested ++ extAttrSites nested rest

def ExtAttr.sites (nested : Bool) : ExtAttr → List Site
  | .mk name value none => ExtAttr.startSites nested name value
  | .mk name value (some arguments) =>
    ExtAttr.startSites nested name value ++ arguments.sites nested

def ArgumentList.sites (nested : Bool) : ArgumentList → List Site
  | .mk _ none _ => []
  | .mk _ (some items) _ => argumentSites nested items

def argumentSites (nested : Bool) : Separated Argument → List Site
  | .last argument => argument.sites nested
  | .cons argument _ rest => argument.sites nested ++ argumentSites nested rest

def Argument.sites (nested : Bool) : Argument → List Site
  | .required none type _ _ => type.sites nested
  | .required (some attrs) type _ _ => attrs.sites nested ++ type.sites nested
  | .optional none _ type _ _ => type.sites nested
  | .optional (some attrs) _ type _ _ => attrs.sites nested ++ type.sites nested

/-- The sites of a type that is not part of another. -/
def IdlType.sites (nested : Bool) : IdlType → List Site
  | .mk none form _ => form.sites nested
  | .mk (some attrs) form _ => attrs.sites nested ++ form.sites nested

/-- The sites of a type inside a type. -/
def IdlType.innerSites (nested : Bool) : IdlType → List Site
  | .mk none form _ => form.sites nested
  | .mk (some attrs) form _ => attrs.sites true ++ form.sites nested

def TypeForm.sites (nested : Bool) : TypeForm → List Site
  | .named first rest => [.type (unescape (TypeForm.rawName first rest)) nested]
  | .generic name _ arguments _ => .type name.text nested :: typeSites nested arguments
  | .union _ first _ rest _ => first.innerSites nested ++ typeSites nested rest

def typeSites (nested : Bool) : Separated IdlType → List Site
  | .last type => type.innerSites nested
  | .cons type _ rest => type.innerSites nested ++ typeSites nested rest

end

/-! ### Members and definitions -/

/-- The sites of a member form, given that of its name. -/
def Member.Form.sites (name : Site) : Member.Form → List Site
  | .attribute _ _ type _ _ => type.sites false ++ [name]
  | .operation _ type none arguments _ => type.sites false ++ arguments.sites false
  | .operation _ type (some _) arguments _ => type.sites false ++ name :: arguments.sites false
  | .stringifier .. => []
  | .constructor _ arguments _ => name :: arguments.sites false
  | .constant _ type _ _ _ _ => type.sites false ++ [name]
  | .field _ type _ _ _ => type.sites false ++ [name]
  | .enumValue .. => [name]
  | .declaration _ _ _ types _ arguments _ =>
    types.items.flatMap (·.sites false) ++ arguments.elim [] (·.sites false)

/-- The sites of a member, given its position. Enumeration values have no extended attributes. -/
def Member.sites (m : Member) (index : Nat) : List Site :=
  match m.form with
  | .enumValue .. => [.member index m.definesItself]
  | form => m.attrs.elim [] (·.sites false) ++ form.sites (.member index m.definesItself)

namespace Definition

/-- A partial definition has the name of what it extends. -/
def nameSite (d : Definition) : Site :=
  if d.isPartial then .type d.name false else .definition

/-- The sites of a definition form, given that of its name. -/
def Form.sites (name : Site) : Form → List Site
  | .container _ _ parent body =>
    name :: (parent.toList.map (fun p => Site.type p.name.name false)
      ++ body.members.zipIdx.flatMap fun (m, index) => m.sites index)
  | .typedef _ type _ _ => type.sites false ++ [name]
  | .callback _ _ _ result arguments _ => name :: (result.sites false ++ arguments.sites false)
  | .includes name _ mixin _ => [.type name.name false, .type mixin.name false]

/-- The sites of a definition, in the order of the source. -/
def sites (d : Definition) : List Site :=
  d.attrs.elim [] (·.sites false) ++ d.form.sites d.nameSite

/-- The names that are resolved as types where a definition is rendered. -/
def lookups (d : Definition) : List String := d.sites.filterMap Site.lookup?

/-- Those of them in the extended attributes of types that are part of another type. -/
def passedOver (d : Definition) : List String := d.sites.filterMap Site.nestedLookup?

end Definition

/-! ### Sites of names -/

theorem ExtAttr.filter_globalSites_isName (nested : Bool) (t : Token) :
    (globalSites nested t).filter Site.isName = [] := by
  unfold globalSites
  cases Vocabulary.globalInterface? t.text <;> rfl

theorem ExtAttr.filter_startSites_isName (nested : Bool) (name : Token)
    (value : Option Assignment) :
    (startSites nested name value).filter Site.isName = [] := by
  have hvalue (value : Value) : (value.sites nested).filter Site.isName = [] := by
    cases value with
    | scalar kind t =>
      cases kind with
      | identifier => exact filter_globalSites_isName nested t
      | string | integer | decimal | wildcard => rfl
    | list opening items closing =>
      simp [Value.sites, List.filter_flatMap, filter_globalSites_isName]
  unfold startSites
  cases value with
  | none => simp [Site.isName]
  | some a => split <;> simp [Site.isName, hvalue]

mutual

theorem ExtAttrList.filter_sites_isName (nested : Bool) (list : ExtAttrList) :
    (list.sites nested).filter Site.isName = [] := by
  match list with
  | .mk opening items closing => exact filter_extAttrSites_isName nested items

theorem filter_extAttrSites_isName (nested : Bool) (items : Separated ExtAttr) :
    (extAttrSites nested items).filter Site.isName = [] := by
  match items with
  | .last attr => exact attr.filter_sites_isName nested
  | .cons attr separator rest =>
    simp [extAttrSites, attr.filter_sites_isName nested, filter_extAttrSites_isName nested rest]

theorem ExtAttr.filter_sites_isName (nested : Bool) (attr : ExtAttr) :
    (attr.sites nested).filter Site.isName = [] := by
  match attr with
  | .mk name value none => exact ExtAttr.filter_startSites_isName nested name value
  | .mk name value (some arguments) =>
    simp [ExtAttr.sites, ExtAttr.filter_startSites_isName, arguments.filter_sites_isName nested]

theorem ArgumentList.filter_sites_isName (nested : Bool) (list : ArgumentList) :
    (list.sites nested).filter Site.isName = [] := by
  match list with
  | .mk opening none closing => rfl
  | .mk opening (some items) closing => exact filter_argumentSites_isName nested items

theorem filter_argumentSites_isName (nested : Bool) (items : Separated Argument) :
    (argumentSites nested items).filter Site.isName = [] := by
  match items with
  | .last argument => exact argument.filter_sites_isName nested
  | .cons argument separator rest =>
    simp [argumentSites, argument.filter_sites_isName nested,
      filter_argumentSites_isName nested rest]

theorem Argument.filter_sites_isName (nested : Bool) (argument : Argument) :
    (argument.sites nested).filter Site.isName = [] := by
  match argument with
  | .required none type variadic name => exact type.filter_sites_isName nested
  | .required (some attrs) type variadic name =>
    simp [Argument.sites, attrs.filter_sites_isName nested, type.filter_sites_isName nested]
  | .optional none keyword type name default => exact type.filter_sites_isName nested
  | .optional (some attrs) keyword type name default =>
    simp [Argument.sites, attrs.filter_sites_isName nested, type.filter_sites_isName nested]

theorem IdlType.filter_sites_isName (nested : Bool) (type : IdlType) :
    (type.sites nested).filter Site.isName = [] := by
  match type with
  | .mk none form nullable => exact form.filter_sites_isName nested
  | .mk (some attrs) form nullable =>
    simp [IdlType.sites, attrs.filter_sites_isName nested, form.filter_sites_isName nested]

theorem IdlType.filter_innerSites_isName (nested : Bool) (type : IdlType) :
    (type.innerSites nested).filter Site.isName = [] := by
  match type with
  | .mk none form nullable => exact form.filter_sites_isName nested
  | .mk (some attrs) form nullable =>
    simp [IdlType.innerSites, attrs.filter_sites_isName true, form.filter_sites_isName nested]

theorem TypeForm.filter_sites_isName (nested : Bool) (form : TypeForm) :
    (form.sites nested).filter Site.isName = [] := by
  match form with
  | .named first rest => rfl
  | .generic name opening arguments closing =>
    simp [TypeForm.sites, Site.isName, filter_typeSites_isName nested arguments]
  | .union opening first separator rest closing =>
    simp [TypeForm.sites, first.filter_innerSites_isName nested,
      filter_typeSites_isName nested rest]

theorem filter_typeSites_isName (nested : Bool) (types : Separated IdlType) :
    (typeSites nested types).filter Site.isName = [] := by
  match types with
  | .last type => exact type.filter_innerSites_isName nested
  | .cons type separator rest =>
    simp [typeSites, type.filter_innerSites_isName nested, filter_typeSites_isName nested rest]

end

theorem filter_attrsSites_isName (attrs : Option ExtAttrList) :
    (attrs.elim [] (·.sites false)).filter Site.isName = [] := by
  cases attrs with
  | none => rfl
  | some attrs => exact attrs.filter_sites_isName false

theorem Member.filter_sites_isName (m : Member) (index : Nat) :
    (m.sites index).filter Site.isName =
      if m.name?.isSome then [.member index m.definesItself] else [] := by
  have hattrs := filter_attrsSites_isName m.attrs
  have htype := IdlType.filter_sites_isName false
  have harguments := ArgumentList.filter_sites_isName false
  unfold sites
  generalize m.definesItself = definesItself
  obtain ⟨attrs, scope, form⟩ := m
  match form with
  | .attribute .. | .constant .. | .field .. =>
    simp [Form.sites, Site.isName, name?, Form.nameToken?, hattrs, htype]
  | .operation _ type name arguments _ =>
    cases name <;> simp [Form.sites, Site.isName, name?, Form.nameToken?, List.filter_cons, hattrs,
      htype, harguments]
  | .stringifier .. => simp [Form.sites, name?, Form.nameToken?, hattrs]
  | .constructor .. =>
    simp [Form.sites, Site.isName, name?, List.filter_cons, hattrs, harguments]
  | .enumValue .. => simp [Site.isName, name?]
  | .declaration _ _ _ types _ arguments _ =>
    cases arguments <;>
      simp [Form.sites, name?, Form.nameToken?, List.filter_flatMap, hattrs, htype, harguments]

namespace Definition

/-- The names at the sites of a definition are its own, if it is a base definition, and those of its
members. -/
theorem filter_sites_isName (d : Definition) :
    d.sites.filter Site.isName =
      (if d.isBase then [.definition] else []) ++ d.members.zipIdx.flatMap fun (m, index) =>
        if m.name?.isSome then [.member index m.definesItself] else [] := by
  have hattrs := filter_attrsSites_isName d.attrs
  have htype := IdlType.filter_sites_isName false
  have harguments := ArgumentList.filter_sites_isName false
  have hname : [d.nameSite].filter Site.isName = if d.isPartial then [] else [.definition] := by
    unfold nameSite
    cases d.isPartial <;> rfl
  have hmembers : (d.members.zipIdx.flatMap fun (m, index) => m.sites index).filter Site.isName =
      d.members.zipIdx.flatMap fun (m, index) =>
        if m.name?.isSome then [.member index m.definesItself] else [] := by
    simp [List.filter_flatMap, Member.filter_sites_isName]
  unfold sites
  rw [List.filter_append, hattrs, List.nil_append]
  generalize d.nameSite = name at hname ⊢
  obtain ⟨attrs, form⟩ := d
  cases form with
  | container head t parent body =>
    have hparent : (parent.toList.map fun p => Site.type p.name.name false).filter Site.isName =
        [] := by
      cases parent <;> rfl
    have hbase : isBase ⟨attrs, .container head t parent body⟩ = !head.isPartial := by
      cases head <;> simp [isBase, isPartial, Form.isPartial, kind, Form.kind, Head.kind]
    simp only [members, Form.members] at hmembers
    rw [Form.sites, ← List.singleton_append, List.filter_append, hname, List.filter_append,
      hparent, List.nil_append, hmembers, hbase]
    have hpartial : isPartial ⟨attrs, .container head t parent body⟩ = head.isPartial := rfl
    rw [hpartial]
    congr 1
    cases head.isPartial <;> rfl
  | typedef keyword type t semicolon =>
    rw [Form.sites, List.filter_append, htype, hname]
    rfl
  | callback keyword t assign result arguments semicolon =>
    rw [Form.sites, ← List.singleton_append, List.filter_append, hname, List.filter_append, htype,
      harguments]
    rfl
  | includes t keyword mixin semicolon => rfl

variable {d : Definition}

theorem mem_sites_definition : .definition ∈ d.sites ↔ d.isBase = true := by
  have hmem : Site.definition ∈ d.sites ↔ Site.definition ∈ d.sites.filter Site.isName := by
    simp [Site.isName]
  rw [hmem, filter_sites_isName]
  constructor
  · intro h
    rcases List.mem_append.mp h with h | h
    · split at h
      · assumption
      · cases h
    · obtain ⟨⟨m, index⟩, -, h⟩ := List.mem_flatMap.mp h
      dsimp only at h
      split at h <;> simp at h
  · intro hbase
    rw [hbase]
    exact List.mem_append_left _ List.mem_cons_self

theorem mem_sites_member {index : Nat} {definesItself : Bool} :
    .member index definesItself ∈ d.sites ↔
      ∃ m, (m, index) ∈ d.members.zipIdx ∧ m.name?.isSome = true ∧
        m.definesItself = definesItself := by
  have hmem : Site.member index definesItself ∈ d.sites ↔
      Site.member index definesItself ∈ d.sites.filter Site.isName := by
    simp [Site.isName]
  rw [hmem, filter_sites_isName]
  constructor
  · intro h
    rcases List.mem_append.mp h with h | h
    · split at h <;> simp at h
    · obtain ⟨⟨m, i⟩, hm, h⟩ := List.mem_flatMap.mp h
      dsimp only at h
      split at h
      · rename_i hname
        obtain ⟨rfl, rfl⟩ := Site.member.inj (List.mem_singleton.mp h)
        exact ⟨m, hm, hname, rfl⟩
      · cases h
  · rintro ⟨m, hm, hname, rfl⟩
    refine List.mem_append_right _ (List.mem_flatMap.mpr ⟨(m, index), hm, ?_⟩)
    simp [hname]

variable {name : String}

theorem mem_lookups : name ∈ d.lookups ↔ ∃ nested, .type name nested ∈ d.sites := by
  simp only [lookups, List.mem_filterMap]
  constructor
  · rintro ⟨site, hsite, hname⟩
    cases site with
    | type other nested =>
      obtain rfl : other = name := Option.some.inj hname
      exact ⟨nested, hsite⟩
    | extAttr | definition | member => cases hname
  · rintro ⟨nested, hsite⟩
    exact ⟨_, hsite, rfl⟩

theorem mem_passedOver : name ∈ d.passedOver ↔ .type name true ∈ d.sites := by
  simp only [passedOver, List.mem_filterMap]
  constructor
  · rintro ⟨site, hsite, hname⟩
    rcases site with ⟨other, _ | _⟩ | _ | _ | _
    · cases hname
    · obtain rfl : other = name := Option.some.inj hname
      exact hsite
    all_goals cases hname
  · intro hsite
    exact ⟨_, hsite, rfl⟩

theorem mem_lookups_of_mem_passedOver (h : name ∈ d.passedOver) : name ∈ d.lookups :=
  mem_lookups.mpr ⟨true, mem_passedOver.mp h⟩

end Definition

end WebIdl
