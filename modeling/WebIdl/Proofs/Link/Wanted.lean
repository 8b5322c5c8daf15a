import WebIdl.Link.Wanted
import WebIdl.Proofs.Link.Sites

/-!
# Which of the names looked up are wanted

Collecting the wanted names of a definition passes over the extended attributes of types that are
part of another type, and over nothing else.

* `Site.Covered` — every name at a site is wanted, but for those passed over.
* `Definition.mem_wanted_of_mem_lookups` — a name that is looked up is wanted or passed over.
* `Definition.lookups_subset_wanted_iff` — all names that are looked up are wanted exactly when those
  passed over are wanted elsewhere in the definition.
-/

namespace WebIdl

/-! ### What is wanted -/

/-- No name of a global is escaped. -/
theorem Vocabulary.unescape_of_globalInterface? {name interface : String}
    (h : globalInterface? name = some interface) : unescape name = name := by
  have hall : ∀ entry ∈ globals, unescape entry.1 = entry.1 := by decide
  obtain ⟨before, after, hglobals, -⟩ := List.lookup_eq_some_iff.mp h
  exact hall (name, interface) (by simp [hglobals])

/-- The names at the sites are wanted, apart from those in the extended attributes of types inside
types. Where all sites are in such attributes, nothing has to be wanted. -/
def Site.Covered (nested : Bool) (sites : List Site) (wanted : List String) : Prop :=
  ∀ name, .type name false ∈ sites → nested = false ∧ name ∈ wanted

namespace Site.Covered

variable {nested : Bool} {sites rest : List Site} {wanted more : List String}

theorem nil : Covered nested [] wanted := by
  intro name h
  cases h

theorem append (h : Covered nested sites wanted) (hrest : Covered nested rest more) :
    Covered nested (sites ++ rest) (wanted ++ more) := by
  intro name hmem
  rcases List.mem_append.mp hmem with hmem | hmem
  · obtain ⟨hnested, hwanted⟩ := h name hmem
    exact ⟨hnested, List.mem_append_left _ hwanted⟩
  · obtain ⟨hnested, hwanted⟩ := hrest name hmem
    exact ⟨hnested, List.mem_append_right _ hwanted⟩

/-- Sites of other kinds need nothing to be wanted. -/
theorem cons {site : Site} (hsite : site.lookup? = none) (h : Covered nested sites wanted) :
    Covered nested (site :: sites) wanted := by
  intro name hmem
  rcases List.mem_cons.mp hmem with rfl | hmem
  · cases hsite
  · exact h name hmem

theorem concat {site : Site} (hsite : site.lookup? = none) (h : Covered nested sites wanted) :
    Covered nested (sites ++ [site]) wanted := by
  intro name hmem
  rcases List.mem_append.mp hmem with hmem | hmem
  · exact h name hmem
  · obtain rfl := List.mem_singleton.mp hmem
    cases hsite

theorem type_cons (name : String) (h : Covered nested sites wanted) :
    Covered nested (.type name nested :: sites) (name :: wanted) := by
  intro other hmem
  rcases List.mem_cons.mp hmem with hmem | hmem
  · obtain ⟨rfl, rfl⟩ := Site.type.inj hmem
    exact ⟨rfl, List.mem_cons_self⟩
  · obtain ⟨hnested, hwanted⟩ := h other hmem
    exact ⟨hnested, List.mem_cons_of_mem _ hwanted⟩

/-- The extended attributes of a type inside a type need nothing to be wanted. -/
theorem of_nested (h : Covered true sites wanted) (hrest : Covered nested rest more) :
    Covered nested (sites ++ rest) more := by
  intro name hmem
  rcases List.mem_append.mp hmem with hmem | hmem
  · obtain ⟨hnested, -⟩ := h name hmem
    cases hnested
  · exact hrest name hmem

theorem flatMap {α : Type} {f : α → List Site} {g : α → List String} {items : List α}
    (h : ∀ a ∈ items, Covered nested (f a) (g a)) :
    Covered nested (items.flatMap f) (items.flatMap g) := by
  intro name hmem
  obtain ⟨a, ha, hmem⟩ := List.mem_flatMap.mp hmem
  obtain ⟨hnested, hwanted⟩ := h a ha name hmem
  exact ⟨hnested, List.mem_flatMap.mpr ⟨a, ha, hwanted⟩⟩

end Site.Covered

open Site (Covered)

/-! ### Wanted types of types, arguments and extended attributes -/

namespace ExtAttr

variable (nested : Bool)

theorem globalSites_covered (t : Token) :
    Covered nested (globalSites nested t) (Vocabulary.globalInterface? t.name).toList := by
  unfold globalSites
  cases hglobal : Vocabulary.globalInterface? t.text with
  | none => exact .nil
  | some interface =>
    rw [Token.name, Vocabulary.unescape_of_globalInterface? hglobal, hglobal]
    exact .type_cons interface .nil

theorem Value.sites_covered (value : Value) :
    Covered nested (value.sites nested)
      (value.names.filterMap Vocabulary.globalInterface?) := by
  cases value with
  | scalar kind t =>
    cases kind with
    | identifier =>
      rw [names, List.filterMap_eq_flatMap_toList, List.flatMap_singleton]
      exact globalSites_covered nested t
    | string | integer | decimal | wildcard => exact .nil
  | list opening items closing =>
    have h := Covered.flatMap fun t (_ : t ∈ items.items) => globalSites_covered nested t
    rwa [sites, names, List.filterMap_map, List.filterMap_eq_flatMap_toList]

theorem startSites_covered (name : Token) (value : Option Assignment) :
    Covered nested (startSites nested name value) (ExtAttr.mk name value none).globalsWanted := by
  refine .cons rfl ?_
  unfold globalsWanted
  split
  · cases value with
    | none => exact .nil
    | some a => exact a.value.sites_covered nested
  · exact .nil

end ExtAttr

mutual

theorem ExtAttrList.sites_covered (nested : Bool) (list : ExtAttrList) :
    Covered nested (list.sites nested) list.wanted := by
  match list with
  | .mk opening items closing => exact extAttrSites_covered nested items

theorem extAttrSites_covered (nested : Bool) (items : Separated ExtAttr) :
    Covered nested (extAttrSites nested items) (extAttrsWanted items) := by
  match items with
  | .last attr => exact attr.sites_covered nested
  | .cons attr separator rest =>
    exact (attr.sites_covered nested).append (extAttrSites_covered nested rest)

theorem ExtAttr.sites_covered (nested : Bool) (attr : ExtAttr) :
    Covered nested (attr.sites nested) attr.wanted := by
  match attr with
  | .mk name value none => exact ExtAttr.startSites_covered nested name value
  | .mk name value (some arguments) =>
    exact (ExtAttr.startSites_covered nested name value).append (arguments.sites_covered nested)

theorem ArgumentList.sites_covered (nested : Bool) (list : ArgumentList) :
    Covered nested (list.sites nested) list.wanted := by
  match list with
  | .mk opening none closing => exact .nil
  | .mk opening (some items) closing => exact argumentSites_covered nested items

theorem argumentSites_covered (nested : Bool) (items : Separated Argument) :
    Covered nested (argumentSites nested items) (argumentsWanted items) := by
  match items with
  | .last argument => exact argument.sites_covered nested
  | .cons argument separator rest =>
    exact (argument.sites_covered nested).append (argumentSites_covered nested rest)

theorem Argument.sites_covered (nested : Bool) (argument : Argument) :
    Covered nested (argument.sites nested) argument.wanted := by
  match argument with
  | .required none type variadic name => exact type.sites_covered nested
  | .required (some attrs) type variadic name =>
    exact (attrs.sites_covered nested).append (type.sites_covered nested)
  | .optional none keyword type name default => exact type.sites_covered nested
  | .optional (some attrs) keyword type name default =>
    exact (attrs.sites_covered nested).append (type.sites_covered nested)

theorem IdlType.sites_covered (nested : Bool) (type : IdlType) :
    Covered nested (type.sites nested) type.wanted := by
  match type with
  | .mk none form nullable => exact form.sites_covered nested
  | .mk (some attrs) form nullable =>
    exact (attrs.sites_covered nested).append (form.sites_covered nested)

theorem IdlType.innerSites_covered (nested : Bool) (type : IdlType) :
    Covered nested (type.innerSites nested) type.references := by
  match type with
  | .mk none form nullable => exact form.sites_covered nested
  | .mk (some attrs) form nullable =>
    exact (attrs.sites_covered true).of_nested (form.sites_covered nested)

theorem TypeForm.sites_covered (nested : Bool) (form : TypeForm) :
    Covered nested (form.sites nested) form.references := by
  match form with
  | .named first rest => exact .type_cons _ .nil
  | .generic name opening arguments closing =>
    exact .type_cons _ (typeSites_covered nested arguments)
  | .union opening first separator rest closing =>
    exact (first.innerSites_covered nested).append (typeSites_covered nested rest)

theorem typeSites_covered (nested : Bool) (types : Separated IdlType) :
    Covered nested (typeSites nested types) (typeReferences types) := by
  match types with
  | .last type => exact type.innerSites_covered nested
  | .cons type separator rest =>
    exact (type.innerSites_covered nested).append (typeSites_covered nested rest)

end

/-! ### Wanted types of members and definitions -/

theorem Member.Form.sites_covered (form : Member.Form) (index : Nat) (definesItself : Bool) :
    Covered false (form.sites (.member index definesItself)) form.wanted := by
  cases form with
  | «attribute» modifiers keyword type name semicolon =>
    exact (type.sites_covered false).concat rfl
  | operation modifiers type name arguments semicolon =>
    cases name with
    | none => exact (type.sites_covered false).append (arguments.sites_covered false)
    | some name =>
      exact (type.sites_covered false).append (.cons rfl (arguments.sites_covered false))
  | stringifier keyword semicolon => exact .nil
  | constructor keyword arguments semicolon => exact .cons rfl (arguments.sites_covered false)
  | constant keyword type name assign value semicolon =>
    exact (type.sites_covered false).concat rfl
  | field required type name default semicolon => exact (type.sites_covered false).concat rfl
  | enumValue value separator => exact .cons rfl .nil
  | declaration modifiers keyword opening types closing arguments semicolon =>
    refine .append (.flatMap fun type _ => type.sites_covered false) ?_
    cases arguments with
    | none => exact .nil
    | some arguments => exact arguments.sites_covered false

theorem attrs_covered (attrs : Option ExtAttrList) :
    Covered false (attrs.elim [] (·.sites false)) (attrs.elim [] (·.wanted)) := by
  cases attrs with
  | none => exact .nil
  | some attrs => exact attrs.sites_covered false

theorem Member.sites_covered (m : Member) (index : Nat) :
    Covered false (m.sites index) m.wanted := by
  unfold sites
  split
  · exact .cons rfl .nil
  · exact (attrs_covered m.attrs).append (m.form.sites_covered index _)

theorem members_covered (members : List Member) (start : Nat) :
    Covered false ((members.zipIdx start).flatMap fun (m, index) => m.sites index)
      (members.flatMap (·.wanted)) := by
  induction members generalizing start with
  | nil => exact .nil
  | cons m members ih => exact (m.sites_covered start).append (ih (start + 1))

namespace Definition

theorem nameSite_covered (d : Definition) :
    Covered false [d.nameSite] (if d.isPartial then [d.name] else []) := by
  unfold nameSite
  split
  · exact .type_cons d.name .nil
  · exact .cons rfl .nil

theorem sites_covered (d : Definition) : Covered false d.sites d.wanted := by
  have hwanted : Covered false d.sites (d.attrs.elim [] (·.wanted)
      ++ (if d.isPartial then [d.name] else []) ++ d.parentName?.toList ++ d.form.wanted) := by
    rw [List.append_assoc, List.append_assoc]
    refine (attrs_covered d.attrs).append ?_
    have hname := d.nameSite_covered
    obtain ⟨attrs, form⟩ := d
    cases form with
    | container head name parent body =>
      refine hname.append (.append ?_ (members_covered body.members 0))
      cases parent with
      | none => exact .nil
      | some parent => exact .type_cons _ .nil
    | typedef keyword type name semicolon =>
      exact (type.sites_covered false).concat rfl
    | callback keyword name assign result arguments semicolon =>
      exact .cons rfl ((result.sites_covered false).append (arguments.sites_covered false))
    | includes name keyword mixin semicolon => exact .type_cons _ (.type_cons _ .nil)
  intro name hmem
  obtain ⟨hnested, hmem⟩ := hwanted name hmem
  exact ⟨hnested, List.mem_eraseDups.mpr hmem⟩

variable {d : Definition} {name : String}

/-- A name that is looked up is wanted, unless it stands only in the extended attributes of types
inside types. -/
theorem mem_wanted_of_mem_lookups (h : name ∈ d.lookups) : name ∈ d.wanted ∨ name ∈ d.passedOver := by
  obtain ⟨nested, hsite⟩ := mem_lookups.mp h
  cases nested with
  | true => exact .inr (mem_passedOver.mpr hsite)
  | false => exact .inl (d.sites_covered name hsite).2

/-- **All names that are looked up are wanted exactly when those passed over are wanted elsewhere in
the definition.** -/
theorem lookups_subset_wanted_iff :
    (∀ name ∈ d.lookups, name ∈ d.wanted) ↔ ∀ name ∈ d.passedOver, name ∈ d.wanted := by
  constructor
  · intro h name hname
    exact h name (mem_lookups_of_mem_passedOver hname)
  · intro h name hname
    rcases mem_wanted_of_mem_lookups hname with hwanted | hpassed
    · exact hwanted
    · exact h name hpassed

end Definition

end WebIdl
