import WebIdl.Proofs.Catalog.Merged
import WebIdl.Proofs.Lint.Dictionaries
import Mathlib.Data.List.Perm.Basic

/-!
# Arguments that are dictionaries

An optional argument that is a dictionary should have a default. Arguments stand in the argument lists
of callbacks, members and extended attributes, and extended attributes stand at definitions and
members, but also at types and arguments. The check goes through the lists that `argumentLists` names.

* `Definition.allArguments` — all arguments of a definition, at any depth.
* `Lint.listedArguments`, `Lint.unlistedArguments` — those that are checked and those that are not;
  `Lint.allArguments_perm` says that there are no others.
* `Lint.dictArguments_iff` — a finding for each argument that is checked and lacks a default; these are
  all there are exactly when no other argument lacks one.
* `Lint.not_dictArguments_exact` — an argument in the extended attributes of a type.
-/

namespace WebIdl

/-! ### All arguments -/

mutual

/-- The arguments in extended attributes, at any depth. -/
def ExtAttrList.allArguments : ExtAttrList → List Argument
  | .mk _ items _ => extAttrArguments items

def extAttrArguments : Separated ExtAttr → List Argument
  | .last attr => attr.allArguments
  | .cons attr _ rest => attr.allArguments ++ extAttrArguments rest

def ExtAttr.allArguments : ExtAttr → List Argument
  | .mk _ _ none => []
  | .mk _ _ (some arguments) => arguments.allArguments

/-- The arguments of a list, each with those inside of it. -/
def ArgumentList.allArguments : ArgumentList → List Argument
  | .mk _ none _ => []
  | .mk _ (some items) _ => separatedArguments items

def separatedArguments : Separated Argument → List Argument
  | .last argument => argument :: argument.innerArguments
  | .cons argument _ rest => argument :: argument.innerArguments ++ separatedArguments rest

/-- The arguments in the extended attributes and in the type of an argument. -/
def Argument.innerArguments : Argument → List Argument
  | .required none type _ _ => type.allArguments
  | .required (some attrs) type _ _ => attrs.allArguments ++ type.allArguments
  | .optional none _ type _ _ => type.allArguments
  | .optional (some attrs) _ type _ _ => attrs.allArguments ++ type.allArguments

/-- The arguments in the extended attributes of a type and of the types that it is made of. -/
def IdlType.allArguments : IdlType → List Argument
  | .mk none form _ => form.allArguments
  | .mk (some attrs) form _ => attrs.allArguments ++ form.allArguments

def TypeForm.allArguments : TypeForm → List Argument
  | .named _ _ => []
  | .generic _ _ types _ => typeArguments types
  | .union _ first _ rest _ => first.allArguments ++ typeArguments rest

def typeArguments : Separated IdlType → List Argument
  | .last type => type.allArguments
  | .cons type _ rest => type.allArguments ++ typeArguments rest

end

theorem extAttrArguments_eq (items : Separated ExtAttr) :
    extAttrArguments items = items.items.flatMap (·.allArguments) := by
  induction items with
  | last attr => simp [extAttrArguments, Separated.items]
  | cons attr separator rest ih => simp [extAttrArguments, Separated.items, ih]

theorem separatedArguments_eq (items : Separated Argument) :
    separatedArguments items = items.items.flatMap fun a => a :: a.innerArguments := by
  induction items with
  | last a => simp [separatedArguments, Separated.items]
  | cons a separator rest ih => simp [separatedArguments, Separated.items, ih]

theorem ArgumentList.allArguments_eq (list : ArgumentList) :
    list.allArguments = list.arguments.flatMap fun a => a :: a.innerArguments := by
  obtain ⟨opening, items, closing⟩ := list
  cases items with
  | none => simp [allArguments, arguments]
  | some items => rw [allArguments, separatedArguments_eq, arguments]

theorem ExtAttr.allArguments_eq (attr : ExtAttr) :
    attr.allArguments = attr.arguments.toList.flatMap (·.allArguments) := by
  obtain ⟨name, assignment, list⟩ := attr
  cases list <;> simp [allArguments, arguments]

theorem ExtAttrList.allArguments_eq (attrs : ExtAttrList) :
    attrs.allArguments = attrs.items.flatMap (·.allArguments) := by
  obtain ⟨opening, items, closing⟩ := attrs
  rw [allArguments, extAttrArguments_eq, ExtAttrList.items]

/-- The types of a member, outside of its arguments. -/
def Member.Form.types : Member.Form → List IdlType
  | .attribute _ _ type _ _ | .operation _ type _ _ _ | .constant _ type _ _ _ _
  | .field _ type _ _ _ => [type]
  | .declaration _ _ _ types _ _ _ => types.items
  | .stringifier .. | .constructor .. | .enumValue .. => []

def Member.allArguments (m : Member) : List Argument :=
  m.attrs.elim [] (·.allArguments) ++ m.form.arguments?.elim [] (·.allArguments)
    ++ m.form.types.flatMap (·.allArguments)

namespace Definition

/-- The arguments of a callback. -/
def Form.arguments? : Form → Option ArgumentList
  | .callback _ _ _ _ list _ => some list
  | .container .. | .typedef .. | .includes .. => none

/-- The type of a typedef, or what a callback returns. -/
def Form.type? : Form → Option IdlType
  | .typedef _ type _ _ => some type
  | .callback _ _ _ result _ _ => some result
  | .container .. | .includes .. => none

/-- The arguments of a definition, wherever they stand in it. -/
def allArguments (d : Definition) : List Argument :=
  d.attrs.elim [] (·.allArguments) ++ d.form.arguments?.elim [] (·.allArguments)
    ++ d.form.type?.elim [] (·.allArguments) ++ d.members.flatMap (·.allArguments)

end Definition

/-! ### The arguments that are checked -/

namespace Lint

/-- The arguments of the lists that are checked, with what they belong to. -/
def listedArguments (d : Definition) : List (String × Argument) :=
  (argumentLists d).flatMap fun (owner, list) => list.arguments.map (owner, ·)

/-- The arguments in the extended attributes of types and of other arguments. -/
def unlistedArguments (d : Definition) : List Argument :=
  d.form.type?.elim [] (·.allArguments)
    ++ d.members.flatMap (fun m => m.form.types.flatMap (·.allArguments))
    ++ (listedArguments d).flatMap (·.2.innerArguments)

theorem flatMap_attrArguments (owner : String) (attrs : Option ExtAttrList) :
    (attrArguments owner attrs).flatMap (·.2.allArguments) = attrs.elim [] (·.allArguments) := by
  have hitems (items : List ExtAttr) :
      (items.filterMap fun attr => attr.arguments.map fun list =>
          (owner ++ " [" ++ attr.name ++ "]", list)).flatMap (·.2.allArguments) =
        items.flatMap (·.allArguments) := by
    induction items with
    | nil => rfl
    | cons attr items ih =>
      rw [List.flatMap_cons, ExtAttr.allArguments_eq, ← ih]
      cases hlist : attr.arguments <;> simp [hlist]
  cases attrs with
  | none => rfl
  | some attrs => exact (hitems attrs.items).trans attrs.allArguments_eq.symm

theorem flatMap_argumentLists (d : Definition) :
    (argumentLists d).flatMap (·.2.allArguments) =
      d.attrs.elim [] (·.allArguments) ++ d.form.arguments?.elim [] (·.allArguments)
        ++ d.members.flatMap fun m =>
          m.attrs.elim [] (·.allArguments) ++ m.form.arguments?.elim [] (·.allArguments) := by
  have hmember (m : Member) : (attrArguments (memberOwner m) m.attrs
      ++ m.form.arguments?.toList.map (memberOwner m, ·)).flatMap (·.2.allArguments) =
        m.attrs.elim [] (·.allArguments) ++ m.form.arguments?.elim [] (·.allArguments) := by
    rw [List.flatMap_append, flatMap_attrArguments]
    cases m.form.arguments? <;> simp
  rw [argumentLists, List.flatMap_append, List.flatMap_append, flatMap_attrArguments,
    List.flatMap_assoc]
  congr 1
  · congr 1
    cases d.form <;> simp [Definition.Form.arguments?]
  · exact List.flatMap_congr fun m _ => hmember m

/-- The arguments in the lists that are checked, with those inside of them. -/
theorem flatMap_argumentLists_perm (d : Definition) :
    ((argumentLists d).flatMap (·.2.allArguments)).Perm
      ((listedArguments d).map (·.2) ++ (listedArguments d).flatMap (·.2.innerArguments)) := by
  have hlisted : (argumentLists d).flatMap (·.2.allArguments) =
      (listedArguments d).flatMap fun (_, a) => a :: a.innerArguments := by
    rw [listedArguments, List.flatMap_assoc]
    refine List.flatMap_congr fun list _ => ?_
    rw [List.flatMap_map, ArgumentList.allArguments_eq]
  rw [hlisted]
  exact (List.map_append_flatMap_perm _ _ _).symm

/-- An argument of a definition is checked, or it stands in the extended attributes of a type or of
another argument. -/
theorem allArguments_perm (d : Definition) :
    d.allArguments.Perm ((listedArguments d).map (·.2) ++ unlistedArguments d) := by
  have hmembers : (d.members.flatMap (·.allArguments)).Perm
      ((d.members.flatMap fun m =>
          m.attrs.elim [] (·.allArguments) ++ m.form.arguments?.elim [] (·.allArguments)) ++
        d.members.flatMap fun m => m.form.types.flatMap (·.allArguments)) :=
    (List.flatMap_append_perm _ _ _).symm
  have hlists := flatMap_argumentLists_perm d
  rw [flatMap_argumentLists] at hlists
  unfold Definition.allArguments unlistedArguments
  -- the types go behind the lists that are checked, and what is inside of these behind the types
  rw [List.append_assoc]
  refine ((hmembers.append_left _).append_left _).trans ?_
  refine ((List.perm_append_comm_assoc _ _ _).append_left _).trans ?_
  rw [← List.append_assoc]
  refine (hlists.append_right _).trans ?_
  rw [List.append_assoc]
  exact List.perm_append_comm.append_left _

end Lint

/-! ### Findings -/

namespace Catalog

/-- The arguments of all definitions, with the fragments in which they stand. -/
def allArguments (catalog : Catalog) : List (Fragment × Argument) :=
  catalog.fragments.flatMap fun f => f.definition.allArguments.map (f, ·)

/-- An optional argument without a default, of which the type leads to a dictionary. -/
structure LacksDefault (catalog : Catalog) (a : Argument) : Prop where
  isOptional : a.isOptional = true
  default_eq : a.default = none
  leads : ∃ d, catalog.LeadsTo a.type d

instance (catalog : Catalog) (a : Argument) : Decidable (catalog.LacksDefault a) :=
  decidable_of_iff (a.isOptional = true ∧ a.default = none ∧
      (Lint.dictionaryBehind? catalog a.type).isSome = true) <| by
    simp only [Option.isSome_iff_exists, Lint.dictionaryBehind?_eq_some_iff]
    exact ⟨fun h => ⟨h.1, h.2.1, h.2.2⟩, fun h => ⟨h.1, h.2, h.3⟩⟩

end Catalog

namespace Lint

/-- The arguments that are checked in all definitions, with what they belong to. -/
def allListed (catalog : Catalog) : List (Fragment × String × Argument) :=
  catalog.fragments.flatMap fun f => (listedArguments f.definition).map (f, ·)

/-- The arguments that are not checked. -/
def allUnlisted (catalog : Catalog) : List (Fragment × Argument) :=
  catalog.fragments.flatMap fun f => (unlistedArguments f.definition).map (f, ·)

variable {catalog : Catalog}

theorem allArguments_catalog_perm (catalog : Catalog) :
    catalog.allArguments.Perm
      ((allListed catalog).map (fun (f, _, a) => (f, a)) ++ allUnlisted catalog) := by
  have hfragment (f : Fragment) : (f.definition.allArguments.map (f, ·)).Perm
      ((listedArguments f.definition).map (fun (_, a) => (f, a)) ++
        (unlistedArguments f.definition).map (f, ·)) := by
    simpa [Function.comp_def] using (allArguments_perm f.definition).map (f, ·)
  refine (List.Perm.flatMap_left _ fun f _ => hfragment f).trans ?_
  refine (List.flatMap_append_perm _ _ _).symm.trans ?_
  simp [allListed, allUnlisted, List.map_flatMap, Function.comp_def]

/-- A finding says of an argument that it lacks a default, for the dictionary that its type leads to. -/
def Reports (catalog : Catalog) (finding : Finding) (f : Fragment) (owner : String)
    (a : Argument) : Prop :=
  ∃ d, catalog.LeadsTo a.type d ∧
    finding = .error f.block "dict-arg-default" (dictArgMessage catalog owner a d) (some owner)

/-- What is found for one argument. -/
def argumentFinding? (catalog : Catalog) (f : Fragment) (owner : String) (a : Argument) :
    Option Finding := do
  if !a.isOptional || a.default.isSome then none
  let dictionary ← dictionaryBehind? catalog a.type
  return .error f.block "dict-arg-default" (dictArgMessage catalog owner a dictionary) (some owner)

theorem dictArguments_eq (catalog : Catalog) :
    dictArguments catalog =
      (allListed catalog).filterMap fun (f, owner, a) => argumentFinding? catalog f owner a := by
  simp only [dictArguments, allListed, listedArguments, List.filterMap_flatMap,
    List.filterMap_map]
  rfl

/-- One finding for an argument that lacks a default. -/
theorem exists_argumentFinding? {f : Fragment} {owner : String} {a : Argument}
    (h : catalog.LacksDefault a) :
    ∃ finding, argumentFinding? catalog f owner a = some finding ∧
      Reports catalog finding f owner a := by
  obtain ⟨hoptional, hdefault, d, hd⟩ := h
  refine ⟨_, ?_, d, hd, rfl⟩
  simp [argumentFinding?, hoptional, hdefault, dictionaryBehind?_eq_some_iff.mpr hd]

theorem argumentFinding?_eq_none {f : Fragment} {owner : String} {a : Argument}
    (h : ¬ catalog.LacksDefault a) : argumentFinding? catalog f owner a = none := by
  by_cases hlacks : a.isOptional = true ∧ a.default = none
  · have hnone : dictionaryBehind? catalog a.type = none := by
      rw [Option.eq_none_iff_forall_ne_some]
      intro d hd
      exact h ⟨hlacks.1, hlacks.2, d, dictionaryBehind?_eq_some_iff.mp hd⟩
    simp [argumentFinding?, hlacks.1, hlacks.2, hnone]
  · have hskipped : (!a.isOptional || a.default.isSome) = true := by
      cases hoptional : a.isOptional <;> cases hdefault : a.default <;> simp_all
    simp [argumentFinding?, hskipped]

/-- What is made of the items that pass, when there is one thing for each of them and none for the
others. -/
theorem forall₂_filterMap_filter {α β : Type} {r : β → α → Prop} {make : α → Option β}
    {pass : α → Bool} (xs : List α)
    (hpass : ∀ a, pass a = true → ∃ b, make a = some b ∧ r b a)
    (hfail : ∀ a, pass a = false → make a = none) :
    List.Forall₂ r (xs.filterMap make) (xs.filter pass) := by
  induction xs with
  | nil => exact .nil
  | cons a xs ih =>
    cases ha : pass a with
    | true =>
      obtain ⟨b, hb, hr⟩ := hpass a ha
      rw [List.filterMap_cons_some hb, List.filter_cons_of_pos ha]
      exact .cons hr ih
    | false =>
      rw [List.filterMap_cons_none (hfail a ha), List.filter_cons_of_neg (by simp [ha])]
      exact ih

/-- One finding for each argument that is checked and lacks a default, in order. -/
theorem forall₂_dictArguments (catalog : Catalog) :
    List.Forall₂ (fun finding (f, owner, a) => Reports catalog finding f owner a)
      (dictArguments catalog)
      ((allListed catalog).filter fun (_, _, a) => catalog.LacksDefault a) := by
  rw [dictArguments_eq]
  refine forall₂_filterMap_filter _ ?_ ?_
  · rintro ⟨f, owner, a⟩ h
    exact exists_argumentFinding? (by simpa using h)
  · rintro ⟨f, owner, a⟩ h
    exact argumentFinding?_eq_none (by simpa using h)

/-- The findings are one for each argument that lacks a default, wherever it stands. -/
def ReportsAll (catalog : Catalog) (findings : List Finding) : Prop :=
  ∃ reported : List (Fragment × Argument),
    reported.Perm (catalog.allArguments.filter fun (_, a) => catalog.LacksDefault a) ∧
      List.Forall₂ (fun finding (f, a) => ∃ owner, Reports catalog finding f owner a)
        findings reported

theorem reportsAll_iff (catalog : Catalog) :
    ReportsAll catalog (dictArguments catalog) ↔
      ∀ f ∈ catalog.fragments, ∀ a ∈ unlistedArguments f.definition, ¬ catalog.LacksDefault a := by
  have hlacking : (catalog.allArguments.filter fun (_, a) => catalog.LacksDefault a).Perm
      (((allListed catalog).filter fun (_, _, a) => catalog.LacksDefault a).map
          (fun (f, _, a) => (f, a)) ++
        (allUnlisted catalog).filter fun (_, a) => catalog.LacksDefault a) := by
    have hfilter := (allArguments_catalog_perm catalog).filter fun (_, a) => catalog.LacksDefault a
    rwa [List.filter_append, List.filter_map] at hfilter
  have hunlisted : ((allUnlisted catalog).filter fun (_, a) => catalog.LacksDefault a) = [] ↔
      ∀ f ∈ catalog.fragments, ∀ a ∈ unlistedArguments f.definition,
        ¬ catalog.LacksDefault a := by
    simp only [allUnlisted, List.filter_eq_nil_iff, List.mem_flatMap, List.mem_map,
      decide_eq_true_eq]
    constructor
    · intro h f hf a ha
      exact h (f, a) ⟨f, hf, a, ha, rfl⟩
    · rintro h _ ⟨f, hf, a, ha, rfl⟩
      exact h f hf a ha
  have hfound := forall₂_dictArguments catalog
  rw [← hunlisted]
  constructor
  · rintro ⟨reported, hperm, hreports⟩
    have hlength := (hperm.trans hlacking).length_eq
    rw [← hreports.length_eq, hfound.length_eq, List.length_append, List.length_map] at hlength
    exact List.length_eq_zero_iff.mp (by omega)
  · intro hnone
    rw [hnone, List.append_nil] at hlacking
    refine ⟨_, hlacking.symm, ?_⟩
    rw [List.forall₂_map_right_iff]
    exact hfound.imp fun finding entry h => ⟨entry.2.1, h⟩

/-- **Every argument of a definition is in one of the lists that are checked, or it stands in the
extended attributes of a type or of another argument. The findings are one for each argument that is
checked and lacks a default, and so one for each argument that lacks a default exactly when no other
argument lacks one.** -/
theorem dictArguments_iff (catalog : Catalog) :
    (∀ d : Definition,
        d.allArguments.Perm ((listedArguments d).map (·.2) ++ unlistedArguments d)) ∧
      List.Forall₂ (fun finding (f, owner, a) => Reports catalog finding f owner a)
        (dictArguments catalog)
        ((allListed catalog).filter fun (_, _, a) => catalog.LacksDefault a) ∧
      (ReportsAll catalog (dictArguments catalog) ↔
        ∀ f ∈ catalog.fragments, ∀ a ∈ unlistedArguments f.definition,
          ¬ catalog.LacksDefault a) :=
  ⟨allArguments_perm, forall₂_dictArguments catalog, reportsAll_iff catalog⟩

/-! ### An argument of an attribute of a type -/

/-- A typedef whose type has an extended attribute with an optional dictionary argument. -/
def attributedType : List (Nat × List Definition) :=
  Catalog.registrations ["dictionary D {};\ntypedef [X(optional D d)] long T;"]

/-- The argument lacks a default, and nothing is found. -/
theorem not_dictArguments_exact :
    let catalog := Catalog.ofRegistrations attributedType
    (∃ entry ∈ catalog.allArguments, entry.1.block = 0 ∧ entry.2.name = "d" ∧
      catalog.LacksDefault entry.2) ∧
      dictArguments catalog = [] ∧ ¬ ReportsAll catalog (dictArguments catalog) := by
  intro catalog
  have hlacks : ∃ entry ∈ catalog.allArguments, entry.1.block = 0 ∧ entry.2.name = "d" ∧
      catalog.LacksDefault entry.2 := by
    decide +kernel
  have hnone : dictArguments catalog = [] := by decide +kernel
  refine ⟨hlacks, hnone, ?_⟩
  rintro ⟨reported, hperm, hreports⟩
  rw [hnone, List.forall₂_nil_left_iff] at hreports
  rw [hreports, List.nil_perm, List.filter_eq_nil_iff] at hperm
  obtain ⟨entry, hentry, -, -, hlacks⟩ := hlacks
  exact hperm entry hentry (decide_eq_true hlacks)

end Lint

end WebIdl
