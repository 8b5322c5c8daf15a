import Mathlib.Logic.Relation
import WebIdl.Proofs.Lint.Dictionaries

/-!
# Walks over names

The two walks of the check for dictionary arguments follow names through the catalog: from a typedef
to its type, and from a dictionary to the one that it inherits from. Names may lead round in a
circle, so a walk has to give up somewhere.

* `Halts` — a walk that keeps the names it has passed, and gives up where one of them comes again.
* `Halts.eq_some_iff` — giving up there hides nothing, because what is found is found at a distance
  of its own from every name that leads to it.
* `Lint.dictionaryPast`, `Lint.requiresPast` — the two walks in this form. Each name that is passed
  is that of a definition, so the names that have not been passed become fewer.
* `Lint.walks_exact` — they end as the walks with a bound do, and these find what following the
  names without a bound finds.
-/

namespace WebIdl

/-! ### Giving up at a name that comes again -/

section Halts

variable {β : Type} (found : String → Option β) (next : String → Option String)

/-- A walk that has passed some names goes on from a name, and halts with a result. -/
inductive Halts : List String → String → Option β → Prop where
  | found {passed : List String} {name : String} {b : β} (h : found name = some b) :
      Halts passed name (some b)
  | ended {passed : List String} {name : String} (hnone : found name = none)
      (h : next name = none) : Halts passed name none
  | again {passed : List String} {name : String} (h : name ∈ passed) : Halts passed name none
  | on {passed : List String} {name target : String} {result : Option β}
      (hnone : found name = none) (hnext : next name = some target)
      (h : Halts (name :: passed) target result) : Halts passed name result

variable {found next} {passed : List String} {name : String} {result : Option β}

/-- What is found from a name is found from every name that was passed, but later. -/
def Precede (found : String → Option β) (next : String → Option String) (passed : List String)
    (name : String) : Prop :=
  ∀ p ∈ passed, ∀ n b, FoundAfter found next n name b → ∃ m, n < m ∧ FoundAfter found next m p b

theorem Precede.cons {target : String} (h : Precede found next passed name)
    (hnone : found name = none) (hnext : next name = some target) :
    Precede found next (name :: passed) target := by
  intro p hp n b hafter
  have hself : FoundAfter found next (n + 1) name b := .later hnone hnext hafter
  rcases List.mem_cons.mp hp with rfl | hp
  · exact ⟨n + 1, n.lt_succ_self, hself⟩
  · obtain ⟨m, hm, hpassed⟩ := h p hp (n + 1) b hself
    exact ⟨m, Nat.lt_of_succ_lt hm, hpassed⟩

namespace Halts

/-- A walk that gives up at a name that it has passed would have found nothing. -/
theorem eq_some_iff (h : Halts found next passed name result)
    (hpassed : Precede found next passed name) (b : β) :
    result = some b ↔ ∃ n, FoundAfter found next n name b := by
  induction h with
  | found hfound =>
    constructor
    · intro hb
      rw [hb] at hfound
      exact ⟨0, .here hfound⟩
    · rintro ⟨n, hafter⟩
      cases hafter with
      | here hfound' => rw [← hfound, hfound']
      | later hnone => simp [hnone] at hfound
  | ended hnone hnext =>
    constructor
    · intro hb
      cases hb
    · rintro ⟨n, hafter⟩
      cases hafter with
      | here hfound => simp [hnone] at hfound
      | later _ hnext' => simp [hnext] at hnext'
  | again hname =>
    constructor
    · intro hb
      cases hb
    · rintro ⟨n, hafter⟩
      -- the name would be further from what is found than it is
      obtain ⟨m, hm, hlater⟩ := hpassed _ hname n b hafter
      exact absurd (hafter.unique hlater) (Nat.ne_of_lt hm)
  | on hnone hnext _ ih =>
    rw [ih (hpassed.cons hnone hnext)]
    constructor
    · rintro ⟨n, hafter⟩
      exact ⟨n + 1, .later hnone hnext hafter⟩
    · rintro ⟨n, hafter⟩
      cases hafter with
      | here hfound => simp [hnone] at hfound
      | later _ hnext' hafter =>
        rw [hnext] at hnext'
        obtain rfl := Option.some.inj hnext'
        exact ⟨_, hafter⟩

/-- A walk that starts with no names passed ends as the walk with a bound does, if there are as many
steps as names that lead on. -/
theorem eq_walk {names : List String} (h : Halts found next [] name result)
    (hnames : ∀ name, (next name).isSome → name ∈ names) :
    result = walk found next (names.length + 1) name := by
  have hnone : Precede found next [] name := nofun
  apply Option.ext
  intro b
  rw [h.eq_some_iff hnone, walk_eq_some_iff_foundAfter hnames]

end Halts

/-- Something is found from a name exactly if a name can be reached at which it is. -/
theorem exists_foundAfter_iff : (∃ n b, FoundAfter found next n name b) ↔
    ∃ target, Relation.ReflTransGen (fun a b => next a = some b) name target ∧
      (found target).isSome := by
  constructor
  · rintro ⟨n, b, h⟩
    induction h with
    | here hfound => exact ⟨_, .refl, by rw [hfound]; rfl⟩
    | later _ hnext _ ih =>
      obtain ⟨target, hreach, htarget⟩ := ih
      exact ⟨target, .head hnext hreach, htarget⟩
  · rintro ⟨target, hreach, htarget⟩
    induction hreach using Relation.ReflTransGen.head_induction_on with
    | refl =>
      obtain ⟨b, hb⟩ := Option.isSome_iff_exists.mp htarget
      exact ⟨0, b, .here hb⟩
    | @head name target hnext _ ih =>
      obtain ⟨n, b, hafter⟩ := ih
      cases hfound : found name with
      | some b' => exact ⟨0, b', .here hfound⟩
      | none => exact ⟨n + 1, b, .later hfound hnext hafter⟩

end Halts

/-! ### Inheritance -/

namespace Catalog

/-- The name that the dictionary of a name inherits from. -/
def parent? (catalog : Catalog) (name : String) : Option String :=
  (catalog.base? name (some .dictionary)).bind (·.definition.parentName?)

/-- Dictionaries by name: the first inherits from the second. -/
def Inherits (catalog : Catalog) (name parent : String) : Prop := catalog.parent? name = some parent

/-- A dictionary of the name, or a partial definition of it, has a required field. -/
def hasRequired (catalog : Catalog) (name : String) : Bool :=
  (catalog.mergedMembers name .dictionary).any (·.isRequired)

/-- The name, if it has a required field. -/
def required? (catalog : Catalog) (name : String) : Option String :=
  if catalog.hasRequired name then some name else none

variable {catalog : Catalog} {name : String} {family : Option Definition.Family} {f : Fragment}

theorem mem_map_name_of_base? (h : catalog.base? name family = some f) :
    name ∈ catalog.fragments.map (·.name) := by
  have hfound := List.find?_some h
  simp only [Bool.and_eq_true, beq_iff_eq] at hfound
  exact List.mem_map.mpr ⟨f, List.mem_of_find?_eq_some h, hfound.1.2⟩

theorem mem_map_name_of_definition? {d : Definition} (h : catalog.definition? name = some d) :
    name ∈ catalog.fragments.map (·.name) := by
  obtain ⟨f, hf, -⟩ := Option.map_eq_some_iff.mp h
  exact mem_map_name_of_base? hf

theorem mem_map_name_of_isSome_parent? (h : (catalog.parent? name).isSome = true) :
    name ∈ catalog.fragments.map (·.name) := by
  obtain ⟨parent, h⟩ := Option.isSome_iff_exists.mp h
  obtain ⟨f, hf, -⟩ := Option.bind_eq_some_iff.mp h
  exact mem_map_name_of_base? hf

/-- How many definitions have a name that is not among those passed. -/
def unpassed (catalog : Catalog) (passed : List String) : Nat :=
  (catalog.fragments.map (·.name)).countP (· ∉ passed)

theorem unpassed_cons_lt {passed : List String} (hname : name ∈ catalog.fragments.map (·.name))
    (hnew : name ∉ passed) : catalog.unpassed (name :: passed) < catalog.unpassed passed := by
  obtain ⟨front, back, hnames⟩ := List.append_of_mem hname
  have hfront : front.countP (· ∉ name :: passed) ≤ front.countP (· ∉ passed) :=
    List.countP_mono_left (by simp +contextual)
  have hback : back.countP (· ∉ name :: passed) ≤ back.countP (· ∉ passed) :=
    List.countP_mono_left (by simp +contextual)
  unfold unpassed
  rw [hnames, List.countP_append, List.countP_append, List.countP_cons_of_neg (by simp),
    List.countP_cons_of_pos (by simpa using hnew)]
  omega

end Catalog

namespace Lint

open Catalog

/-- The dictionary behind a type, by a walk that gives up where a typedef comes again. -/
def dictionaryPast (catalog : Catalog) (passed : List String) (type : IdlType) :
    Option Definition :=
  match type.named? with
  | none => none
  | some name =>
    match _hd : catalog.definition? name with
    | none => none
    | some definition =>
      if definition.kind == .dictionary then some definition
      else match definition.form with
        | .typedef _ target _ _ =>
          if _hnew : name ∈ passed then none else dictionaryPast catalog (name :: passed) target
        | _ => none
termination_by catalog.unpassed passed
decreasing_by exact unpassed_cons_lt (mem_map_name_of_definition? _hd) _hnew

/-- A dictionary or one that it inherits from has a required field, by a walk that gives up where a
name comes again. -/
def requiresPast (catalog : Catalog) (passed : List String) (name : String) : Bool :=
  if _hnew : name ∈ passed then false
  else if catalog.hasRequired name then true
  else
    match _hparent : catalog.parent? name with
    | none => false
    | some parent => requiresPast catalog (name :: passed) parent
termination_by catalog.unpassed passed
decreasing_by exact unpassed_cons_lt (mem_map_name_of_isSome_parent? (by simp [_hparent])) _hnew

variable {catalog : Catalog}

theorem halts_dictionaryPast {name : String} {type : IdlType} (passed : List String)
    (hname : type.named? = some name) :
    Halts catalog.dictionary? catalog.aliased? passed name
      (dictionaryPast catalog passed type) := by
  fun_induction dictionaryPast catalog passed type generalizing name with
  | case1 passed type hnone => simp [hnone] at hname
  | case2 passed type name' hname' hd =>
    obtain rfl := Option.some.inj (hname.symm.trans hname')
    exact .ended (by simp [dictionary?, hd]) (by simp [aliased?, hd])
  | case3 passed type name' hname' d hd hkind =>
    obtain rfl := Option.some.inj (hname.symm.trans hname')
    exact .found (dictionary?_eq_some_iff.mpr ⟨hd, by simpa using hkind⟩)
  | case4 passed type name' hname' d hd hkind keyword target nameToken semicolon hform hagain =>
    obtain rfl := Option.some.inj (hname.symm.trans hname')
    exact .again hagain
  | case5 passed type name' hname' d hd hkind keyword target nameToken semicolon hform hnew ih =>
    obtain rfl := Option.some.inj (hname.symm.trans hname')
    have hnone : catalog.dictionary? name = none := by
      simpa [dictionary?, hd, Option.filter_eq_none_iff] using hkind
    have hnext : catalog.aliased? name = target.named? := by simp [aliased?, hd, hform]
    cases htarget : target.named? with
    | none =>
      rw [dictionaryPast.eq_def, htarget]
      exact .ended hnone (hnext.trans htarget)
    | some target' => exact .on hnone (hnext.trans htarget) (ih htarget)
  | case6 passed type name' hname' d hd hkind hform =>
    obtain rfl := Option.some.inj (hname.symm.trans hname')
    refine .ended ?_ ?_
    · simpa [dictionary?, hd, Option.filter_eq_none_iff] using hkind
    · cases hd' : d.form with
      | typedef keyword target nameToken semicolon => exact absurd hd' (hform _ _ _ _)
      | container | callback | includes => simp [aliased?, hd, hd']

theorem dictionaryBehind?_eq (catalog : Catalog) (type : IdlType) :
    dictionaryBehind? catalog type = type.named?.bind (walk catalog.dictionary? catalog.aliased?
      ((catalog.fragments.map (·.name)).length + 1)) := by
  rw [dictionaryBehind?, dictionaryWithin_eq, List.length_map]

theorem dictionaryPast_nil (type : IdlType) :
    dictionaryPast catalog [] type = dictionaryBehind? catalog type := by
  rw [dictionaryBehind?_eq]
  cases hname : type.named? with
  | none => rw [dictionaryPast.eq_def, hname, Option.bind_none]
  | some name =>
    have halts : Halts catalog.dictionary? catalog.aliased? [] name
        (dictionaryPast catalog [] type) := halts_dictionaryPast [] hname
    exact halts.eq_walk fun _ => mem_map_name_of_isSome_aliased?

/-- The walk for required fields says whether one is found. -/
theorem halts_requiresPast (passed : List String) (name : String) :
    ∃ result, Halts catalog.required? catalog.parent? passed name result ∧
      requiresPast catalog passed name = result.isSome := by
  fun_induction requiresPast catalog passed name with
  | case1 passed name hagain => exact ⟨none, .again hagain, rfl⟩
  | case2 passed name hnew hrequired => exact ⟨some name, .found (if_pos hrequired), rfl⟩
  | case3 passed name hnew hrequired hparent =>
    exact ⟨none, .ended (if_neg hrequired) hparent, rfl⟩
  | case4 passed name hnew hrequired parent hparent ih =>
    obtain ⟨result, halts, hresult⟩ := ih
    exact ⟨result, .on (if_neg hrequired) hparent halts, hresult⟩

theorem requiresWithin_eq (catalog : Catalog) (steps : Nat) (name : String) :
    requiresWithin catalog steps name =
      (walk catalog.required? catalog.parent? steps name).isSome := by
  induction steps generalizing name with
  | zero => rfl
  | succ steps ih =>
    have hnext : (catalog.parent? name).any (requiresWithin catalog steps) =
        ((catalog.parent? name).bind (walk catalog.required? catalog.parent? steps)).isSome := by
      cases catalog.parent? name with
      | none => rfl
      | some parent => exact ih parent
    have hfound : (catalog.required? name).isSome = catalog.hasRequired name := by
      unfold required?
      split <;> simp_all
    rw [requiresWithin, walk, Option.isSome_or, hfound, ← hnext]
    rfl

theorem hasRequiredFields_eq (catalog : Catalog) (d : Definition) :
    hasRequiredFields catalog d = (walk catalog.required? catalog.parent?
      ((catalog.fragments.map (·.name)).length + 1) d.name).isSome := by
  rw [hasRequiredFields, requiresWithin_eq, List.length_map]

theorem requiresPast_nil (d : Definition) :
    requiresPast catalog [] d.name = hasRequiredFields catalog d := by
  have hhalts : ∃ result, Halts catalog.required? catalog.parent? [] d.name result ∧
      requiresPast catalog [] d.name = result.isSome := halts_requiresPast [] d.name
  obtain ⟨result, halts, hresult⟩ := hhalts
  rw [hresult, hasRequiredFields_eq, halts.eq_walk fun _ => mem_map_name_of_isSome_parent?]

theorem hasRequiredFields_iff (d : Definition) : hasRequiredFields catalog d = true ↔
    ∃ name, Relation.ReflTransGen catalog.Inherits d.name name ∧
      catalog.hasRequired name = true := by
  have hsome (name : String) : (catalog.required? name).isSome ↔ catalog.hasRequired name := by
    simp [required?]
  have hreach : (∃ n b, FoundAfter catalog.required? catalog.parent? n d.name b) ↔
      ∃ name, Relation.ReflTransGen catalog.Inherits d.name name ∧
        (catalog.required? name).isSome := exists_foundAfter_iff
  simp only [hsome] at hreach
  rw [hasRequiredFields_eq, Option.isSome_iff_exists]
  simp only [walk_eq_some_iff_foundAfter fun _ => mem_map_name_of_isSome_parent?]
  rw [exists_comm, hreach]

/-- **The walks end in every catalog, also where typedefs or dictionaries lead round in a circle.
The one for types gives a dictionary exactly if the type leads to it, and the one for required
fields holds exactly if a dictionary has one or inherits from one that does, over any number of
others.** -/
theorem walks_exact (catalog : Catalog) :
    (∀ type, dictionaryPast catalog [] type = dictionaryBehind? catalog type) ∧
      (∀ type d, dictionaryBehind? catalog type = some d ↔ catalog.LeadsTo type d) ∧
      (∀ d : Definition, requiresPast catalog [] d.name = hasRequiredFields catalog d) ∧
      ∀ d, hasRequiredFields catalog d = true ↔
        ∃ name, Relation.ReflTransGen catalog.Inherits d.name name ∧
          catalog.hasRequired name = true :=
  ⟨dictionaryPast_nil, fun _ _ => dictionaryBehind?_eq_some_iff, requiresPast_nil,
    hasRequiredFields_iff⟩

end Lint

end WebIdl
