import WebIdl.Lint.Rules
import Mathlib.Data.List.Perm.Subperm

/-!
# Dictionaries behind types

A type leads to a dictionary by its own name or by the names of typedefs. The check follows the names
for as many steps as there are definitions, and then it gives up. Nothing is lost by that: the names
before the dictionary are all different.

* `walk`, `FoundAfter` — following names for a number of steps, and what is found without a bound.
* `walk_eq_some_iff_foundAfter` — as many steps as there are names that lead on are enough.
* `Catalog.LeadsTo`, `Lint.dictionaryBehind?_eq_some_iff` — what a type leads to, and the check finds
  it.
-/

namespace WebIdl

/-! ### Following names -/

section Walk

variable {β : Type} (found : String → Option β) (next : String → Option String)

/-- What is found at a name, or else at the names that it leads to, of which it is one of at most
`steps`. -/
def walk : Nat → String → Option β
  | 0, _ => none
  | steps + 1, name => (found name).or ((next name).bind (walk steps))

/-- Something is found after a number of names at which nothing is. -/
inductive FoundAfter : Nat → String → β → Prop where
  | here {name : String} {b : β} (h : found name = some b) : FoundAfter 0 name b
  | later {n : Nat} {name target : String} {b : β} (hnone : found name = none)
      (hnext : next name = some target) (h : FoundAfter n target b) : FoundAfter (n + 1) name b

variable {found next} {name : String} {b : β}

theorem walk_eq_some_iff {steps : Nat} :
    walk found next steps name = some b ↔ ∃ n < steps, FoundAfter found next n name b := by
  induction steps generalizing name with
  | zero => simp [walk]
  | succ steps ih =>
    rw [walk]
    constructor
    · intro h
      cases hfound : found name with
      | some b' =>
        rw [hfound, Option.some_or] at h
        exact ⟨0, steps.succ_pos, .here (hfound.trans h)⟩
      | none =>
        rw [hfound, Option.none_or, Option.bind_eq_some_iff] at h
        obtain ⟨target, hnext, h⟩ := h
        obtain ⟨n, hn, hafter⟩ := ih.mp h
        exact ⟨n + 1, Nat.succ_lt_succ hn, .later hfound hnext hafter⟩
    · rintro ⟨n, hn, hafter⟩
      cases hafter with
      | here hfound => rw [hfound, Option.some_or]
      | later hnone hnext hafter =>
        rw [hnone, Option.none_or, hnext, Option.bind_some]
        exact ih.mpr ⟨_, Nat.lt_of_succ_lt_succ hn, hafter⟩

namespace FoundAfter

/-- The number of names before something is found is fixed. -/
theorem unique {n m : Nat} {b' : β} (h : FoundAfter found next n name b)
    (h' : FoundAfter found next m name b') : n = m := by
  induction h generalizing m with
  | here hfound =>
    cases h' with
    | here => rfl
    | later hnone => simp [hnone] at hfound
  | later hnone hnext _ ih =>
    cases h' with
    | here hfound => simp [hnone] at hfound
    | later _ hnext' h' =>
      obtain rfl := Option.some.inj (hnext.symm.trans hnext')
      rw [ih h']

/-- The names that lead on before something is found are all different, since each is at a distance of
its own from what is found. -/
theorem exists_nodup {n : Nat} (h : FoundAfter found next n name b) :
    ∃ names : List String, names.length = n ∧ names.Nodup ∧
      ∀ passed ∈ names, (next passed).isSome ∧
        ∃ m, 0 < m ∧ m ≤ n ∧ FoundAfter found next m passed b := by
  induction h with
  | here => exact ⟨[], rfl, List.nodup_nil, by simp⟩
  | @later n name target b hnone hnext h ih =>
    obtain ⟨names, hlength, hnodup, hnames⟩ := ih
    have hself : FoundAfter found next (n + 1) name b := .later hnone hnext h
    refine ⟨name :: names, by rw [List.length_cons, hlength], ?_, ?_⟩
    · refine List.nodup_cons.mpr ⟨?_, hnodup⟩
      intro hmem
      obtain ⟨-, m, -, hm, hagain⟩ := hnames name hmem
      have hsame := hself.unique hagain
      omega
    · intro passed hpassed
      rcases List.mem_cons.mp hpassed with rfl | hpassed
      · exact ⟨by rw [hnext]; rfl, n + 1, n.succ_pos, Nat.le_refl _, hself⟩
      · obtain ⟨hon, m, hpos, hm, hafter⟩ := hnames passed hpassed
        exact ⟨hon, m, hpos, Nat.le_succ_of_le hm, hafter⟩

/-- If only some names lead on, nothing is found after more names than these. -/
theorem le_length {names : List String} (hnames : ∀ name, (next name).isSome → name ∈ names) {n : Nat}
    (h : FoundAfter found next n name b) : n ≤ names.length := by
  obtain ⟨passed, rfl, hnodup, hpassed⟩ := h.exists_nodup
  exact (hnodup.subperm fun name hname => hnames name (hpassed name hname).1).length_le

end FoundAfter

/-- With one step more than there are names that lead on, everything is found. -/
theorem walk_eq_some_iff_foundAfter {names : List String}
    (hnames : ∀ name, (next name).isSome → name ∈ names) :
    walk found next (names.length + 1) name = some b ↔ ∃ n, FoundAfter found next n name b := by
  rw [walk_eq_some_iff]
  constructor
  · rintro ⟨n, -, h⟩
    exact ⟨n, h⟩
  · rintro ⟨n, h⟩
    exact ⟨n, Nat.lt_succ_of_le (h.le_length hnames), h⟩

end Walk

/-! ### Dictionaries -/

namespace Catalog

/-- A type leads to a dictionary: its name, nullable or not, is that of the dictionary, or that of a
typedef whose type leads there. -/
inductive LeadsTo (catalog : Catalog) : IdlType → Definition → Prop where
  | dictionary {type : IdlType} {name : String} {d : Definition} (hname : type.named? = some name)
      (hd : catalog.definition? name = some d) (hkind : d.kind = .dictionary) :
      LeadsTo catalog type d
  | typedef {type target : IdlType} {name : String} {d d' : Definition}
      {keyword nameToken semicolon : Token} (hname : type.named? = some name)
      (hd' : catalog.definition? name = some d')
      (hform : d'.form = .typedef keyword target nameToken semicolon)
      (h : LeadsTo catalog target d) : LeadsTo catalog type d

/-- The dictionary of a name. -/
def dictionary? (catalog : Catalog) (name : String) : Option Definition :=
  (catalog.definition? name).filter (·.kind == .dictionary)

/-- The name that a typedef of a name leads to. -/
def aliased? (catalog : Catalog) (name : String) : Option String :=
  (catalog.definition? name).bind fun d =>
    match d.form with
    | .typedef _ type _ _ => type.named?
    | _ => none

variable {catalog : Catalog} {type : IdlType} {name target : String} {d : Definition}

theorem dictionary?_eq_some_iff : catalog.dictionary? name = some d ↔
    catalog.definition? name = some d ∧ d.kind = .dictionary := by
  simp [dictionary?, Option.filter_eq_some_iff]

theorem aliased?_eq_some_iff : catalog.aliased? name = some target ↔
    ∃ d keyword type nameToken semicolon, catalog.definition? name = some d ∧
      d.form = .typedef keyword type nameToken semicolon ∧ type.named? = some target := by
  rw [aliased?, Option.bind_eq_some_iff]
  refine exists_congr fun d => ?_
  cases hform : d.form <;> simp

theorem mem_map_name_of_isSome_aliased? (h : (catalog.aliased? name).isSome = true) :
    name ∈ catalog.fragments.map (·.name) := by
  obtain ⟨target, h⟩ := Option.isSome_iff_exists.mp h
  obtain ⟨d, -, -, -, -, hd, -⟩ := aliased?_eq_some_iff.mp h
  obtain ⟨f, hf, -⟩ := Option.map_eq_some_iff.mp hd
  have hfound : f.definition.isBase = true ∧ f.name = name := by simpa using List.find?_some hf
  exact List.mem_map.mpr ⟨f, List.mem_of_find?_eq_some hf, hfound.2⟩

/-- What a type leads to is found at its name, after the names of typedefs. -/
theorem leadsTo_iff : catalog.LeadsTo type d ↔
    ∃ name, type.named? = some name ∧
      ∃ n, FoundAfter catalog.dictionary? catalog.aliased? n name d := by
  constructor
  · intro h
    induction h with
    | dictionary hname hd hkind =>
      exact ⟨_, hname, 0, .here (dictionary?_eq_some_iff.mpr ⟨hd, hkind⟩)⟩
    | @typedef type target name d d' keyword nameToken semicolon hname hd' hform _ ih =>
      obtain ⟨name', hname', n, hafter⟩ := ih
      refine ⟨name, hname, n + 1, .later ?_ ?_ hafter⟩
      · have hkind : d'.kind = .typedef := by rw [Definition.kind, hform]; rfl
        simp [dictionary?, hd', hkind]
      · exact aliased?_eq_some_iff.mpr ⟨d', _, _, _, _, hd', hform, hname'⟩
  · rintro ⟨name, hname, n, h⟩
    induction h generalizing type with
    | here hfound =>
      obtain ⟨hd, hkind⟩ := dictionary?_eq_some_iff.mp hfound
      exact .dictionary hname hd hkind
    | later _ hnext _ ih =>
      obtain ⟨d', _, target, _, _, hd', hform, htarget⟩ := aliased?_eq_some_iff.mp hnext
      exact .typedef hname hd' hform (ih htarget)

end Catalog

namespace Lint

theorem dictionaryWithin_eq (catalog : Catalog) (steps : Nat) (type : IdlType) :
    dictionaryWithin catalog steps type =
      type.named?.bind (walk catalog.dictionary? catalog.aliased? steps) := by
  induction steps generalizing type with
  | zero => cases type.named? <;> rfl
  | succ steps ih =>
    cases hname : type.named? with
    | none => simp [dictionaryWithin, hname]
    | some name =>
      cases hd : catalog.definition? name with
      | none => simp [dictionaryWithin, walk, Catalog.dictionary?, Catalog.aliased?, hname, hd]
      | some d =>
        by_cases hkind : d.kind = .dictionary
        · have hfound : catalog.dictionary? name = some d :=
            Catalog.dictionary?_eq_some_iff.mpr ⟨hd, hkind⟩
          simp [dictionaryWithin, walk, hname, hd, hkind, hfound]
        · have hnone : catalog.dictionary? name = none := by
            simp [Catalog.dictionary?, hd, Option.filter_some_neg, hkind]
          cases hform : d.form <;>
            simp [dictionaryWithin, walk, Catalog.aliased?, hname, hd, hkind, hnone, hform, ih]

/-- The dictionary behind a type is the one that the type leads to. -/
theorem dictionaryBehind?_eq_some_iff {catalog : Catalog} {type : IdlType} {d : Definition} :
    dictionaryBehind? catalog type = some d ↔ catalog.LeadsTo type d := by
  have hlength : catalog.fragments.length = (catalog.fragments.map (·.name)).length :=
    (List.length_map _).symm
  rw [dictionaryBehind?, dictionaryWithin_eq, hlength, Option.bind_eq_some_iff,
    Catalog.leadsTo_iff]
  refine exists_congr fun name => and_congr_right fun _ => ?_
  exact walk_eq_some_iff_foundAfter fun _ => Catalog.mem_map_name_of_isSome_aliased?

end Lint

end WebIdl
