import WebIdl.Lint.Rules
import WebIdl.Proofs.Catalog.Merged

/-!
# Members that are declared again

The constants and the fields in the merged view of a container should all have other names. The check
goes through the containers that have a definition that is not partial, each once, and remembers the
names that it has seen.

* `Lint.repeated` — the members of a list that repeat an earlier one, by their places in the list;
  `Lint.repeats_eq_repeated` says that remembering the names finds the same.
* `Lint.duplicateMembers_iff` — the findings are the repeated members of the containers that are not
  only extended, and these are all there are exactly when nothing is repeated where there are partial
  definitions only.
* `Lint.not_duplicateMembers_complete` — a field that two partial definitions declare.
-/

namespace WebIdl

/-- The members of a merged view, each with the block in which it stands. -/
def Catalog.blockMembers (catalog : Catalog) (name : String) (family : Definition.Family) :
    List (Nat × Member) :=
  (catalog.merged name family).flatMap fun part => part.definition.members.map (part.block, ·)

theorem Catalog.map_snd_blockMembers (catalog : Catalog) (name : String)
    (family : Definition.Family) :
    (catalog.blockMembers name family).map (·.2) = catalog.mergedMembers name family := by
  simp [blockMembers, mergedMembers, List.map_flatMap, Function.comp_def]

namespace Lint

/-! ### Repetitions in a list -/

/-- A constant or a field, by its block and its name. -/
def countedAs? (member : Nat × Member) : Option (Nat × String) :=
  (countedName? member.2).map (member.1, ·)

/-- The names of the constants and the fields among some members. -/
def countedNames (members : List (Nat × Member)) : List String :=
  (members.filterMap countedAs?).map (·.2)

/-- The constants and the fields whose name an earlier one in the list has, by their blocks and
names. -/
def repeated (members : List (Nat × Member)) : List (Nat × String) :=
  members.zipIdx.filterMap fun (member, i) =>
    (countedAs? member).filter fun entry => entry.2 ∈ countedNames (members.take i)

theorem counted_eq (catalog : Catalog) (name : String) (family : Definition.Family) :
    counted catalog name family = (catalog.blockMembers name family).filterMap countedAs? := by
  simp only [counted, Catalog.blockMembers, List.filterMap_flatMap, List.filterMap_map]
  rfl

theorem countedNames_concat (members : List (Nat × Member)) (member : Nat × Member) :
    countedNames (members ++ [member]) =
      countedNames members ++ ((countedAs? member).map (·.2)).toList := by
  cases hentry : countedAs? member <;> simp [countedNames, hentry]

/-- With the names seen that stand before the rest of a list, the repetitions that are found in the
rest are those of the whole list. -/
theorem repeats_eq (before rest : List (Nat × Member)) {seen : List String}
    (hseen : ∀ name, name ∈ seen ↔ name ∈ countedNames before) :
    repeats seen (rest.filterMap countedAs?) =
      (rest.zipIdx before.length).filterMap fun (member, i) =>
        (countedAs? member).filter fun entry =>
          entry.2 ∈ countedNames ((before ++ rest).take i) := by
  induction rest generalizing before seen with
  | nil => rfl
  | cons member rest ih =>
    have hnext (seen' : List String)
        (hseen' : ∀ name, name ∈ seen' ↔
          name ∈ seen ∨ name ∈ ((countedAs? member).map (·.2)).toList) :
        repeats seen' (rest.filterMap countedAs?) =
          (rest.zipIdx (before.length + 1)).filterMap fun (member', i) =>
            (countedAs? member').filter fun entry =>
              entry.2 ∈ countedNames ((before ++ member :: rest).take i) := by
      have hall (name : String) : name ∈ seen' ↔ name ∈ countedNames (before ++ [member]) := by
        rw [hseen', hseen, countedNames_concat, List.mem_append]
      have h := ih (before ++ [member]) hall
      rwa [List.append_assoc, List.singleton_append, List.length_append, List.length_singleton] at h
    rw [List.zipIdx_cons, List.filterMap_cons, List.filterMap_cons]
    dsimp only
    rw [List.take_left]
    cases hentry : countedAs? member with
    | none =>
      rw [← hnext seen (by simp [hentry])]
      rfl
    | some entry =>
      by_cases hname : entry.2 ∈ seen
      · rw [← hnext seen (by simp [hentry, hname]),
          Option.filter_some_pos (by simpa using (hseen entry.2).mp hname)]
        simp [repeats, hname]
      · rw [← hnext (entry.2 :: seen) (by simp [hentry, or_comm]),
          Option.filter_some_neg (by simpa using mt (hseen entry.2).mpr hname)]
        simp [repeats, hname]

/-- The names that have been seen tell the repeated members. -/
theorem repeats_eq_repeated (members : List (Nat × Member)) :
    repeats [] (members.filterMap countedAs?) = repeated members :=
  repeats_eq [] members (by simp [countedNames])

/-! ### Containers -/

/-- The names and the families that a definition of a catalog has, partial or not, each once. -/
def namedContainers (catalog : Catalog) : List (String × Definition.Family) :=
  (catalog.fragments.filterMap fun f => f.definition.family.map (f.name, ·)).eraseDups

/-- What is found in a container: one finding for each member that repeats an earlier one in the merged
view, in the block of that member. -/
def repeatFindings (catalog : Catalog) (container : String × Definition.Family) : List Finding :=
  (repeated (catalog.blockMembers container.1 container.2)).map fun (block, name) =>
    .error block "duplicate-member"
      ("`" ++ container.1 ++ "` declares member `" ++ name ++ "` more than once.") (some name)

variable {catalog : Catalog} {name : String} {family : Definition.Family}

theorem nodup_namedContainers (catalog : Catalog) : (namedContainers catalog).Nodup :=
  nodup_eraseDups _

theorem nodup_containers (catalog : Catalog) : (containers catalog).Nodup :=
  nodup_eraseDups _

theorem mem_namedContainers_iff : (name, family) ∈ namedContainers catalog ↔
    ∃ f ∈ catalog.fragments, f.name = name ∧ f.definition.family = some family := by
  simp [namedContainers, and_comm]

/-- The containers that are checked are those with a base. -/
theorem mem_containers_iff : (name, family) ∈ containers catalog ↔
    (name, family) ∈ namedContainers catalog ∧
      (catalog.base? name (some family)).isSome = true := by
  have hchecked : (name, family) ∈ containers catalog ↔
      ∃ f ∈ catalog.fragments, f.name = name ∧ f.definition.family = some family ∧
        f.definition.isPartial = false := by
    rw [containers, List.mem_eraseDups, List.mem_filterMap]
    refine exists_congr fun f => and_congr_right fun _ => ?_
    cases f.definition.family with
    | none => simp
    | some family' => cases f.definition.isPartial <;> simp
  rw [hchecked, mem_namedContainers_iff, Catalog.isSome_base?_iff]
  constructor
  · rintro ⟨f, hf, hname, hfamily, hpartial⟩
    exact ⟨⟨f, hf, hname, hfamily⟩, f, hf, hname, hfamily, hpartial⟩
  · exact fun h => h.2

/-- The containers that are named are those that are checked and those without a base. -/
theorem containers_append_perm (catalog : Catalog) :
    (containers catalog ++ (namedContainers catalog).filter
      fun container => (catalog.base? container.1 (some container.2)).isNone).Perm
        (namedContainers catalog) := by
  have hchecked : (containers catalog).Perm ((namedContainers catalog).filter
      fun container => (catalog.base? container.1 (some container.2)).isSome) := by
    rw [List.perm_ext_iff_of_nodup (nodup_containers catalog)
      ((nodup_namedContainers catalog).filter _)]
    rintro ⟨name, family⟩
    rw [mem_containers_iff, List.mem_filter]
  refine (hchecked.append_right _).trans ?_
  simpa using List.filter_append_perm
    (fun container => (catalog.base? container.1 (some container.2)).isSome)
    (namedContainers catalog)

/-! ### Findings -/

theorem duplicateMembers_eq (catalog : Catalog) :
    duplicateMembers catalog = (containers catalog).flatMap (repeatFindings catalog) := by
  simp only [duplicateMembers, counted_eq, repeats_eq_repeated]
  rfl

/-- All findings are there exactly when none are in the containers that are not checked. -/
theorem duplicateMembers_perm_iff (catalog : Catalog) :
    (duplicateMembers catalog).Perm
        ((namedContainers catalog).flatMap (repeatFindings catalog)) ↔
      ∀ name family, (name, family) ∈ namedContainers catalog →
        catalog.base? name (some family) = none →
          repeatFindings catalog (name, family) = [] := by
  have hall := (containers_append_perm catalog).flatMap_right (repeatFindings catalog)
  rw [List.flatMap_append, ← duplicateMembers_eq] at hall
  have hrest : ((namedContainers catalog).filter fun container =>
        (catalog.base? container.1 (some container.2)).isNone).flatMap (repeatFindings catalog) = [] ↔
      ∀ name family, (name, family) ∈ namedContainers catalog →
        catalog.base? name (some family) = none →
          repeatFindings catalog (name, family) = [] := by
    simp [List.flatMap_eq_nil_iff]
  rw [← hrest, ← List.length_eq_zero_iff]
  constructor
  · intro hperm
    have hlength := (hperm.trans hall.symm).length_eq
    rw [List.length_append] at hlength
    omega
  · intro hnone
    rw [List.length_eq_zero_iff] at hnone
    rw [hnone, List.append_nil] at hall
    exact hall

/-- **Each container that has a base is checked once, and what is found in it are the constants and the
fields of its merged view that an earlier one precedes in name. This is all that is repeated anywhere
exactly when nothing is repeated in the containers that only partial definitions are known of.** -/
theorem duplicateMembers_iff (catalog : Catalog) :
    (∀ name family, (catalog.blockMembers name family).map (·.2) =
        catalog.mergedMembers name family) ∧
      (containers catalog).Nodup ∧
      (∀ name family, (name, family) ∈ containers catalog ↔
        (name, family) ∈ namedContainers catalog ∧
          (catalog.base? name (some family)).isSome = true) ∧
      duplicateMembers catalog = (containers catalog).flatMap (repeatFindings catalog) ∧
      ((duplicateMembers catalog).Perm
          ((namedContainers catalog).flatMap (repeatFindings catalog)) ↔
        ∀ name family, (name, family) ∈ namedContainers catalog →
          catalog.base? name (some family) = none →
            repeatFindings catalog (name, family) = []) :=
  ⟨catalog.map_snd_blockMembers, nodup_containers catalog, fun _ _ => mem_containers_iff,
    duplicateMembers_eq catalog, duplicateMembers_perm_iff catalog⟩

/-! ### A dictionary that is only extended -/

/-- Two partial definitions of a dictionary declare one field. -/
def extendedTwice : List (Nat × List Definition) :=
  Catalog.registrations
    ["partial dictionary D \x7b long x; \x7d;", "partial dictionary D \x7b long x; \x7d;"]

/-- The field is repeated in the merged view of the dictionary, and nothing is found. -/
theorem not_duplicateMembers_complete :
    let catalog := Catalog.ofRegistrations extendedTwice
    ("D", .dictionary) ∈ namedContainers catalog ∧
      repeatFindings catalog ("D", .dictionary) =
        [.error 1 "duplicate-member" "`D` declares member `x` more than once." (some "x")] ∧
      duplicateMembers catalog = [] := by
  decide +kernel

end Lint

end WebIdl
