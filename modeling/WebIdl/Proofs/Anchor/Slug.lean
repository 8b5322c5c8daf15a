import WebIdl.Anchor.Slug

/-!
# When generated ids agree

A slug holds slug characters and hyphens, so the mark that starts the suffix of an overload never
occurs before the suffix, and two ids of members agree exactly when their numbers agree and the
slugs of container and member, joined by a hyphen, are the same text (`memberName_inj`,
`memberWrapper_inj`). That does not make the slugs themselves the same.
-/

namespace WebIdl.Anchor

/-- The slugs of a container and a member as they stand in an id. -/
def joined (key : String × String) : String := key.1 ++ "-" ++ key.2

theorem memberName_eq (container member : String) (overload : Nat) :
    memberName container member overload =
      "dom-" ++ (joined (slug container, memberSlug member) ++ overloadSuffix overload) := by
  simp [memberName, joined, String.append_assoc]

theorem memberWrapper_eq (container member : String) (overload : Nat) :
    memberWrapper container member overload =
      "idl-def-" ++ (joined (slug container, memberSlug member) ++ overloadSuffix overload) := by
  simp [memberWrapper, joined, String.append_assoc]

/-! ### The characters of slugs -/

theorem mem_intercalate {sep : String} {parts : List String} {c : Char}
    (h : c ∈ (sep.intercalate parts).toList) :
    c ∈ sep.toList ∨ ∃ part ∈ parts, c ∈ part.toList := by
  induction parts with
  | nil => simp at h
  | cons part parts ih =>
    cases parts with
    | nil =>
      rw [String.intercalate_singleton] at h
      exact .inr ⟨part, List.mem_singleton_self part, h⟩
    | cons next parts =>
      rw [String.intercalate_cons_cons, String.toList_append, String.toList_append,
        List.mem_append, List.mem_append] at h
      rcases h with (h | h) | h
      · exact .inr ⟨part, List.mem_cons_self, h⟩
      · exact .inl h
      · rcases ih h with h | ⟨p, hp, hc⟩
        · exact .inl h
        · exact .inr ⟨p, List.mem_cons_of_mem _ hp, hc⟩

theorem mem_slug {name : String} {c : Char} (h : c ∈ (slug name).toList) :
    isSlugChar c = true ∨ c = '-' := by
  rcases mem_intercalate h with h | ⟨part, hpart, hc⟩
  · exact .inr (by simpa using h)
  · obtain ⟨run, hrun, rfl⟩ := List.mem_map.mp hpart
    have hall : run.all isSlugChar = true := (List.mem_filter.mp hrun).2
    exact .inl (List.all_eq_true.mp hall c (by simpa using hc))

theorem not_mem_slug (name : String) : '!' ∉ (slug name).toList := by
  intro h
  rcases mem_slug h with h | h
  · revert h
    decide
  · revert h
    decide

theorem not_mem_memberSlug (name : String) : '!' ∉ (memberSlug name).toList := by
  unfold memberSlug
  dsimp only
  split
  · decide
  · exact not_mem_slug name

theorem not_mem_joined (container member : String) :
    '!' ∉ (joined (slug container, memberSlug member)).toList := by
  simp [joined, not_mem_slug, not_mem_memberSlug]

/-! ### The suffixes of overloads -/

theorem overloadSuffix_injective {n k : Nat} (h : overloadSuffix n = overloadSuffix k) :
    n = k := by
  have hdigits {n k : Nat} (h : toString n = toString k) : n = k := by
    have := congrArg (fun s => Nat.ofDigitChars 10 s.toList 0) h
    simpa using this
  cases n with
  | zero =>
    cases k with
    | zero => rfl
    | succ k => simp [overloadSuffix] at h
  | succ n =>
    cases k with
    | zero => simp [overloadSuffix] at h
    | succ k => exact hdigits (String.append_right_inj _ |>.mp h)

/-- Up to the mark, a text with a suffix is the text. -/
theorem takeWhile_append_overloadSuffix {s : String} (hs : '!' ∉ s.toList) (n : Nat) :
    (s ++ overloadSuffix n).toList.takeWhile (· != '!') = s.toList := by
  have hall : ∀ c ∈ s.toList, (c != '!') = true := by
    intro c hc
    rw [bne_iff_ne]
    rintro rfl
    exact hs hc
  rw [String.toList_append, List.takeWhile_append_of_pos hall]
  cases n <;> simp [overloadSuffix]

theorem append_overloadSuffix_inj {s t : String} {n k : Nat} (hs : '!' ∉ s.toList)
    (ht : '!' ∉ t.toList) :
    s ++ overloadSuffix n = t ++ overloadSuffix k ↔ s = t ∧ n = k := by
  constructor
  · intro h
    have hst : s = t := by
      rw [← String.toList_inj, ← takeWhile_append_overloadSuffix hs n, h,
        takeWhile_append_overloadSuffix ht k]
    subst hst
    exact ⟨rfl, overloadSuffix_injective (String.append_right_inj _ |>.mp h)⟩
  · rintro ⟨rfl, rfl⟩
    rfl

/-! ### Ids -/

theorem memberName_inj {c c' m m' : String} {n k : Nat} :
    memberName c m n = memberName c' m' k ↔
      joined (slug c, memberSlug m) = joined (slug c', memberSlug m') ∧ n = k := by
  rw [memberName_eq, memberName_eq, String.append_right_inj,
    append_overloadSuffix_inj (not_mem_joined c m) (not_mem_joined c' m')]

theorem memberWrapper_inj {c c' m m' : String} {n k : Nat} :
    memberWrapper c m n = memberWrapper c' m' k ↔
      joined (slug c, memberSlug m) = joined (slug c', memberSlug m') ∧ n = k := by
  rw [memberWrapper_eq, memberWrapper_eq, String.append_right_inj,
    append_overloadSuffix_inj (not_mem_joined c m) (not_mem_joined c' m')]

/-- A definition and a member get the same id where the definition has a name like a container and
a member in a row. -/
theorem definitionName_eq_memberName {d c m : String} {n : Nat} :
    definitionName d = memberName c m n ↔ slug d = joined (slug c, memberSlug m) ∧ n = 0 := by
  have hd : definitionName d = "dom-" ++ (slug d ++ overloadSuffix 0) := by
    simp [definitionName, overloadSuffix]
  rw [hd, memberName_eq, String.append_right_inj,
    append_overloadSuffix_inj (not_mem_slug d) (not_mem_joined c m), eq_comm (a := 0)]

theorem definitionWrapper_eq_memberWrapper {d c m : String} {n : Nat} :
    definitionWrapper d = memberWrapper c m n ↔
      slug d = joined (slug c, memberSlug m) ∧ n = 0 := by
  have hd : definitionWrapper d = "idl-def-" ++ (slug d ++ overloadSuffix 0) := by
    simp [definitionWrapper, overloadSuffix]
  rw [hd, memberWrapper_eq, String.append_right_inj,
    append_overloadSuffix_inj (not_mem_slug d) (not_mem_joined c m), eq_comm (a := 0)]

theorem definitionName_inj {d d' : String} :
    definitionName d = definitionName d' ↔ slug d = slug d' :=
  String.append_right_inj _

theorem definitionWrapper_inj {d d' : String} :
    definitionWrapper d = definitionWrapper d' ↔ slug d = slug d' :=
  String.append_right_inj _

/-- No id of a name is one of an element around what has the name. -/
theorem dom_ne_idlDef (s t : String) : "dom-" ++ s ≠ "idl-def-" ++ t := by
  intro h
  have hhead := congrArg (·.toList.head?) h
  simp at hhead

theorem memberName_ne_memberWrapper {c c' m m' : String} {n k : Nat} :
    memberName c m n ≠ memberWrapper c' m' k := by
  rw [memberName_eq, memberWrapper_eq]
  exact dom_ne_idlDef _ _

theorem definitionName_ne_memberWrapper {d c m : String} {n : Nat} :
    definitionName d ≠ memberWrapper c m n := by
  rw [definitionName, memberWrapper_eq]
  exact dom_ne_idlDef _ _

theorem memberName_ne_definitionWrapper {d c m : String} {n : Nat} :
    memberName c m n ≠ definitionWrapper d := by
  rw [memberName_eq, definitionWrapper]
  exact dom_ne_idlDef _ _

theorem definitionName_ne_definitionWrapper {d d' : String} :
    definitionName d ≠ definitionWrapper d' :=
  dom_ne_idlDef _ _

/-- With one member slug, the ids agree if the container slugs do. -/
theorem joined_left_inj {a b m : String} : joined (a, m) = joined (b, m) ↔ a = b := by
  simp only [joined]
  rw [String.append_left_inj, String.append_left_inj]

end WebIdl.Anchor
