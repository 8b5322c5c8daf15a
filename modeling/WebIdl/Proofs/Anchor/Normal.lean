import Mathlib.Data.List.SplitBy
import WebIdl.Proofs.Anchor.Slug

/-!
# Slugs are a normal form

Whatever the name, its slug is made of groups of slug characters with single hyphens between them,
and a text of that form is its own slug. Nothing else is left to change in it: no underscore is
before it, lower case leaves its characters alone, and its runs are the groups and the hyphens.

* `Anchor.Slugged` — the form of slugs.
* `Anchor.slugged_slug`, `Anchor.Slugged.slug_eq` — slugs have it, and what has it is its own slug.
* `Anchor.slug_normal` — both, and that the ids of two members agree only where their numbers and
  the ids without the numbers do.
-/

namespace WebIdl

/-! ### Lower case of ASCII -/

namespace Text

/-- Lower case leaves alone what has no capital letter and nothing outside of ASCII. -/
theorem lowerChars_eq_self {cs : List Char} (h : ∀ c ∈ cs, c.toNat < 0x80 ∧ c.toLower = c) :
    lowerChars cs = cs := by
  suffices hafter : ∀ before, lowerAfter before cs = cs from hafter []
  induction cs with
  | nil => exact fun _ => rfl
  | cons c cs ih =>
    intro before
    obtain ⟨hascii, hlower⟩ := h c List.mem_cons_self
    have hsigma : c.toNat ≠ 0x3A3 := by omega
    rw [lowerAfter, if_neg hsigma, lowerChar, if_pos hascii, hlower,
      ih fun c hc => h c (List.mem_cons_of_mem _ hc)]
    rfl

end Text

namespace Anchor

variable {name s : String} {c : Char}

/-! ### The form of slugs -/

/-- A text of nothing, or of groups of small letters and digits with single hyphens between them. -/
def Slugged (s : String) : Prop :=
  s = "" ∨ ∃ groups : List String, groups ≠ [] ∧ s = "-".intercalate groups ∧
    ∀ group ∈ groups, group ≠ "" ∧
      ∀ c ∈ group.toList, 'a' ≤ c ∧ c ≤ 'z' ∨ '0' ≤ c ∧ c ≤ '9'

theorem isSlugChar_iff : isSlugChar c = true ↔ 'a' ≤ c ∧ c ≤ 'z' ∨ '0' ≤ c ∧ c ≤ '9' := by
  simp [isSlugChar, Char.isDigit, or_comm, Char.le_def]

/-- Groups of slug characters. -/
def Grouped (groups : List (List Char)) : Prop :=
  ∀ group ∈ groups, group ≠ [] ∧ group.all isSlugChar = true

theorem slugged_iff :
    Slugged s ↔ ∃ groups, Grouped groups ∧ s.toList = ['-'].intercalate groups := by
  constructor
  · rintro (rfl | ⟨groups, -, rfl, hgroups⟩)
    · exact ⟨[], nofun, rfl⟩
    · refine ⟨groups.map String.toList, ?_, String.toList_intercalate⟩
      intro group hgroup
      obtain ⟨group, hmem, rfl⟩ := List.mem_map.mp hgroup
      obtain ⟨hne, hchars⟩ := hgroups group hmem
      refine ⟨by simpa using hne, List.all_eq_true.mpr ?_⟩
      exact fun c hc => isSlugChar_iff.mpr (hchars c hc)
  · rintro ⟨groups, hgroups, hs⟩
    cases groups with
    | nil => exact .inl (by simpa using hs)
    | cons group groups =>
      refine .inr ⟨(group :: groups).map String.ofList, by simp, ?_, ?_⟩
      · rw [← String.toList_inj, hs, String.toList_intercalate, List.map_map]
        simp [Function.comp_def]
      · intro text htext
        obtain ⟨group, hmem, rfl⟩ := List.mem_map.mp htext
        obtain ⟨hne, hall⟩ := hgroups group hmem
        refine ⟨by simpa using hne, fun c hc => isSlugChar_iff.mp ?_⟩
        exact List.all_eq_true.mp hall c (by simpa using hc)

theorem toList_slug (name : String) :
    (slug name).toList =
      ['-'].intercalate (slugWords (Text.lowerChars (unescape name).toList)) := by
  rw [slug, String.toList_intercalate, List.map_map]
  simp [Function.comp_def]

theorem grouped_slugWords (cs : List Char) : Grouped (slugWords cs) := by
  intro group hgroup
  obtain ⟨hmem, hall⟩ := List.mem_filter.mp hgroup
  exact ⟨List.ne_nil_of_mem_splitBy hmem, hall⟩

theorem slugged_slug (name : String) : Slugged (slug name) :=
  slugged_iff.mpr ⟨_, grouped_slugWords _, toList_slug name⟩

/-! ### What has the form is its own slug -/

/-- Words are found on both sides of a change between slug characters and others. -/
theorem slugWords_append_cons {cs : List Char} (rest : List Char)
    (h : ∀ last ∈ cs.getLast?, isSlugChar last ≠ isSlugChar c) :
    slugWords (cs ++ c :: rest) = slugWords cs ++ slugWords (c :: rest) := by
  rw [slugWords, List.splitBy_append_cons, List.filter_append]
  · rfl
  · intro last hlast
    simpa using h last hlast

theorem slugWords_of_all {group : List Char} (hne : group ≠ []) (h : group.all isSlugChar = true) :
    slugWords group = [group] := by
  have hchain : group.IsChain fun a b => (isSlugChar a == isSlugChar b) = true := by
    apply List.Pairwise.isChain
    apply List.pairwise_of_forall_mem_list
    intro a ha b hb
    rw [List.all_eq_true.mp h a ha, List.all_eq_true.mp h b hb]
    rfl
  rw [slugWords, List.splitBy_of_isChain hne hchain]
  simp only [List.filter_cons, h, if_true, List.filter_nil]

theorem exists_cons_of_grouped {group : List Char} {groups : List (List Char)}
    (h : Grouped (group :: groups)) :
    ∃ c rest, ['-'].intercalate (group :: groups) = c :: rest ∧ isSlugChar c = true := by
  obtain ⟨hne, hall⟩ := h group List.mem_cons_self
  obtain ⟨c, group, rfl⟩ := List.exists_cons_of_ne_nil hne
  have hfirst := List.all_eq_true.mp hall c List.mem_cons_self
  cases groups with
  | nil => exact ⟨c, group, by rw [List.intercalate_singleton], hfirst⟩
  | cons next groups => exact ⟨c, _, by rw [List.intercalate_cons_cons]; rfl, hfirst⟩

theorem slugWords_intercalate {groups : List (List Char)} (h : Grouped groups) :
    slugWords (['-'].intercalate groups) = groups := by
  have hhyphen : isSlugChar '-' = false := by decide
  induction groups with
  | nil => rfl
  | cons group groups ih =>
    obtain ⟨hne, hall⟩ := h group List.mem_cons_self
    cases groups with
    | nil =>
      rw [List.intercalate_singleton]
      exact slugWords_of_all hne hall
    | cons next groups =>
      have hgroups : Grouped (next :: groups) := fun g hg => h g (List.mem_cons_of_mem _ hg)
      have hrest : slugWords (['-'].intercalate (next :: groups)) = next :: groups := ih hgroups
      -- the next group starts with a slug character, so the hyphen is a run of its own
      obtain ⟨c, rest, hc⟩ := exists_cons_of_grouped hgroups
      rw [List.intercalate_cons_cons, List.append_assoc, List.singleton_append, hc.1]
      rw [slugWords_append_cons, slugWords_of_all hne hall]
      · have hsplit : slugWords (['-'] ++ c :: rest) = slugWords ['-'] ++ slugWords (c :: rest) :=
          slugWords_append_cons rest (by simp [hhyphen, hc.2])
        rw [List.singleton_append] at hsplit
        have hnone : slugWords ['-'] = [] := by decide
        rw [hsplit, hnone, ← hc.1, hrest]
        rfl
      · intro last hlast
        rw [List.all_eq_true.mp hall last (List.mem_of_getLast? hlast), hhyphen]
        decide

/-- The characters of slugs are in small letters, and no underscore is among them. -/
theorem Slugged.mem (h : Slugged s) (hc : c ∈ s.toList) : isSlugChar c = true ∨ c = '-' := by
  rcases h with rfl | ⟨groups, -, rfl, hgroups⟩
  · cases hc
  · rcases mem_intercalate hc with hmem | ⟨group, hgroup, hmem⟩
    · exact .inr (by simpa using hmem)
    · exact .inl (isSlugChar_iff.mpr ((hgroups group hgroup).2 c hmem))

theorem Slugged.unescape_eq (h : Slugged s) : unescape s = s := by
  unfold unescape
  split
  · rename_i cs hs
    have hmem : '_' ∈ s.toList := by rw [hs]; exact List.mem_cons_self
    rcases h.mem hmem with hchar | heq
    · exact absurd hchar (by decide)
    · exact absurd heq (by decide)
  · rfl

/-- Slug characters are in ASCII and no capital letters. -/
theorem toLower_eq_of_isSlugChar (h : isSlugChar c = true) : c.toNat < 0x80 ∧ c.toLower = c := by
  have hrange : 97 ≤ c.toNat ∧ c.toNat ≤ 122 ∨ 48 ≤ c.toNat ∧ c.toNat ≤ 57 := isSlugChar_iff.mp h
  refine ⟨by omega, dif_neg ?_⟩
  rintro ⟨hlow, hhigh⟩
  have hcapital : 65 ≤ c.toNat ∧ c.toNat ≤ 90 := ⟨hlow, hhigh⟩
  omega

theorem Slugged.lowerChars_eq (h : Slugged s) : Text.lowerChars s.toList = s.toList := by
  apply Text.lowerChars_eq_self
  intro c hc
  rcases h.mem hc with hchar | rfl
  · exact toLower_eq_of_isSlugChar hchar
  · decide

/-- **A text that has the form of a slug is its own slug.** -/
theorem Slugged.slug_eq (h : Slugged s) : slug s = s := by
  obtain ⟨groups, hgroups, hs⟩ := slugged_iff.mp h
  rw [← String.toList_inj, toList_slug, h.unescape_eq, h.lowerChars_eq, hs,
    slugWords_intercalate hgroups]

theorem slugged_iff_slug_eq : Slugged s ↔ slug s = s :=
  ⟨Slugged.slug_eq, fun h => h ▸ slugged_slug s⟩

/-! ### Overloads -/

/-- An id is the one without a number, and the suffix of the number. -/
theorem memberName_eq_append (container member : String) (overload : Nat) :
    memberName container member overload =
      memberName container member 0 ++ overloadSuffix overload := by
  simp [memberName, overloadSuffix, String.append_assoc]

/-- **Slugs are a normal form, and no name imitates the suffix of an overload.** Ids without their
suffixes are those of number 0. -/
theorem slug_normal :
    (∀ name, Slugged (slug name) ∧ slug (slug name) = slug name) ∧
    (∀ s, Slugged s ↔ slug s = s) ∧
    (∀ container member overload, memberName container member overload =
      memberName container member 0 ++ overloadSuffix overload) ∧
    ∀ container member overload container' member' overload',
      memberName container member overload = memberName container' member' overload' ↔
        overload = overload' ∧ memberName container member 0 = memberName container' member' 0 := by
  refine ⟨fun name => ⟨slugged_slug name, (slugged_slug name).slug_eq⟩,
    fun s => slugged_iff_slug_eq, memberName_eq_append, ?_⟩
  intro c m n c' m' n'
  rw [memberName_inj, memberName_inj]
  tauto

end Anchor

end WebIdl
