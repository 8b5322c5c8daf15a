import Mathlib.Data.List.Nodup
import WebIdl.Proofs.Xref.Prefetch

/-!
# Which candidates are kept

Candidates are narrowed in two steps: to those from the cited specifications, if there are any, and
then to the first one of each address. The first step is a filter whose test looks at all candidates
(`Xref.Preferred`), so what is kept depends on which candidates there are, and not on their order or
on how often they come.

* `Xref.narrow_eq` — narrowing as a filter before the addresses are made distinct.
* `Xref.mem_urls_narrow_iff` — the addresses that are kept.
* `Xref.Narrowed` — what narrowing keeps of candidates.
* `Xref.narrow_laws` — so it is for all candidates; narrowing twice is narrowing once, and the order
  of the candidates makes no difference to the addresses and to what is recorded.
-/

namespace WebIdl.Xref

/-- The entry is from a specification that is cited, whatever the case of ASCII letters. -/
def Entry.CitedIn (specs : List String) (entry : Entry) : Prop :=
  ∃ spec ∈ specs, spec.toLower = entry.spec.toLower

instance (specs : List String) (entry : Entry) : Decidable (entry.CitedIn specs) :=
  inferInstanceAs (Decidable (∃ spec ∈ specs, _))

/-- The entry is cited, or none of the candidates is. -/
def Preferred (specs : List String) (candidates : List Entry) (entry : Entry) : Prop :=
  entry.CitedIn specs ∨ ∀ other ∈ candidates, ¬other.CitedIn specs

instance (specs : List String) (candidates : List Entry) (entry : Entry) :
    Decidable (Preferred specs candidates entry) :=
  inferInstanceAs (Decidable (_ ∨ ∀ other ∈ candidates, _))

variable {specs : List String} {candidates others : List Entry} {entry : Entry}

/-! ### Cited entries -/

theorem sameSpec_iff (a b : String) : sameSpec a b = true ↔ a.toLower = b.toLower := by
  rw [sameSpec, beq_iff_eq, ← String.toList_map, ← String.toList_map, String.toList_inj]
  exact Iff.rfl

theorem any_sameSpec_iff : specs.any (sameSpec · entry.spec) = true ↔ entry.CitedIn specs := by
  rw [List.any_eq_true]
  exact exists_congr fun spec => and_congr_right fun _ => sameSpec_iff spec entry.spec

/-- Narrowing keeps the candidates that are preferred, and of those the first of each address. -/
theorem narrow_eq (candidates : List Entry) (specs : List String) :
    narrow candidates specs = distinctUrls [] (candidates.filter (Preferred specs candidates)) := by
  have hcited : (fun entry : Entry => specs.any (sameSpec · entry.spec)) =
      fun entry => decide (entry.CitedIn specs) := by
    funext entry
    exact Bool.eq_iff_iff.mpr (any_sameSpec_iff.trans decide_eq_true_iff.symm)
  have hnarrow : narrow candidates specs =
      distinctUrls [] (if (candidates.filter (·.CitedIn specs)).isEmpty then candidates
        else candidates.filter (·.CitedIn specs)) := by
    rw [narrow, hcited]
  rw [hnarrow]
  congr 1
  by_cases hnone : ∀ other ∈ candidates, ¬other.CitedIn specs
  · have hempty : candidates.filter (·.CitedIn specs) = [] := by simpa using hnone
    rw [hempty, List.isEmpty_nil, if_pos rfl, eq_comm, List.filter_eq_self]
    intro entry _
    exact decide_eq_true (Or.inr hnone)
  · have hsome : (candidates.filter (·.CitedIn specs)).isEmpty = false := by simpa using hnone
    rw [hsome, if_neg Bool.false_ne_true]
    apply List.filter_congr
    intro entry _
    exact decide_eq_decide.mpr (or_iff_left hnone).symm

/-! ### Distinct addresses -/

section Distinct

variable (seen : List String) (entries : List Entry)

theorem distinctUrls_sublist : (distinctUrls seen entries).Sublist entries := by
  induction entries generalizing seen with
  | nil => exact .slnil
  | cons entry entries ih =>
    rw [distinctUrls]
    split
    · exact (ih seen).cons entry
    · exact (ih _).cons_cons entry

theorem mem_urls_distinctUrls_iff (url : String) :
    url ∈ (distinctUrls seen entries).map (·.url) ↔ url ∈ entries.map (·.url) ∧ url ∉ seen := by
  induction entries generalizing seen with
  | nil => simp [distinctUrls]
  | cons entry entries ih =>
    rw [distinctUrls]
    by_cases hseen : entry.url ∈ seen
    · rw [if_pos (List.contains_iff_mem.mpr hseen), ih, List.map_cons, List.mem_cons]
      constructor
      · exact fun ⟨hmem, hnew⟩ => ⟨Or.inr hmem, hnew⟩
      · rintro ⟨rfl | hmem, hnew⟩
        · exact absurd hseen hnew
        · exact ⟨hmem, hnew⟩
    · rw [if_neg (mt List.contains_iff_mem.mp hseen), List.map_cons, List.mem_cons, ih,
        List.map_cons, List.mem_cons, List.mem_cons, not_or]
      constructor
      · rintro (rfl | ⟨hmem, -, hnew⟩)
        · exact ⟨Or.inl rfl, hseen⟩
        · exact ⟨Or.inr hmem, hnew⟩
      · rintro ⟨hmem, hnew⟩
        by_cases hfirst : url = entry.url
        · exact Or.inl hfirst
        · exact Or.inr ⟨hmem.resolve_left hfirst, hfirst, hnew⟩

theorem nodup_distinctUrls : ((distinctUrls seen entries).map (·.url)).Nodup := by
  induction entries generalizing seen with
  | nil => exact List.nodup_nil
  | cons entry entries ih =>
    rw [distinctUrls]
    split
    · exact ih seen
    · rw [List.map_cons, List.nodup_cons]
      refine ⟨?_, ih _⟩
      intro hmem
      exact ((mem_urls_distinctUrls_iff _ _ _).mp hmem).2 List.mem_cons_self

/-- Entries with different addresses, of which none has been seen, are all kept. -/
theorem distinctUrls_eq_self (hnodup : (entries.map (·.url)).Nodup)
    (hnew : ∀ entry ∈ entries, entry.url ∉ seen) : distinctUrls seen entries = entries := by
  induction entries generalizing seen with
  | nil => rfl
  | cons entry entries ih =>
    rw [List.map_cons, List.nodup_cons] at hnodup
    have hfirst : entry.url ∉ seen := hnew entry List.mem_cons_self
    rw [distinctUrls, if_neg (mt List.contains_iff_mem.mp hfirst), ih _ hnodup.2]
    intro next hnext hmem
    rcases List.mem_cons.mp hmem with heq | hmem
    · exact hnodup.1 (heq ▸ List.mem_map_of_mem hnext)
    · exact hnew next (List.mem_cons_of_mem _ hnext) hmem

end Distinct

/-! ### What is kept -/

theorem narrow_sublist (candidates : List Entry) (specs : List String) :
    (narrow candidates specs).Sublist candidates := by
  rw [narrow_eq]
  exact (distinctUrls_sublist _ _).trans List.filter_sublist

theorem nodup_urls_narrow (candidates : List Entry) (specs : List String) :
    ((narrow candidates specs).map (·.url)).Nodup := by
  rw [narrow_eq]
  exact nodup_distinctUrls _ _

theorem preferred_of_mem_narrow (h : entry ∈ narrow candidates specs) :
    Preferred specs candidates entry := by
  rw [narrow_eq] at h
  exact of_decide_eq_true (List.mem_filter.mp ((distinctUrls_sublist _ _).subset h)).2

theorem mem_urls_narrow_iff {url : String} :
    url ∈ (narrow candidates specs).map (·.url) ↔
      ∃ entry ∈ candidates, Preferred specs candidates entry ∧ entry.url = url := by
  rw [narrow_eq, mem_urls_distinctUrls_iff]
  simp only [List.mem_map, List.mem_filter, decide_eq_true_eq, List.not_mem_nil, not_false_eq_true,
    and_true, and_assoc]

/-- What narrowing keeps of candidates: only some of them, with different addresses, and no address
is lost but those of entries that are not cited, where others are. -/
structure Narrowed (specs : List String) (candidates kept : List Entry) : Prop where
  sublist : kept.Sublist candidates
  nodup : (kept.map (·.url)).Nodup
  cited : (∃ entry ∈ candidates, entry.CitedIn specs) →
    (∀ entry ∈ kept, entry.CitedIn specs) ∧
      ∀ entry ∈ candidates, entry.CitedIn specs → entry.url ∈ kept.map (·.url)
  uncited : (∀ entry ∈ candidates, ¬entry.CitedIn specs) →
    ∀ entry ∈ candidates, entry.url ∈ kept.map (·.url)

theorem narrowed_narrow (candidates : List Entry) (specs : List String) :
    Narrowed specs candidates (narrow candidates specs) where
  sublist := narrow_sublist candidates specs
  nodup := nodup_urls_narrow candidates specs
  cited := by
    rintro ⟨cited, hmem, hcited⟩
    constructor
    · intro entry hentry
      exact (preferred_of_mem_narrow hentry).resolve_right fun hnone => hnone cited hmem hcited
    · intro entry hentry hcited
      exact mem_urls_narrow_iff.mpr ⟨entry, hentry, Or.inl hcited, rfl⟩
  uncited := by
    intro hnone entry hentry
    exact mem_urls_narrow_iff.mpr ⟨entry, hentry, Or.inr hnone, rfl⟩

/-! ### Narrowing again, and in another order -/

theorem narrow_narrow (candidates : List Entry) (specs : List String) :
    narrow (narrow candidates specs) specs = narrow candidates specs := by
  have hall : (narrow candidates specs).filter (Preferred specs (narrow candidates specs)) =
      narrow candidates specs := by
    rw [List.filter_eq_self]
    intro entry hentry
    apply decide_eq_true
    rcases preferred_of_mem_narrow hentry with hcited | hnone
    · exact Or.inl hcited
    · exact Or.inr fun other hother => hnone other ((narrow_sublist _ _).subset hother)
  rw [narrow_eq (narrow candidates specs), hall]
  exact distinctUrls_eq_self _ _ (nodup_urls_narrow _ _) fun _ _ => List.not_mem_nil

section SameCandidates

variable (hsame : ∀ entry, entry ∈ others ↔ entry ∈ candidates)

include hsame

theorem mem_urls_narrow_congr (url : String) :
    url ∈ (narrow others specs).map (·.url) ↔ url ∈ (narrow candidates specs).map (·.url) := by
  rw [mem_urls_narrow_iff, mem_urls_narrow_iff]
  simp only [Preferred, hsame]

theorem urls_narrow_perm :
    ((narrow others specs).map (·.url)).Perm ((narrow candidates specs).map (·.url)) :=
  (List.perm_ext_iff_of_nodup (nodup_urls_narrow _ _) (nodup_urls_narrow _ _)).mpr
    (mem_urls_narrow_congr hsame)

end SameCandidates

/-- Outcomes of one kind with the same addresses. -/
inductive Outcome.Alike : Outcome → Outcome → Prop where
  | missing : Alike .missing .missing
  | resolved {a b : Entry} (h : a.url = b.url) : Alike (.resolved a) (.resolved b)
  | ambiguous {as bs : List Entry} (h : (as.map (·.url)).Perm (bs.map (·.url))) :
      Alike (.ambiguous as) (.ambiguous bs)

theorem Outcome.alike_ofCandidates (hsame : ∀ entry, entry ∈ others ↔ entry ∈ candidates) :
    (Outcome.ofCandidates others specs).Alike (.ofCandidates candidates specs) := by
  have hperm : ((narrow others specs).map (·.url)).Perm ((narrow candidates specs).map (·.url)) :=
    urls_narrow_perm hsame
  have hlength := hperm.length_eq
  unfold Outcome.ofCandidates
  generalize narrow others specs = as at hperm hlength ⊢
  generalize narrow candidates specs = bs at hperm hlength ⊢
  match as, bs with
  | [], [] => exact .missing
  | [a], [b] =>
    rw [List.map_singleton, List.map_singleton, List.singleton_perm_singleton] at hperm
    exact .resolved hperm
  | _ :: _ :: _, _ :: _ :: _ => exact .ambiguous hperm
  | [], _ :: _ | _ :: _, [] | [_], _ :: _ :: _ | _ :: _ :: _, [_] => simp at hlength

/-- **Narrowing keeps candidates with different addresses, from the cited specifications if there
are any. Narrowing again with the same specifications changes nothing, and candidates in another
order, or some of them more than once, leave the same addresses and are recorded as an outcome of
the same kind.** -/
theorem narrow_laws (specs : List String) (candidates : List Entry) :
    Narrowed specs candidates (narrow candidates specs) ∧
      narrow (narrow candidates specs) specs = narrow candidates specs ∧
      ∀ others : List Entry, (∀ entry, entry ∈ others ↔ entry ∈ candidates) →
        (∀ url, url ∈ (narrow others specs).map (·.url) ↔
          url ∈ (narrow candidates specs).map (·.url)) ∧
        ∀ (table : Table) (term : String) (kind : ReferenceKind), ∃ a b,
          (table.record ⟨term, kind, specs⟩ others).outcome? ⟨term, kind, specs⟩ = some a ∧
          (table.record ⟨term, kind, specs⟩ candidates).outcome? ⟨term, kind, specs⟩ = some b ∧
          a.Alike b := by
  refine ⟨narrowed_narrow candidates specs, narrow_narrow candidates specs, ?_⟩
  intro others hsame
  refine ⟨mem_urls_narrow_congr hsame, ?_⟩
  intro table term kind
  have hrecord (entries : List Entry) :
      (table.record ⟨term, kind, specs⟩ entries).outcome? ⟨term, kind, specs⟩ =
        some (.ofCandidates entries specs) := by
    rw [Table.record, Table.outcome?, Table.lookup_put, if_pos rfl]
  exact ⟨_, _, hrecord others, hrecord candidates, Outcome.alike_ofCandidates hsame⟩

/-- Two candidates have one address; in the other order, with one of them repeated, the other one of
the two is kept. -/
theorem narrow_laws_reordered :
    let first : Entry := ⟨"https://a.org/#x", "A", "First", "interface"⟩
    let second : Entry := ⟨"https://a.org/#x", "a", "Second", "interface"⟩
    let third : Entry := ⟨"https://b.org/#x", "b", "Third", "interface"⟩
    (∀ entry, entry ∈ [third, second, first, second] ↔ entry ∈ [first, second, third]) ∧
      narrow [first, second, third] ["a"] = [first] ∧
      narrow [third, second, first, second] ["a"] = [second] ∧
      ∃ a b, (Table.empty.record ⟨"X", .type, ["a"]⟩ [third, second, first, second]).outcome?
          ⟨"X", .type, ["a"]⟩ = some a ∧
        (Table.empty.record ⟨"X", .type, ["a"]⟩ [first, second, third]).outcome?
          ⟨"X", .type, ["a"]⟩ = some b ∧ a.Alike b := by
  intro first second third
  have hsame (entry : Entry) :
      entry ∈ [third, second, first, second] ↔ entry ∈ [first, second, third] := by
    simp only [List.mem_cons, List.not_mem_nil, or_false]
    tauto
  have h := (narrow_laws ["a"] [first, second, third]).2.2 [third, second, first, second] hsame
  exact ⟨hsame, by decide +kernel, by decide +kernel, h.2 .empty "X" .type⟩

end WebIdl.Xref
