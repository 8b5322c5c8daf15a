import Mathlib.Data.List.Nodup
import Mathlib.Logic.Relation
import WebIdl.Proofs.Distinct
import WebIdl.Proofs.Xref.Prefetch

/-!
# Lookups that settle in any order

The lookups of a document are under way at the same time, and each is recorded when it settles. All
that the order decides is the order of the records. A step (`Gathering.Step`) records one of the
lookups that are pending, whichever; a run ends when none is left.

* `Gathering.Balanced` — what is recorded and what is still pending make up what was asked for.
* `Gathering.Balanced.step`, `Gathering.Balanced.run` — a step keeps the balance, and so does a run.
* `Settled` — a table in which every distinct query has been recorded, in some order.
* `settled_of_perm` — every order of the distinct queries is that of a run, and `prefetch` takes one.
* `Settled.outcome?_eq`, `Settled.mem_failures_iff` — what such a table holds.
* `Settled.ambiguities_eq` — the ambiguous queries come in their own order.
-/

namespace WebIdl.Xref

/-- The error that a query fails with, if it does; the limit is in microseconds. -/
def Provider.failure? (provider : Provider) (limit : Nat) (query : Query) : Option Error :=
  match provider query with
  | .candidates _ => none
  | .failed error => some error
  | .silent => some (.timeout limit)

/-- The record of a query that has settled. -/
def Provider.answered (provider : Provider) (query : Query) : Query × Outcome :=
  (query, provider.outcome query)

/-- The record of a query that has failed. -/
def Provider.failed? (provider : Provider) (limit : Nat) (query : Query) : Option (Query × Error) :=
  (provider.failure? limit query).map (query, ·)

variable {provider : Provider} {limit : Nat} {queries queries' asked : List Query}
  {table table' : Table}

/-! ### Steps -/

/-- Lookups that have been started: the queries that have not settled, and what is recorded. -/
structure Gathering where
  pending : List Query
  table : Table

namespace Gathering

/-- All distinct queries are started together. -/
def start (queries : List Query) : Gathering := ⟨queries.eraseDups, .empty⟩

/-- Any of the pending lookups may be the next to settle. -/
inductive Step (provider : Provider) (limit : Nat) : Gathering → Gathering → Prop where
  | settles {pending : List Query} {table : Table} {query : Query} (h : query ∈ pending) :
      Step provider limit ⟨pending, table⟩
        ⟨pending.erase query, settle provider limit table query⟩

abbrev Run (provider : Provider) (limit : Nat) : Gathering → Gathering → Prop :=
  Relation.ReflTransGen (Step provider limit)

/-- Of the queries that were asked, each is either pending or recorded, once. -/
structure Balanced (provider : Provider) (limit : Nat) (asked : List Query) (g : Gathering) :
    Prop where
  outcomes : (g.pending.map provider.answered ++ g.table.outcomes).Perm
    (asked.map provider.answered)
  failures : (g.pending.filterMap (provider.failed? limit) ++ g.table.failures).Perm
    (asked.filterMap (provider.failed? limit))

end Gathering

/-! ### What a step records -/

theorem Table.put_of_not_mem {query : Query} {outcome : Outcome} {outcomes : List (Query × Outcome)}
    (h : query ∉ outcomes.map (·.1)) : put query outcome outcomes = outcomes ++ [(query, outcome)] := by
  induction outcomes with
  | nil => rfl
  | cons first outcomes ih =>
    obtain ⟨q, o⟩ := first
    rw [List.map_cons, List.mem_cons, not_or] at h
    rw [put, if_neg (Ne.symm h.1), ih h.2, List.cons_append]

/-- A lookup puts one outcome into the table, and a failure if it has failed. -/
theorem settle_eq (table : Table) (query : Query) :
    settle provider limit table query =
      ⟨Table.put query (provider.outcome query) table.outcomes,
        table.failures ++ (provider.failed? limit query).toList⟩ := by
  unfold settle Provider.outcome Provider.failed? Provider.failure?
  cases provider query with
  | candidates entries => simp [Table.record]
  | failed error => rfl
  | silent => rfl

@[simp] theorem map_answered (queries : List Query) :
    (queries.map provider.answered).map (·.1) = queries := by
  rw [List.map_map]
  exact List.map_id queries

namespace Gathering

variable {g g' : Gathering}

theorem balanced_start (queries : List Query) :
    Balanced provider limit queries.eraseDups (start queries) := by
  constructor
  · simp [start, Table.empty]
  · simp [start, Table.empty]

/-- A query that is pending has not been recorded. -/
theorem Balanced.not_mem (hasked : asked.Nodup) (h : Balanced provider limit asked g)
    {query : Query} (hquery : query ∈ g.pending) : query ∉ g.table.outcomes.map (·.1) := by
  have hkeys := h.outcomes.map (·.1)
  rw [List.map_append, map_answered, map_answered] at hkeys
  have hnodup := hkeys.nodup_iff.mpr hasked
  exact List.disjoint_of_nodup_append hnodup hquery

/-- What is recorded of a query moves from the pending queries to the records. -/
theorem perm_settles {α : Type} (record : Query → Option α) {pending : List Query} {query : Query}
    (hquery : query ∈ pending) (recorded : List α) :
    ((pending.erase query).filterMap record ++ (recorded ++ (record query).toList)).Perm
      (pending.filterMap record ++ recorded) :=
  calc (pending.erase query).filterMap record ++ (recorded ++ (record query).toList)
      = ((pending.erase query).filterMap record ++ recorded) ++ (record query).toList :=
        (List.append_assoc ..).symm
    List.Perm _ ((record query).toList ++ ((pending.erase query).filterMap record ++ recorded)) :=
      List.perm_append_comm
    _ = (query :: pending.erase query).filterMap record ++ recorded := by
      cases hrecord : record query <;> simp [hrecord]
    List.Perm _ (pending.filterMap record ++ recorded) :=
      ((List.perm_cons_erase hquery).symm.filterMap record).append_right recorded

/-- **A step keeps the balance**: it takes one query from those that are pending and records it. -/
theorem Balanced.step (hasked : asked.Nodup) (h : Balanced provider limit asked g)
    (hstep : Step provider limit g g') : Balanced provider limit asked g' := by
  cases hstep with
  | @settles pending table query hquery =>
    have hnew := h.not_mem hasked hquery
    rw [settle_eq, Table.put_of_not_mem hnew]
    constructor
    · have hmoved := perm_settles (some ∘ provider.answered) hquery table.outcomes
      rw [List.filterMap_eq_map] at hmoved
      exact hmoved.trans h.outcomes
    · exact (perm_settles (provider.failed? limit) hquery table.failures).trans h.failures

/-- So does a run, by induction on its steps. -/
theorem Balanced.run (hasked : asked.Nodup) (h : Balanced provider limit asked g)
    (hrun : Run provider limit g g') : Balanced provider limit asked g' := by
  induction hrun with
  | refl => exact h
  | tail _ hstep ih => exact ih.step hasked hstep

end Gathering

/-! ### Runs to the end -/

/-- A table in which all distinct queries have been recorded, in whatever order they settled. -/
def Settled (provider : Provider) (limit : Nat) (queries : List Query) (table : Table) : Prop :=
  Gathering.Run provider limit (.start queries) ⟨[], table⟩

/-- A run may take the pending queries in any order. -/
theorem Gathering.run_of_perm {order pending : List Query} (horder : order.Perm pending)
    (table : Table) :
    Run provider limit ⟨pending, table⟩ ⟨[], order.foldl (settle provider limit) table⟩ := by
  induction order generalizing pending table with
  | nil =>
    obtain rfl := List.nil_perm.mp horder
    exact .refl
  | cons query order ih =>
    have hquery : query ∈ pending := horder.mem_iff.mp List.mem_cons_self
    have hrest : order.Perm (pending.erase query) :=
      (List.perm_cons _).mp (horder.trans (List.perm_cons_erase hquery))
    exact (ih hrest _).head (.settles hquery)

theorem settled_of_perm {order : List Query} (horder : order.Perm queries.eraseDups) :
    Settled provider limit queries (order.foldl (settle provider limit) .empty) :=
  Gathering.run_of_perm horder .empty

theorem settled_prefetch (provider : Provider) (limit : Nat) (queries : List Query) :
    Settled provider limit queries (prefetch provider queries limit) :=
  settled_of_perm (List.Perm.refl _)

namespace Settled

theorem outcomes_perm (h : Settled provider limit queries table) :
    table.outcomes.Perm (queries.eraseDups.map provider.answered) :=
  ((Gathering.balanced_start queries).run (nodup_eraseDups queries) h).outcomes

theorem failures_perm (h : Settled provider limit queries table) :
    table.failures.Perm (queries.eraseDups.filterMap (provider.failed? limit)) :=
  ((Gathering.balanced_start queries).run (nodup_eraseDups queries) h).failures

/-! ### What is recorded in the end -/

theorem keys_perm (h : Settled provider limit queries table) :
    (table.outcomes.map (·.1)).Perm queries.eraseDups := by
  have hkeys := h.outcomes_perm.map (·.1)
  rwa [map_answered] at hkeys

theorem nodup_keys (h : Settled provider limit queries table) :
    (table.outcomes.map (·.1)).Nodup :=
  h.keys_perm.nodup_iff.mpr (nodup_eraseDups queries)

/-- Every query that was asked has its outcome, and no other query has one. -/
theorem outcome?_eq (h : Settled provider limit queries table) (key : Query) :
    table.outcome? key = if key ∈ queries then some (provider.outcome key) else none := by
  rw [Table.outcome?]
  by_cases hkey : key ∈ queries
  · rw [if_pos hkey, lookup_eq_some_iff_of_nodup h.nodup_keys, h.outcomes_perm.mem_iff]
    exact List.mem_map.mpr ⟨key, List.mem_eraseDups.mpr hkey, rfl⟩
  · rw [if_neg hkey, List.lookup_eq_none_iff]
    rintro ⟨query, outcome⟩ hmem
    have hquery : query ∈ table.outcomes.map (·.1) := List.mem_map.mpr ⟨_, hmem, rfl⟩
    rw [h.keys_perm.mem_iff, List.mem_eraseDups] at hquery
    rw [bne_iff_ne]
    rintro rfl
    exact hkey hquery

/-- No query has failed twice. -/
theorem nodup_failures (h : Settled provider limit queries table) :
    (table.failures.map (·.1)).Nodup := by
  have hkey (query : Query) (failed : Query × Error)
      (h : provider.failed? limit query = some failed) : failed.1 = query := by
    obtain ⟨error, -, rfl⟩ := Option.map_eq_some_iff.mp h
    rfl
  have hkeys := sublist_map_filterMap hkey queries.eraseDups
  rw [List.map_id'] at hkeys
  exact (h.failures_perm.map (·.1)).nodup_iff.mpr ((nodup_eraseDups queries).sublist hkeys)

/-- The failures are those of the queries that were asked. -/
theorem mem_failures_iff (h : Settled provider limit queries table) {query : Query}
    {error : Error} : (query, error) ∈ table.failures ↔
      query ∈ queries ∧ provider.failure? limit query = some error := by
  rw [h.failures_perm.mem_iff, List.mem_filterMap]
  constructor
  · rintro ⟨asked, hasked, hfailed⟩
    obtain ⟨found, hfound, heq⟩ := Option.map_eq_some_iff.mp hfailed
    obtain ⟨rfl, rfl⟩ := Prod.mk.inj heq
    exact ⟨List.mem_eraseDups.mp hasked, hfound⟩
  · rintro ⟨hquery, hfailure⟩
    exact ⟨query, List.mem_eraseDups.mpr hquery, by simp [Provider.failed?, hfailure]⟩

end Settled

/-! ### Two runs -/

/-- Repeats make no difference to what is asked. -/
theorem eraseDups_perm (hsame : ∀ query, query ∈ queries ↔ query ∈ queries') :
    queries.eraseDups.Perm queries'.eraseDups := by
  rw [List.perm_ext_iff_of_nodup (nodup_eraseDups _) (nodup_eraseDups _)]
  intro query
  rw [List.mem_eraseDups, List.mem_eraseDups, hsame]

instance : Std.TransCmp Query.compare :=
  inferInstanceAs (Std.TransCmp (compareLex (compareOn (·.term))
    (compareLex (compareOn fun query : Query => kindRank query.kind) (compareOn (·.specs)))))

theorem kindRank_inj {a b : ReferenceKind} (h : kindRank a = kindRank b) : a = b := by
  cases a <;> cases b <;> first | rfl | cases h

theorem Query.eq_of_compare {a b : Query} (h : a.compare b = .eq) : a = b := by
  obtain ⟨term, kind, specs⟩ := a
  obtain ⟨term', kind', specs'⟩ := b
  rw [Query.compare, Ordering.then_eq_eq, Ordering.then_eq_eq] at h
  obtain ⟨hterm, hkind, hspecs⟩ := h
  obtain rfl : term = term' := Std.LawfulEqCmp.eq_of_compare hterm
  obtain rfl : specs = specs' := Std.LawfulEqCmp.eq_of_compare hspecs
  obtain rfl : kind = kind' := kindRank_inj (Std.LawfulEqCmp.eq_of_compare hkind)
  rfl

/-- Sorting puts records in the order of their queries. -/
theorem pairwise_mergeSort {α : Type} (xs : List (Query × α)) :
    (xs.mergeSort fun a b => (a.1.compare b.1).isLE).Pairwise fun a b =>
      (a.1.compare b.1).isLE = true := by
  have htrans (a b c : Query × α) (hab : (a.1.compare b.1).isLE) (hbc : (b.1.compare c.1).isLE) :
      (a.1.compare c.1).isLE := Std.TransCmp.isLE_trans hab hbc
  have htotal (a b : Query × α) : ((a.1.compare b.1).isLE || (b.1.compare a.1).isLE) = true := by
    rw [Bool.or_eq_true, or_iff_not_imp_left]
    intro hnot
    exact Ordering.isLE_of_eq_lt (Std.OrientedCmp.lt_of_not_isLE hnot)
  exact List.pairwise_mergeSort htrans htotal xs

/-- Records of different queries have one order. -/
theorem mergeSort_eq_of_perm {α : Type} {xs ys : List (Query × α)} (hperm : xs.Perm ys)
    (hnodup : (ys.map (·.1)).Nodup) :
    xs.mergeSort (fun a b => (a.1.compare b.1).isLE) =
      ys.mergeSort fun a b => (a.1.compare b.1).isLE := by
  apply List.Perm.eq_of_pairwise _ (pairwise_mergeSort xs) (pairwise_mergeSort ys)
  · exact (List.mergeSort_perm xs _).trans (hperm.trans (List.mergeSort_perm ys _).symm)
  · intro a b ha hb hab hba
    have hkey := Query.eq_of_compare (Std.OrientedCmp.isLE_antisymm hab hba)
    have ha : a ∈ ys := hperm.mem_iff.mp ((List.mergeSort_perm xs _).mem_iff.mp ha)
    have hb : b ∈ ys := (List.mergeSort_perm ys _).mem_iff.mp hb
    exact List.inj_on_of_nodup_map hnodup ha hb hkey

/-- The ambiguous queries are some of those that are recorded. -/
theorem Table.sublist_ambiguous (outcomes : List (Query × Outcome)) :
    List.Sublist ((outcomes.filterMap fun (query, outcome) =>
      match outcome with
      | .ambiguous entries => some (query, entries)
      | _ => none).map (·.1)) (outcomes.map (·.1)) := by
  apply sublist_map_filterMap
  rintro ⟨query, outcome⟩ ambiguous hambiguous
  cases outcome with
  | ambiguous entries =>
    obtain rfl := Option.some.inj hambiguous
    rfl
  | missing | resolved => cases hambiguous

namespace Settled

variable (hsame : ∀ query, query ∈ queries ↔ query ∈ queries')
  (h : Settled provider limit queries table) (h' : Settled provider limit queries' table')

include hsame h h'

theorem outcomes_perm_outcomes : table.outcomes.Perm table'.outcomes :=
  h.outcomes_perm.trans (((eraseDups_perm hsame).map _).trans h'.outcomes_perm.symm)

theorem outcome?_eq_outcome? (key : Query) : table.outcome? key = table'.outcome? key := by
  rw [h.outcome?_eq, h'.outcome?_eq]
  simp only [hsame key]

theorem get?_eq (key : Query) : table.get? key = table'.get? key := by
  rw [Table.get?, Table.get?, outcome?_eq_outcome? hsame h h']

theorem size_eq : table.size = table'.size := (outcomes_perm_outcomes hsame h h').length_eq

/-- The ambiguous queries are sorted, and no two of them are the same query. -/
theorem ambiguities_eq : table.ambiguities = table'.ambiguities := by
  rw [Table.ambiguities, Table.ambiguities]
  apply mergeSort_eq_of_perm ((outcomes_perm_outcomes hsame h h').filterMap _)
  exact List.Nodup.sublist (Table.sublist_ambiguous _) h'.nodup_keys

end Settled

end WebIdl.Xref
