import Mathlib.Data.Finset.Card
import WebIdl.Proofs.Xref.Settling

/-!
# Tables after any calls

A table is filled by calls, each of which records candidates or a failure for a query. Whatever calls
are made, and however often for one query, what the table shows of a query is what the last call for
it has left, and only the failures remember all calls.

* `Xref.Call`, `Xref.Table.run` — calls, and the table that they fill.
* `Xref.Call.Leaves` — the outcome that a call leaves its query with.
* `Table.Follows`, `Table.Follows.step`, `Table.follows_run` — what a table holds follows the calls;
  a call keeps it so, and with it a run.
* `prefetch_eq_run` — the table of a document is that of a run.
* `Query.Before` — the order of queries, item by item.
* `Table.Consistent` — what the views of a table say of calls and of each other.
* `Table.run_consistent` — so they do after every run.
-/

namespace WebIdl.Xref

inductive Call where
  | record (query : Query) (candidates : List Entry)
  | failure (query : Query) (error : Error)

namespace Call

def query : Call → Query
  | .record query _ => query
  | .failure query _ => query

def apply (table : Table) : Call → Table
  | .record query candidates => table.record query candidates
  | .failure query error => table.recordFailure query error

/-- The failure that a call reports. -/
def failure? : Call → Option (Query × Error)
  | .record _ _ => none
  | .failure query error => some (query, error)

/-- What a call leaves its query with: the outcome of the candidates that narrowing keeps, by their
number, and none after a failure. -/
inductive Leaves : Call → Outcome → Prop where
  | missing {query : Query} {candidates : List Entry} (h : narrow candidates query.specs = []) :
      Leaves (.record query candidates) .missing
  | resolved {query : Query} {candidates : List Entry} {entry : Entry}
      (h : narrow candidates query.specs = [entry]) :
      Leaves (.record query candidates) (.resolved entry)
  | ambiguous {query : Query} {candidates entries : List Entry}
      (h : narrow candidates query.specs = entries) (hmany : 2 ≤ entries.length) :
      Leaves (.record query candidates) (.ambiguous entries)
  | failed {query : Query} {error : Error} : Leaves (.failure query error) .missing

/-- The outcome that a call leaves. -/
def outcome : Call → Outcome
  | .record query candidates => .ofCandidates candidates query.specs
  | .failure _ _ => .missing

theorem leaves_iff {call : Call} {outcome : Outcome} :
    call.Leaves outcome ↔ call.outcome = outcome := by
  constructor
  · intro h
    cases h with
    | missing h => rw [Call.outcome, Outcome.ofCandidates, h]
    | resolved h => rw [Call.outcome, Outcome.ofCandidates, h]
    | @ambiguous _ _ entries h hmany =>
      rw [Call.outcome, Outcome.ofCandidates, h]
      match entries, hmany with
      | _ :: _ :: _, _ => rfl
    | failed => rfl
  · rintro rfl
    cases call with
    | record query candidates =>
      rw [Call.outcome, Outcome.ofCandidates]
      split
      · rename_i h
        exact .missing h
      · rename_i h
        exact .resolved h
      · rename_i hempty hone
        refine .ambiguous rfl ?_
        match hkept : narrow candidates query.specs with
        | [] => exact absurd hkept hempty
        | [entry] => exact absurd hkept (hone entry)
        | _ :: _ :: _ => exact Nat.le_add_left 2 _
    | failure query error => exact .failed

end Call

/-- The last of the calls for a query. -/
def lastCall? (calls : List Call) (query : Query) : Option Call :=
  (calls.filter (·.query = query)).getLast?

namespace Table

/-- The table that calls fill, one after the other. -/
def run (calls : List Call) : Table := calls.foldl Call.apply .empty

/-! ### What a call changes -/

theorem map_fst_put_of_mem {query : Query} {outcomes : List (Query × Outcome)}
    (h : query ∈ outcomes.map (·.1)) (outcome : Outcome) :
    (put query outcome outcomes).map (·.1) = outcomes.map (·.1) := by
  induction outcomes with
  | nil => cases h
  | cons first outcomes ih =>
    obtain ⟨q, o⟩ := first
    rw [put]
    by_cases hq : q = query
    · rw [if_pos hq, List.map_cons, List.map_cons, hq]
    · rw [List.map_cons, List.mem_cons] at h
      rw [if_neg hq, List.map_cons, List.map_cons, ih (h.resolve_left (Ne.symm hq))]

/-- A call puts one outcome into the table, and may add a failure. -/
theorem apply_eq (table : Table) (call : Call) :
    call.apply table =
      ⟨put call.query call.outcome table.outcomes, table.failures ++ call.failure?.toList⟩ := by
  cases call with
  | record query candidates => simp [Call.apply, record, Call.query, Call.outcome, Call.failure?]
  | failure query error => rfl

/-- A table holds one outcome for each query that was used, which is that of the last call for it,
and all failures. -/
structure Follows (calls : List Call) (table : Table) : Prop where
  outcome?_eq : ∀ query, table.outcome? query = (lastCall? calls query).map Call.outcome
  nodup : (table.outcomes.map (·.1)).Nodup
  mem_iff : ∀ query, query ∈ table.outcomes.map (·.1) ↔ query ∈ calls.map Call.query
  failures : table.failures = calls.filterMap Call.failure?

theorem follows_empty : Follows [] empty where
  outcome?_eq _ := rfl
  nodup := List.nodup_nil
  mem_iff _ := Iff.rfl
  failures := rfl

theorem lastCall?_append (calls : List Call) (call : Call) (query : Query) :
    lastCall? (calls ++ [call]) query =
      if query = call.query then some call else lastCall? calls query := by
  rw [lastCall?, List.filter_append]
  by_cases hquery : query = call.query
  · simp [hquery]
  · simp [hquery, Ne.symm hquery, lastCall?]

/-- **A call keeps the table in step with the calls.** -/
theorem Follows.step {calls : List Call} {table : Table} (h : Follows calls table) (call : Call) :
    Follows (calls ++ [call]) (call.apply table) := by
  rw [apply_eq]
  constructor
  · intro query
    rw [lastCall?_append, outcome?, lookup_put, ← outcome?, h.outcome?_eq]
    split <;> rfl
  · by_cases hused : call.query ∈ table.outcomes.map (·.1)
    · rw [map_fst_put_of_mem hused]
      exact h.nodup
    · rw [put_of_not_mem hused, List.map_append, List.map_singleton, ← List.concat_eq_append]
      exact h.nodup.concat hused
  · intro query
    rw [List.map_append, List.mem_append, ← h.mem_iff, List.map_singleton, List.mem_singleton]
    by_cases hused : call.query ∈ table.outcomes.map (·.1)
    · rw [map_fst_put_of_mem hused, or_iff_left_of_imp]
      rintro rfl
      exact hused
    · rw [put_of_not_mem hused, List.map_append, List.mem_append, List.map_singleton,
        List.mem_singleton]
  · rw [List.filterMap_append, ← h.failures]
    cases hfailure : call.failure? <;> simp [hfailure]

/-- So does a run, by induction on its calls. -/
theorem follows_run (calls : List Call) : Follows calls (run calls) := by
  induction calls using List.reverseRecOn with
  | nil => exact follows_empty
  | append_singleton calls call ih =>
    rw [run, List.foldl_append]
    exact ih.step call

end Table

/-- The call that a lookup makes when it settles; the limit is in microseconds. -/
def Provider.call (provider : Provider) (limit : Nat) (query : Query) : Call :=
  match provider query with
  | .candidates entries => .record query entries
  | .failed error => .failure query error
  | .silent => .failure query (.timeout limit)

/-- The table of a document is filled by one call for each distinct query. -/
theorem prefetch_eq_run (provider : Provider) (queries : List Query) (limit : Nat) :
    prefetch provider queries limit = Table.run (queries.eraseDups.map (provider.call limit)) := by
  have hsettle : settle provider limit =
      fun table query => (provider.call limit query).apply table := by
    funext table query
    unfold settle Provider.call
    cases provider query <;> rfl
  rw [prefetch, hsettle, Table.run, List.foldl_map]

/-! ### The order of queries -/

/-- Queries are ordered by their terms, then by their kinds and then by their specifications. -/
def Query.Before (a b : Query) : Prop :=
  a.term < b.term ∨ a.term = b.term ∧
    (kindRank a.kind < kindRank b.kind ∨ a.kind = b.kind ∧ a.specs < b.specs)

theorem compare_strings_eq_lt {a b : String} : compare a b = .lt ↔ a < b :=
  compareOfLessAndEq_eq_lt

theorem compare_lists_eq_lt {as bs : List String} : compare as bs = .lt ↔ as < bs := by
  induction as generalizing bs with
  | nil => cases bs <;> simp
  | cons a as ih =>
    cases bs with
    | nil => simp
    | cons b bs =>
      rw [List.compare_cons_cons, Ordering.then_eq_lt, compare_strings_eq_lt, ih,
        Std.LawfulEqCmp.compare_eq_iff_eq, List.cons_lt_cons_iff]

theorem Query.compare_eq_lt_iff {a b : Query} : a.compare b = .lt ↔ a.Before b := by
  rw [Query.compare, Ordering.then_eq_lt, Ordering.then_eq_lt, compare_strings_eq_lt,
    compare_lists_eq_lt, Nat.compare_eq_lt, Std.LawfulEqCmp.compare_eq_iff_eq,
    Std.LawfulEqCmp.compare_eq_iff_eq, Query.Before]
  have hkind : kindRank a.kind = kindRank b.kind ↔ a.kind = b.kind := ⟨kindRank_inj, congrArg _⟩
  rw [hkind]

/-! ### The views of a table -/

namespace Table

variable {calls : List Call} {table : Table}

theorem lookup_eq_none_iff {query : Query} :
    table.outcome? query = none ↔ query ∉ table.outcomes.map (·.1) := by
  rw [outcome?, List.lookup_eq_none_iff, List.mem_map, not_exists]
  simp only [bne_iff_ne, not_and, ne_comm]

theorem mem_ambiguities_iff (hnodup : (table.outcomes.map (·.1)).Nodup) {query : Query}
    {entries : List Entry} :
    (query, entries) ∈ table.ambiguities ↔ table.outcome? query = some (.ambiguous entries) := by
  rw [ambiguities, (List.mergeSort_perm _ _).mem_iff, List.mem_filterMap, outcome?,
    lookup_eq_some_iff_of_nodup hnodup]
  constructor
  · rintro ⟨⟨q, o⟩, hmem, hsome⟩
    cases o with
    | ambiguous found =>
      obtain ⟨rfl, rfl⟩ := Prod.mk.inj (Option.some.inj hsome)
      exact hmem
    | missing | resolved => cases hsome
  · intro hmem
    exact ⟨_, hmem, rfl⟩

/-- No query comes twice, so sorting leaves no two of them equal. -/
theorem pairwise_ambiguities (hnodup : (table.outcomes.map (·.1)).Nodup) :
    table.ambiguities.Pairwise fun a b => a.1.Before b.1 := by
  have hkeys : (table.ambiguities.map (·.1)).Nodup := by
    rw [ambiguities, ((List.mergeSort_perm _ _).map _).nodup_iff]
    exact hnodup.sublist (sublist_ambiguous _)
  have hne : table.ambiguities.Pairwise fun a b => a.1 ≠ b.1 := List.pairwise_map.mp hkeys
  apply (hne.and (pairwise_mergeSort _)).imp
  rintro a b ⟨hdistinct, hle⟩
  rw [← Query.compare_eq_lt_iff]
  rcases Ordering.isLE_iff_eq_lt_or_eq_eq.mp hle with hlt | heq
  · exact hlt
  · exact absurd (Query.eq_of_compare heq) hdistinct

/-- What the views of a table say of the calls that filled it, and of each other. -/
structure Consistent (calls : List Call) (table : Table) : Prop where
  unused : ∀ query, table.outcome? query = none ↔ query ∉ calls.map Call.query
  last : ∀ query outcome, table.outcome? query = some outcome ↔
    ∃ call, lastCall? calls query = some call ∧ call.Leaves outcome
  resolved : ∀ query entry, table.get? query = some entry ↔
    table.outcome? query = some (.resolved entry)
  size : table.size = (calls.map Call.query).toFinset.card
  ambiguous : ∀ query entries, (query, entries) ∈ table.ambiguities ↔
    table.outcome? query = some (.ambiguous entries)
  sorted : table.ambiguities.Pairwise fun a b => a.1.Before b.1
  failures : table.failures = calls.filterMap Call.failure?

theorem get?_eq_some_iff {query : Query} {entry : Entry} :
    table.get? query = some entry ↔ table.outcome? query = some (.resolved entry) := by
  unfold get?
  cases table.outcome? query with
  | none => simp
  | some outcome => cases outcome <;> simp

theorem Follows.consistent (h : Follows calls table) : Consistent calls table where
  unused query := by rw [lookup_eq_none_iff, h.mem_iff]
  last query outcome := by
    rw [h.outcome?_eq, Option.map_eq_some_iff]
    exact exists_congr fun call => and_congr_right fun _ => Call.leaves_iff.symm
  resolved _ _ := get?_eq_some_iff
  size := by
    have hsame : (table.outcomes.map (·.1)).toFinset = (calls.map Call.query).toFinset := by
      ext query
      rw [List.mem_toFinset, List.mem_toFinset, h.mem_iff]
    rw [← hsame, List.card_toFinset, h.nodup.dedup, List.length_map, size]
  ambiguous _ _ := mem_ambiguities_iff h.nodup
  sorted := pairwise_ambiguities h.nodup
  failures := h.failures

/-- **After any calls, in any order, a table has for each query that was used what the last call for it
has left. A query is found if that is one entry, and is listed with the ambiguous ones, once and in
their order, if that is several; and all failures are kept in the order of the calls.** -/
theorem run_consistent (calls : List Call) : Consistent calls (run calls) :=
  (follows_run calls).consistent

end Table

end WebIdl.Xref
