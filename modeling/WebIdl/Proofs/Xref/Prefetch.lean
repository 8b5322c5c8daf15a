import WebIdl.Xref.Prefetch

/-!
# What is looked up

Each query settles by itself, and how it settles depends on the provider only. So the table has the
outcome of every query that was asked, and of no other (`Xref.outcome?_prefetch`).
-/

namespace WebIdl.Xref

/-- What the answer of a provider to a query amounts to. -/
def Provider.outcome (provider : Provider) (query : Query) : Outcome :=
  match provider query with
  | .candidates entries => .ofCandidates entries query.specs
  | .failed _ | .silent => .missing

namespace Table

theorem lookup_put (query key : Query) (outcome : Outcome) (outcomes : List (Query × Outcome)) :
    (put query outcome outcomes).lookup key =
      if key = query then some outcome else outcomes.lookup key := by
  induction outcomes with
  | nil =>
    by_cases hkey : key = query
    · simp [put, hkey]
    · simp [put, List.lookup_cons, hkey, beq_false_of_ne hkey]
  | cons first outcomes ih =>
    obtain ⟨q, o⟩ := first
    unfold put
    by_cases hq : q = query
    · subst hq
      by_cases hkey : key = q
      · simp [hkey]
      · simp [List.lookup_cons, hkey, beq_false_of_ne hkey]
    · by_cases hkey : key = q
      · subst hkey
        simp [hq]
      · simp [List.lookup_cons, hq, beq_false_of_ne hkey, ih]

end Table

variable {provider : Provider} {limit : Nat}

/-- A query settles with its outcome, and leaves those of the others alone. -/
theorem outcome?_settle (table : Table) (query key : Query) :
    (settle provider limit table query).outcome? key =
      if key = query then some (provider.outcome query) else table.outcome? key := by
  unfold settle Provider.outcome
  cases provider query <;> exact Table.lookup_put ..

theorem outcome?_foldl_settle (queries : List Query) (table : Table) (key : Query) :
    (queries.foldl (settle provider limit) table).outcome? key =
      if key ∈ queries then some (provider.outcome key) else table.outcome? key := by
  induction queries generalizing table with
  | nil => simp
  | cons query queries ih =>
    rw [List.foldl_cons, ih, outcome?_settle]
    by_cases hmem : key ∈ queries
    · simp [hmem]
    · by_cases hkey : key = query
      · simp [hkey]
      · simp [hmem, hkey]

/-- **The table has the outcomes of the queries that were asked, and no others.** -/
theorem outcome?_prefetch (queries : List Query) (key : Query) :
    (prefetch provider queries limit).outcome? key =
      if key ∈ queries then some (provider.outcome key) else none := by
  rw [prefetch, outcome?_foldl_settle]
  simp only [List.mem_eraseDups]
  rfl

end WebIdl.Xref
