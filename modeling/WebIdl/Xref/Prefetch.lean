import WebIdl.Xref.Table

/-!
# Looking up cross-references

A provider answers a query with candidates, with an error, or not at all. All distinct queries of a
document are looked up before anything is rendered, each for a limited time, and every one settles.
-/

namespace WebIdl.Xref

/-- A database in memory, by term. -/
structure Database where
  entries : List (String × List Entry)

namespace Database

/-- The members of an object with the value that each name has last. -/
def lastValues : List (String × Json) → List (String × Json)
  | [] => []
  | (name, value) :: rest =>
    if rest.any (·.1 == name) then lastValues rest else (name, value) :: lastValues rest

/-- A database is an object of lists of entries. Every list is read, also one that a later one of
the same name replaces. -/
def ofJson? : Json → Option Database
  | .object members => do
    let _ ← members.mapM fun (_, value) => Json.listOf? Entry.ofJson? value
    let entries ← (lastValues members).mapM fun (term, value) => do
      return (term, ← Json.listOf? Entry.ofJson? value)
    return ⟨entries⟩
  | _ => none

def parse? (text : String) : Option Database := do ofJson? (← Json.parse? text)

def size (database : Database) : Nat := database.entries.length

def isEmpty (database : Database) : Bool := database.entries.isEmpty

/-- The entries of a term that answer the kind of the query. -/
def lookup (database : Database) (query : Query) : List Entry :=
  ((database.entries.lookup query.term).getD []).filter (·.answers query.kind)

end Database

/-- How a provider answers a query. -/
inductive Reply where
  | candidates (entries : List Entry)
  | failed (error : Error)
  /-- No answer ever comes. -/
  | silent

abbrev Provider : Type := Query → Reply

namespace Provider

def ofDatabase (database : Database) : Provider := fun query => .candidates (database.lookup query)

def unavailable (message : String) : Provider := fun _ => .failed (.unavailable message)

def stalled : Provider := fun _ => .silent

end Provider

/-- Records how one lookup settled; the limit is in microseconds. -/
def settle (provider : Provider) (limit : Nat) (table : Table) (query : Query) : Table :=
  match provider query with
  | .candidates entries => table.record query entries
  | .failed error => table.recordFailure query error
  | .silent => table.recordFailure query (.timeout limit)

/-- Looks up every distinct query. -/
def prefetch (provider : Provider) (queries : List Query) (limit : Nat) : Table :=
  queries.eraseDups.foldl (settle provider limit) .empty

end WebIdl.Xref
