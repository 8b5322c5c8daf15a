import WebIdl.Json.Reader
import WebIdl.Host

/-!
# Cross-references

Names that neither the document nor Web IDL defines are looked up in an external database. A query
asks for a term as a type or as the name of a member, with the specifications that the block cites;
candidates from these are preferred. One candidate settles a query, several with different addresses
leave it ambiguous, and a failed lookup counts as having none.
-/

namespace WebIdl

/-- What a name is used as. -/
inductive ReferenceKind where
  /-- A type, or the name of a definition. -/
  | type
  /-- The name of a member. -/
  | name
deriving DecidableEq, Repr

namespace ReferenceKind

def label : ReferenceKind → String
  | .type => "type"
  | .name => "name"

end ReferenceKind

namespace Xref

structure Query where
  term : String
  kind : ReferenceKind
  /-- Specifications to prefer. -/
  specs : List String
deriving DecidableEq, Repr

/-- A definition in another document. -/
structure Entry where
  url : String
  spec : String
  specTitle : String
  kind : String
deriving DecidableEq, Repr

namespace Entry

/-- The kinds of definitions that name types. -/
def typeKinds : List String :=
  ["interface", "dictionary", "enum", "typedef", "callback", "namespace", "exception"]

/-- The entry answers queries of a kind. -/
def answers (entry : Entry) : ReferenceKind → Bool
  | .type => typeKinds.contains entry.kind
  | .name => !typeKinds.contains entry.kind

def ofJson? (json : Json) : Option Entry := do
  match ← json.fields? ["url", "spec", "spec_title", "type"] with
  | [url, spec, specTitle, kind] =>
    return {
      url := ← Json.required Json.string? url
      spec := ← Json.defaulted Json.string? "" spec
      specTitle := ← Json.defaulted Json.string? "" specTitle
      kind := ← Json.required Json.string? kind }
  | _ => none

def toJson (entry : Entry) : Json :=
  .object [("url", .string entry.url), ("spec", .string entry.spec),
    ("spec_title", .string entry.specTitle), ("type", .string entry.kind)]

end Entry

inductive Error where
  /-- The database could not be reached or refused to answer. -/
  | unavailable (message : String)
  /-- The lookup did not settle in time; the limit is in microseconds. -/
  | timeout (limit : Nat)
  /-- The answer could not be read. -/
  | malformed (message : String)
deriving DecidableEq, Repr

namespace Error

def message : Error → String
  | .unavailable message => "Cross-reference provider unavailable: " ++ message
  | .timeout limit =>
    "Cross-reference lookup timed out after " ++ toString (limit / 1000) ++ "ms"
  | .malformed message => "Malformed cross-reference data: " ++ message

end Error

/-! ### Outcomes -/

inductive Outcome where
  | missing
  | resolved (entry : Entry)
  | ambiguous (entries : List Entry)
deriving DecidableEq, Repr

/-- ASCII letters of either case count as the same. -/
def sameSpec (a b : String) : Bool :=
  a.toList.map Char.toLower == b.toList.map Char.toLower

/-- The first entry of each address. -/
def distinctUrls : List String → List Entry → List Entry
  | _, [] => []
  | seen, entry :: entries =>
    if seen.contains entry.url then distinctUrls seen entries
    else entry :: distinctUrls (entry.url :: seen) entries

/-- The candidates from the cited specifications, or all if there are none, without repeated
addresses. -/
def narrow (candidates : List Entry) (specs : List String) : List Entry :=
  let cited := candidates.filter fun entry => specs.any (sameSpec · entry.spec)
  distinctUrls [] (if cited.isEmpty then candidates else cited)

/-- What candidates amount to. -/
def Outcome.ofCandidates (candidates : List Entry) (specs : List String) : Outcome :=
  match narrow candidates specs with
  | [] => .missing
  | [entry] => .resolved entry
  | entries => .ambiguous entries

/-- The settled queries, each with its last outcome, and all failures in order. -/
structure Table where
  outcomes : List (Query × Outcome)
  failures : List (Query × Error)

namespace Table

def empty : Table := ⟨[], []⟩

/-- Sets the outcome of a query, which keeps its place if it has one. -/
def put (query : Query) (outcome : Outcome) : List (Query × Outcome) → List (Query × Outcome)
  | [] => [(query, outcome)]
  | (q, o) :: rest =>
    if q = query then (query, outcome) :: rest else (q, o) :: put query outcome rest

def record (table : Table) (query : Query) (candidates : List Entry) : Table :=
  { table with
    outcomes := put query (.ofCandidates candidates query.specs) table.outcomes }

def recordFailure (table : Table) (query : Query) (error : Error) : Table :=
  { outcomes := put query .missing table.outcomes
    failures := table.failures ++ [(query, error)] }

def outcome? (table : Table) (query : Query) : Option Outcome := table.outcomes.lookup query

/-- The entry that a query resolved to. -/
def get? (table : Table) (query : Query) : Option Entry :=
  match table.outcome? query with
  | some (.resolved entry) => some entry
  | _ => none

def size (table : Table) : Nat := table.outcomes.length

def isEmpty (table : Table) : Bool := table.outcomes.isEmpty

end Table

/-! ### The order of queries -/

/-- Types come before names. -/
def kindRank : ReferenceKind → Nat
  | .type => 0
  | .name => 1

/-- Texts are ordered by their characters, and lists of them item by item. -/
def Query.compare (a b : Query) : Ordering :=
  (Ord.compare a.term b.term).then
    ((Ord.compare (kindRank a.kind) (kindRank b.kind)).then (Ord.compare a.specs b.specs))

namespace Table

/-- The ambiguous queries with their candidates, in the order of queries. -/
def ambiguities (table : Table) : List (Query × List Entry) :=
  (table.outcomes.filterMap fun (query, outcome) =>
    match outcome with
    | .ambiguous entries => some (query, entries)
    | _ => none).mergeSort fun a b => (a.1.compare b.1).isLE

end Table

end Xref

end WebIdl
