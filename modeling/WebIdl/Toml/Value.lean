import WebIdl.Decimal.Binary64

/-!
# TOML values

What a TOML document says: values and tables of them. Dates and times are kept as their text.
-/

namespace WebIdl.Toml

inductive Value where
  | string (text : String)
  | integer (value : Int)
  | float (value : Decimal.Binary64)
  | boolean (value : Bool)
  | datetime (text : String)
  | array (items : List Value)
  | table (entries : List (String × Value))

/-! ### Tables under construction -/

/-- How a table came to be, which decides what may still be added to it. -/
inductive Origin where
  /-- By the header of a table inside it. -/
  | implied
  /-- By a header of its own. -/
  | headed
  /-- By a dotted key inside it. -/
  | dotted
deriving DecidableEq, Repr

/-- What a key stands for while a document is read. -/
inductive Node where
  | value (value : Value)
  | table (origin : Origin) (entries : List (String × Node))
  /-- An array of tables, the newest first. -/
  | tables (newest : List (String × Node)) (older : List (List (String × Node)))

namespace Node

/-- Changes or adds the entry of a key. -/
def alter (key : String) (f : Option Node → Option Node) :
    List (String × Node) → Option (List (String × Node))
  | [] => do return [(key, ← f none)]
  | (k, node) :: rest =>
    if k = key then do return (k, ← f (some node)) :: rest
    else do return (k, node) :: (← alter key f rest)

/-- Gives a key a table with a header of its own: a new one, or the one that was implied so far,
which then becomes the last entry. -/
def head (key : String) (entries : List (String × Node)) : Option (List (String × Node)) :=
  match entries.lookup key with
  | none => some (entries ++ [(key, .table .headed [])])
  | some (.table .implied inner) =>
    some (entries.filter (·.1 != key) ++ [(key, .table .headed inner)])
  | some _ => none

/-- Gives a key a further table of an array of tables. -/
def grow (key : String) (entries : List (String × Node)) : Option (List (String × Node)) :=
  alter key (fun
    | none => some (.tables [] [])
    | some (.tables newest older) => some (.tables [] (newest :: older))
    | some _ => none) entries

/-- Goes along the keys of a header and ends with `f` at the last. An array of tables is entered at
its newest table. -/
def along (f : String → List (String × Node) → Option (List (String × Node))) :
    List String → List (String × Node) → Option (List (String × Node))
  | [], _ => none
  | [key], entries => f key entries
  | key :: keys, entries =>
    alter key (fun
      | none => do return .table .implied (← along f keys [])
      | some (.table origin inner) => do return .table origin (← along f keys inner)
      | some (.tables newest older) => do return .tables (← along f keys newest) older
      | some (.value _) => none) entries

/-- Sets a dotted key. The table that it goes into is the outermost one or made by dotted keys. -/
def assign (value : Value) : List String → List (String × Node) → Option (List (String × Node))
  | [], _ => none
  | [key], entries => alter key (fun | none => some (.value value) | some _ => none) entries
  | key :: keys, entries =>
    alter key (fun
      | none => do return .table .dotted (← assign value keys [])
      | some (.table .dotted inner) => do return .table .dotted (← assign value keys inner)
      | some (.table .implied inner) =>
        if keys.length = 1 then none
        else do return .table .implied (← assign value keys inner)
      | some (.tables newest older) =>
        if keys.length = 1 then none
        else do return .tables (← assign value keys newest) older
      | some _ => none) entries

/-- Sets a dotted key in the table of a header. -/
def assignIn (value : Value) (key : List String) :
    List String → List (String × Node) → Option (List (String × Node))
  | [], entries => assign value key entries
  | step :: steps, entries =>
    alter step (fun
      | some (.table origin inner) => do return .table origin (← assignIn value key steps inner)
      | some (.tables newest older) => do return .tables (← assignIn value key steps newest) older
      | _ => none) entries

mutual

def toValue : Node → Value
  | .value v => v
  | .table _ entries => .table (entryValues entries)
  | .tables newest older => .array (tableValues older ++ [.table (entryValues newest)])

/-- The values of entries in order. -/
def entryValues : List (String × Node) → List (String × Value)
  | [] => []
  | (key, node) :: rest => (key, toValue node) :: entryValues rest

/-- The values of tables, the last of the list first. -/
def tableValues : List (List (String × Node)) → List Value
  | [] => []
  | entries :: rest => tableValues rest ++ [.table (entryValues entries)]

end

end Node

end WebIdl.Toml
