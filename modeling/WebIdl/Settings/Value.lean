import WebIdl.Text.Lowercase
import WebIdl.Toml.Scalar

/-!
# Setting values

What settings are made of, how one value goes over another, and how values stand for each other:
a number for a text, a word for a truth value. Keys that differ only in case are the same.
-/

namespace WebIdl

inductive Setting where
  | nil
  | boolean (value : Bool)
  | integer (value : Int)
  | float (value : Decimal.Binary64)
  | text (value : String)
  | list (items : List Setting)
  | table (entries : List (String × Setting))

namespace Setting

/-- A table in which this key comes first stands for the date or the time that its text spells. -/
def momentKey : String := "$__toml_private_datetime"

mutual

/-- Dates and times become texts. -/
def ofToml? : Toml.Value → Option Setting
  | .string s => some (.text s)
  | .integer value => some (.integer value)
  | .float value => some (.float value)
  | .boolean value => some (.boolean value)
  | .datetime s => some (.text s)
  | .array items => do return .list (← listOfToml? items)
  | .table [] => some (.table [])
  | .table ((key, value) :: rest) =>
    if key = momentKey then
      match value with
      | .string s => (Toml.moment? s).map .text
      | _ => none
    else do return .table ((key, ← ofToml? value) :: (← tableOfToml? rest))

def listOfToml? : List Toml.Value → Option (List Setting)
  | [] => some []
  | value :: rest => do return (← ofToml? value) :: (← listOfToml? rest)

def tableOfToml? : List (String × Toml.Value) → Option (List (String × Setting))
  | [] => some []
  | (key, value) :: rest => do return (key, ← ofToml? value) :: (← tableOfToml? rest)

end

/-! ### Setting one value over another -/

/-- The entries of a table; anything else has none. -/
def entries : Setting → List (String × Setting)
  | .table entries => entries
  | _ => []

/-- Changes the entry of a key, which is added if it is not there. -/
def change (key : String) (f : Option Setting → Setting) :
    List (String × Setting) → List (String × Setting)
  | [] => [(key, f none)]
  | (k, value) :: rest =>
    if k = key then (k, f (some value)) :: rest else (k, value) :: change key f rest

/-- Changes the entry of a key without regard to its case: all keys are kept in lower case. -/
def update (key : String) (f : Option Setting → Setting) (entries : List (String × Setting)) :
    List (String × Setting) :=
  change (Text.lower key) f entries

mutual

/-- Sets a key of a table; anything that is no table becomes one. A table is merged into what is
there key by key, and any other value replaces it. -/
def put (key : String) : Setting → Setting → Setting
  | .table incoming, root =>
    .table (update key (fun old => putAll incoming (old.getD (.table []))) root.entries)
  | value, root => .table (update key (fun _ => value) root.entries)

/-- Sets the keys of a table one after the other. -/
def putAll : List (String × Setting) → Setting → Setting
  | [], root => root
  | (key, value) :: rest, root => putAll rest (put key value root)

end

/-! ### Reading a value as something else -/

/-- The words that stand for truth values. -/
def word? (s : String) : Option Bool :=
  if ["true", "on", "yes"].contains s then some true
  else if ["false", "off", "no"].contains s then some false
  else none

def toBool? : Setting → Option Bool
  | .boolean value => some value
  | .integer value => some (value != 0)
  | .float value => some (!value.isZero)
  | .text s =>
    let lowered := Text.lower s
    if lowered == "1" then some true
    else if lowered == "0" then some false
    else word? lowered
  | .nil | .list _ | .table _ => none

/-- The greatest number of 64 bits. -/
def top : Nat := 0xFFFFFFFFFFFFFFFF

/-- A number of 64 bits in decimal digits, perhaps after a plus sign. -/
def numeral? (cs : List Char) : Option Nat :=
  let digits := match cs with
    | '+' :: digits => digits
    | digits => digits
  if digits.isEmpty || !digits.all Char.isDigit then none
  else
    let n := digits.foldl (fun n c => 10 * n + (c.toNat - '0'.toNat)) 0
    if n ≤ top then some n else none

def toNat? : Setting → Option Nat
  | .boolean value => some value.toNat
  | .integer value => if value < 0 then none else some value.toNat
  | .float value => some (value.roundUpTo top)
  | .text s =>
    match word? (Text.lower s) with
    | some value => some value.toNat
    | none => numeral? s.toList
  | .nil | .list _ | .table _ => none

def toText? : Setting → Option String
  | .boolean value => some (toString value)
  | .integer value => some (toString value)
  | .float value => some value.text
  | .text s => some s
  | .nil | .list _ | .table _ => none

end Setting

end WebIdl
