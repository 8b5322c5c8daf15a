/-!
# JSON values

JSON as data. The members of an object keep their order and may repeat a name; a number keeps its
text. A string escape may spell half of a surrogate pair, and such a string stands for no text. It
spoils the object that it names a member of, and nothing around that.
-/

namespace WebIdl

inductive Json where
  | null
  | bool (value : Bool)
  | number (text : String)
  | string (text : String)
  /-- A string with an unpaired surrogate, or an object with such a name. -/
  | unpaired
  | array (items : List Json)
  | object (members : List (String × Json))

namespace Json

def ofNat (n : Nat) : Json := .number (toString n)

def ofOption {α : Type} (f : α → Json) : Option α → Json
  | some a => f a
  | none => .null

def ofList {α : Type} (f : α → Json) (as : List α) : Json := .array (as.map f)

/-- Every value given to a name in an object, in order. -/
def valuesOf (name : String) (members : List (String × Json)) : List Json :=
  (members.filter (·.1 == name)).map (·.2)

/-- The value of a member; of a repeated name, the last. -/
def get? (name : String) : Json → Option Json
  | .object members => (valuesOf name members).getLast?
  | _ => none

def string? : Json → Option String
  | .string text => some text
  | _ => none

def bool? : Json → Option Bool
  | .bool value => some value
  | _ => none

def array? : Json → Option (List Json)
  | .array items => some items
  | _ => none

/-- A number without sign, fraction and exponent. -/
def nat? : Json → Option Nat
  | .number text => text.toNat?
  | _ => none

end Json

end WebIdl
