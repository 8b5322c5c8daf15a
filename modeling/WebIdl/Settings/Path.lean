import WebIdl.Settings.Value

/-!
# Setting paths

A dotted key leads from table to table, and a number in brackets to an item of a list. Whatever
stands in the way of a path is replaced.
-/

namespace WebIdl

namespace SettingPath

inductive Step where
  | key (name : String)
  /-- An item, counted from the end if the number is negative. -/
  | index (position : Int)
deriving DecidableEq, Repr

end SettingPath

structure SettingPath where
  root : String
  steps : List SettingPath.Step
deriving DecidableEq, Repr

namespace SettingPath

/-! ### Reading a path -/

def isNameChar (c : Char) : Bool := c.isAlphanum || c == ' ' || c == '_' || c == '-'

/-- A name, and the characters after it. -/
def readName (cs : List Char) : Option (String × List Char) :=
  match cs.takeWhile isNameChar with
  | [] => none
  | name => some (String.ofList name, cs.dropWhile isNameChar)

def skipSpace (cs : List Char) : List Char := cs.dropWhile fun c => c == ' ' || c == '\t'

/-- A number with blanks around it, perhaps negative. -/
def readIndex (cs : List Char) : Option (Int × List Char) := do
  let cs := skipSpace cs
  let (negative, cs) := match cs with
    | '-' :: rest => (true, rest)
    | cs => (false, cs)
  let digits := cs.takeWhile Char.isDigit
  let n ← (String.ofList digits).toNat?
  if digits.isEmpty || 0x8000000000000000 ≤ n then none
  return (if negative then -(n : Int) else n, skipSpace (cs.dropWhile Char.isDigit))

/-- Steps up to the end of the text; every one reads a character. -/
def readSteps : Nat → List Char → Option (List Step)
  | _, [] => some []
  | bound + 1, '.' :: rest => do
    let (name, rest) ← readName rest
    return .key name :: (← readSteps bound rest)
  | bound + 1, '[' :: rest => do
    let (position, rest) ← readIndex rest
    match rest with
    | ']' :: rest => return .index position :: (← readSteps bound rest)
    | _ => none
  | _, _ => none

def parse? (text : String) : Option SettingPath := do
  let (root, rest) ← readName text.toList
  return ⟨root, ← readSteps rest.length rest⟩

/-! ### Following a path -/

/-- The place that an index means in a list of some length. -/
def place (length : Nat) : Int → Nat
  | .ofNat n => n
  | .negSucc n => length - (n + 1)

/-- Changes an item of a list, which grows to have it; anything that is no list becomes one. -/
def updateItem (position : Int) (f : Setting → Setting) (root : Setting) : Setting :=
  let items := match root with
    | .list items => items
    | _ => []
  let n := place items.length position
  .list ((items ++ List.replicate (n + 1 - items.length) .nil).modify n f)

/-- Sets the value at the end of the steps from a place. -/
def setFrom (value : Setting) : List Step → Setting → Setting
  | [], _ => value
  | [.key name], here => Setting.put name value here
  | .key name :: steps, here =>
    .table (Setting.update name (fun old => setFrom value steps (old.getD .nil)) here.entries)
  | .index position :: steps, here => updateItem position (setFrom value steps) here

/-- Sets the value at a path. -/
def set (path : SettingPath) (value root : Setting) : Setting :=
  setFrom value (.key path.root :: path.steps) root

/-- Sets a key that may be the text of a path; if it is none, it is a name as it stands. -/
def setText (key : String) (value root : Setting) : Setting :=
  match parse? key with
  | some path => path.set value root
  | none => Setting.put key value root

end SettingPath

end WebIdl
