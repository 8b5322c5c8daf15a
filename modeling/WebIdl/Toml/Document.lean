import WebIdl.Toml.Scalar

/-!
# TOML documents

A document is read line by line: headers, which say what table the following keys go into, and keys
with their values. A key is set once, and a table has one header.
-/

namespace WebIdl.Toml

/-! ### Blanks and comments -/

/-- A comment, up to the end of its line. -/
def skipComment : List Char → Option (List Char)
  | '#' :: rest =>
    let left := rest.dropWhile isPlain
    match left with
    | [] => some []
    | _ => if (readNewline left).isSome then some left else none
  | cs => some cs

/-- The rest of a line: blanks, a comment, and the line end or the end of the text. -/
def endLine (cs : List Char) : Option (List Char) := do
  let cs ← skipComment (skipSpace cs)
  if cs.isEmpty then return [] else readNewline cs

/-- Blanks, comments and line ends between the items of an array; every step reads a line end. -/
def skipLines : Nat → List Char → Option (List Char)
  | 0, cs => some cs
  | bound + 1, cs => do
    let cs ← skipComment (skipSpace cs)
    match readNewline cs with
    | some rest => skipLines bound rest
    | none => return cs

/-! ### Keys -/

def readSimpleKey (cs : List Char) : Option (String × List Char) :=
  match cs with
  | '"' :: rest => do
    let (key, rest) ← readBasic (rest.length + 1) rest
    return (String.ofList key, rest)
  | '\x27' :: rest => do
    let (key, rest) ← readLiteral rest
    return (String.ofList key, rest)
  | cs =>
    match cs.takeWhile isBareKeyChar with
    | [] => none
    | key => some (String.ofList key, cs.dropWhile isBareKeyChar)

/-- Keys with dots between them; every step reads a key. -/
def readKeyUpTo : Nat → List Char → Option (List String × List Char)
  | 0, _ => none
  | bound + 1, cs => do
    let (key, cs) ← readSimpleKey (skipSpace cs)
    match skipSpace cs with
    | '.' :: rest => do
      let (keys, rest) ← readKeyUpTo bound rest
      return (key :: keys, rest)
    | rest => return ([key], rest)

/-- How many arrays and inline tables may stand inside each other, and how many parts a key may
have. -/
def depthLimit : Nat := 79

def readKey (cs : List Char) : Option (List String × List Char) := do
  let (keys, rest) ← readKeyUpTo (cs.length + 1) cs
  if depthLimit < keys.length then none else some (keys, rest)

/-! ### Values -/

mutual

/-- A value with at most `depth` arrays and inline tables inside each other. Each step reads a
character or goes one rule down. -/
def readValue (depth : Nat) : Nat → List Char → Option (Value × List Char)
  | 0, _ => none
  | bound + 1, cs =>
    match cs with
    | '[' :: rest => do
      if depth = 0 then none
      let (items, rest) ← readItems (depth - 1) bound rest
      return (.array items, rest)
    | '{' :: rest => do
      if depth = 0 then none
      match skipSpace rest with
      | '}' :: rest => some (.table [], rest)
      | rest =>
        let (entries, rest) ← readEntries (depth - 1) bound [] rest
        return (.table (Node.entryValues entries), rest)
    | '"' :: _ | '\x27' :: _ => do
      let (text, rest) ← readString cs
      return (.string text, rest)
    | cs => readBare cs

/-- The items of an array with its closing bracket. A comma may follow the last item. -/
def readItems (depth : Nat) : Nat → List Char → Option (List Value × List Char)
  | 0, _ => none
  | bound + 1, cs => do
    match ← skipLines cs.length cs with
    | ']' :: rest => return ([], rest)
    | cs =>
      let (item, cs) ← readValue depth bound cs
      match ← skipLines cs.length cs with
      | ']' :: rest => return ([item], rest)
      | ',' :: rest =>
        let (items, rest) ← readItems depth bound rest
        return (item :: items, rest)
      | _ => none

/-- The entries of an inline table after those that are read already, with its closing brace. -/
def readEntries (depth : Nat) :
    Nat → List (String × Node) → List Char → Option (List (String × Node) × List Char)
  | 0, _, _ => none
  | bound + 1, entries, cs => do
    let (key, cs) ← readKey cs
    let cs ← expectChar '=' (skipSpace cs)
    let (value, cs) ← readValue depth bound (skipSpace cs)
    let entries ← Node.assign value key entries
    match skipSpace cs with
    | '}' :: rest => return (entries, rest)
    | ',' :: rest => readEntries depth bound entries rest
    | _ => none

end

/-! ### Lines -/

/-- What has been read: the tree, and the header that keys now go under. -/
structure State where
  root : List (String × Node)
  header : List String

/-- A header in brackets, or in two pairs for a further table of an array. -/
def readHeader (state : State) : List Char → Option (State × List Char)
  | '[' :: '[' :: rest => do
    let (key, rest) ← readKey rest
    let rest ← expectChar ']' (← expectChar ']' (skipSpace rest))
    return (⟨← Node.along Node.grow key state.root, key⟩, rest)
  | '[' :: rest => do
    let (key, rest) ← readKey rest
    let rest ← expectChar ']' (skipSpace rest)
    return (⟨← Node.along Node.head key state.root, key⟩, rest)
  | _ => none

def readAssignment (state : State) (cs : List Char) : Option (State × List Char) := do
  let (key, rest) ← readKey cs
  let rest ← expectChar '=' (skipSpace rest)
  let (value, rest) ← readValue depthLimit (2 * rest.length + 2) (skipSpace rest)
  return ({ state with root := ← Node.assignIn value key state.header state.root }, rest)

/-- All lines of a text, at most `bound`. -/
def readLines : Nat → State → List Char → Option State
  | 0, state, cs => if cs.isEmpty then some state else none
  | bound + 1, state, cs =>
    match skipSpace cs with
    | [] => some state
    | '[' :: rest => do
      let (state, rest) ← readHeader state ('[' :: rest)
      readLines bound state (← endLine rest)
    | c :: rest =>
      if c == '#' || c == '\n' || c == '\r' then do
        readLines bound state (← endLine (c :: rest))
      else do
        let (state, rest) ← readAssignment state (c :: rest)
        readLines bound state (← endLine rest)

/-- A byte order mark at the front does not count. -/
def dropMark : List Char → List Char
  | '\uFEFF' :: rest => rest
  | cs => cs

/-- The entries of a document, in order. -/
def parse? (text : String) : Option (List (String × Value)) := do
  let cs := dropMark text.toList
  let state ← readLines (cs.length + 1) ⟨[], []⟩ cs
  return Node.entryValues state.root

end WebIdl.Toml
