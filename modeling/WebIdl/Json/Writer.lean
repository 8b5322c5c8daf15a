import WebIdl.Json.Value

/-!
# Writing JSON

A value is written on one line, or with every item on a line of its own, indented by two blanks.
Text is written as it is, but for quotes, backslashes and control characters.
-/

namespace WebIdl.Json

/-- The last hexadecimal digit of a number, in lower case. -/
def hexChar (n : Nat) : Char := Nat.digitChar (n % 16)

def escapeChar (c : Char) : List Char :=
  match c with
  | '"' => ['\\', '"']
  | '\\' => ['\\', '\\']
  | '\n' => ['\\', 'n']
  | '\r' => ['\\', 'r']
  | '\t' => ['\\', 't']
  | c =>
    if c.toNat = 0x08 then ['\\', 'b']
    else if c.toNat = 0x0C then ['\\', 'f']
    else if c.toNat < 0x20 then ['\\', 'u', '0', '0', hexChar (c.toNat / 16), hexChar c.toNat]
    else [c]

def quote (text : String) : String :=
  "\"" ++ String.ofList (text.toList.flatMap escapeChar) ++ "\""

/-- A value that is neither an array nor an object with something in it. -/
def writeScalar : Json → String
  | .null => "null"
  | .bool true => "true"
  | .bool false => "false"
  | .number text => text
  | .string text => quote text
  | .unpaired => "null"
  | .array _ => "[]"
  | .object _ => "\x7b\x7d"

mutual

/-- A value on one line, without blanks. -/
def compact : Json → String
  | .array (item :: items) => "[" ++ compact item ++ compactItems items
  | .object ((name, value) :: members) =>
    "\x7b" ++ quote name ++ ":" ++ compact value ++ compactMembers members
  | value => writeScalar value

/-- The items after the first, with the closing bracket. -/
def compactItems : List Json → String
  | [] => "]"
  | item :: items => "," ++ compact item ++ compactItems items

def compactMembers : List (String × Json) → String
  | [] => "\x7d"
  | (name, value) :: members =>
    "," ++ quote name ++ ":" ++ compact value ++ compactMembers members

end

/-- A line end and the indentation after it. -/
def newline (depth : Nat) : String := "\n".pushn ' ' (2 * depth)

mutual

/-- A value over several lines, for a place that is indented by `depth`. -/
def prettyAt (depth : Nat) : Json → String
  | .array (item :: items) =>
    "[" ++ newline (depth + 1) ++ prettyAt (depth + 1) item ++ prettyItems depth items
  | .object ((name, value) :: members) =>
    "\x7b" ++ newline (depth + 1) ++ quote name ++ ": " ++ prettyAt (depth + 1) value
      ++ prettyMembers depth members
  | value => writeScalar value

def prettyItems (depth : Nat) : List Json → String
  | [] => newline depth ++ "]"
  | item :: items =>
    "," ++ newline (depth + 1) ++ prettyAt (depth + 1) item ++ prettyItems depth items

def prettyMembers (depth : Nat) : List (String × Json) → String
  | [] => newline depth ++ "\x7d"
  | (name, value) :: members =>
    "," ++ newline (depth + 1) ++ quote name ++ ": " ++ prettyAt (depth + 1) value
      ++ prettyMembers depth members

end

/-- A value over several lines. -/
def pretty (value : Json) : String := prettyAt 0 value

end WebIdl.Json
