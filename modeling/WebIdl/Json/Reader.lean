import WebIdl.Json.Value

/-!
# Reading JSON

Text is read as one JSON value with blanks around it and nothing else. Every rule gives the value
with the characters after it, or nothing where the text is not JSON.
-/

namespace WebIdl.Json

/-- The blanks allowed between tokens. -/
def isGap (c : Char) : Bool := c == ' ' || c == '\n' || c == '\t' || c == '\r'

def skipGap (cs : List Char) : List Char := cs.dropWhile isGap

/-! ### Strings -/

def hexDigit? (c : Char) : Option Nat :=
  if c.isDigit then some (c.toNat - '0'.toNat)
  else if 'a' ≤ c && c ≤ 'f' then some (c.toNat - 'a'.toNat + 10)
  else if 'A' ≤ c && c ≤ 'F' then some (c.toNat - 'A'.toNat + 10)
  else none

/-- The number that four hexadecimal digits spell. -/
def hexUnit? (a b c d : Char) : Option Nat := do
  return (((← hexDigit? a) * 16 + (← hexDigit? b)) * 16 + (← hexDigit? c)) * 16 + (← hexDigit? d)

/-- What a backslash makes of the character after it. -/
def escaped? : Char → Option Nat
  | '"' => some 0x22
  | '\\' => some 0x5C
  | '/' => some 0x2F
  | 'b' => some 0x08
  | 'f' => some 0x0C
  | 'n' => some 0x0A
  | 'r' => some 0x0D
  | 't' => some 0x09
  | _ => none

/-- The characters and escaped code units of a string, from after its opening quote to its closing
one. -/
def readUnits : List Char → Option (List Nat × List Char)
  | [] => none
  | '"' :: rest => some ([], rest)
  | '\\' :: 'u' :: a :: b :: c :: d :: rest => do
    let unit ← hexUnit? a b c d
    let (units, rest) ← readUnits rest
    return (unit :: units, rest)
  | '\\' :: c :: rest => do
    let unit ← escaped? c
    let (units, rest) ← readUnits rest
    return (unit :: units, rest)
  | c :: rest => do
    if c.toNat < 0x20 then none
    let (units, rest) ← readUnits rest
    return (c.toNat :: units, rest)

def isLeading (unit : Nat) : Bool := 0xD800 ≤ unit && unit < 0xDC00

def isTrailing (unit : Nat) : Bool := 0xDC00 ≤ unit && unit < 0xE000

/-- The characters that code units stand for, unless a surrogate is not paired. -/
def charsOfUnits? : List Nat → Option (List Char)
  | [] => some []
  | [unit] => if isLeading unit || isTrailing unit then none else some [Char.ofNat unit]
  | first :: second :: rest =>
    if isLeading first && isTrailing second then do
      let cs ← charsOfUnits? rest
      return Char.ofNat (0x10000 + (first - 0xD800) * 0x400 + (second - 0xDC00)) :: cs
    else if isLeading first || isTrailing first then none
    else do
      let cs ← charsOfUnits? (second :: rest)
      return Char.ofNat first :: cs

/-! ### Numbers -/

/-- One digit or more. -/
def readDigits (cs : List Char) : Option (List Char × List Char) :=
  match cs.takeWhile Char.isDigit with
  | [] => none
  | digits => some (digits, cs.dropWhile Char.isDigit)

/-- Digits without a superfluous zero at the front. -/
def readInteger : List Char → Option (List Char × List Char)
  | '0' :: rest => if rest.head?.any Char.isDigit then none else some (['0'], rest)
  | cs => readDigits cs

def readFraction : List Char → Option (List Char × List Char)
  | '.' :: rest => do
    let (digits, rest) ← readDigits rest
    return ('.' :: digits, rest)
  | cs => some ([], cs)

/-- A sign of an exponent, if there is one. -/
def readSign : List Char → List Char × List Char
  | '+' :: rest => (['+'], rest)
  | '-' :: rest => (['-'], rest)
  | cs => ([], cs)

def readExponent : List Char → Option (List Char × List Char)
  | [] => some ([], [])
  | c :: rest =>
    if c == 'e' || c == 'E' then do
      let (sign, rest) := readSign rest
      let (digits, rest) ← readDigits rest
      return (c :: sign ++ digits, rest)
    else some ([], c :: rest)

/-- A number without its sign. -/
def readMagnitude (cs : List Char) : Option (List Char × List Char) := do
  let (integer, cs) ← readInteger cs
  let (fraction, cs) ← readFraction cs
  let (exponent, cs) ← readExponent cs
  return (integer ++ fraction ++ exponent, cs)

def readNumber : List Char → Option (List Char × List Char)
  | '-' :: rest => do
    let (digits, rest) ← readMagnitude rest
    return ('-' :: digits, rest)
  | cs => readMagnitude cs

/-! ### Values -/

/-- A value that is neither an array nor an object. -/
def readScalar : List Char → Option (Json × List Char)
  | 'n' :: 'u' :: 'l' :: 'l' :: rest => some (.null, rest)
  | 't' :: 'r' :: 'u' :: 'e' :: rest => some (.bool true, rest)
  | 'f' :: 'a' :: 'l' :: 's' :: 'e' :: rest => some (.bool false, rest)
  | '"' :: rest => do
    let (units, rest) ← readUnits rest
    return ((charsOfUnits? units).elim .unpaired fun cs => .string (String.ofList cs), rest)
  | cs => do
    let (text, rest) ← readNumber cs
    return (.number (String.ofList text), rest)

/-- The name of a member, if it stands for text, and the colon after it. -/
def readName : List Char → Option (Option String × List Char)
  | '"' :: rest => do
    let (units, rest) ← readUnits rest
    match skipGap rest with
    | ':' :: rest => return ((charsOfUnits? units).map String.ofList, rest)
    | _ => none
  | _ => none

/-- The members that were read, if all their names stand for text. -/
def named? : List (Option String × Json) → Option (List (String × Json))
  | [] => some []
  | (name, value) :: rest => do return (← name, value) :: (← named? rest)

mutual

/-- A value, blanks before it skipped. Each step reads a character or goes one rule down, so twice
the length of the text bounds the steps. -/
def readValue : Nat → List Char → Option (Json × List Char)
  | 0, _ => none
  | bound + 1, cs =>
    match skipGap cs with
    | '[' :: rest =>
      match skipGap rest with
      | ']' :: rest => some (.array [], rest)
      | rest => do
        let (items, rest) ← readItems bound rest
        return (.array items, rest)
    | '{' :: rest =>
      match skipGap rest with
      | '}' :: rest => some (.object [], rest)
      | rest => do
        let (members, rest) ← readMembers bound rest
        return ((named? members).elim .unpaired .object, rest)
    | cs => readScalar cs

/-- The items of an array that is not empty, with its closing bracket. -/
def readItems : Nat → List Char → Option (List Json × List Char)
  | 0, _ => none
  | bound + 1, cs => do
    let (item, cs) ← readValue bound cs
    match skipGap cs with
    | ']' :: rest => return ([item], rest)
    | ',' :: rest => do
      let (items, rest) ← readItems bound rest
      return (item :: items, rest)
    | _ => none

/-- The members of an object that is not empty, with its closing brace. -/
def readMembers : Nat → List Char → Option (List (Option String × Json) × List Char)
  | 0, _ => none
  | bound + 1, cs => do
    let (name, cs) ← readName (skipGap cs)
    let (value, cs) ← readValue bound cs
    match skipGap cs with
    | '}' :: rest => return ([(name, value)], rest)
    | ',' :: rest => do
      let (members, rest) ← readMembers bound rest
      return ((name, value) :: members, rest)
    | _ => none

end

/-- The value that a whole text spells. -/
def parse? (text : String) : Option Json := do
  let cs := text.toList
  let (value, rest) ← readValue (2 * cs.length + 2) cs
  if (skipGap rest).isEmpty then some value else none

end WebIdl.Json
