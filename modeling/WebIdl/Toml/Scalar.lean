import WebIdl.Toml.Value

/-!
# TOML scalars

Strings, numbers, dates and times. Every rule gives what it read with the characters after it, or
nothing.
-/

namespace WebIdl.Toml

/-! ### Characters -/

/-- Characters that may stand in strings and comments without an escape. -/
def isPlain (c : Char) : Bool := c == '\t' || (0x20 ≤ c.toNat && c.toNat != 0x7F)

def isBareKeyChar (c : Char) : Bool := c.isAlphanum || c == '_' || c == '-'

def isSpace (c : Char) : Bool := c == ' ' || c == '\t'

def skipSpace (cs : List Char) : List Char := cs.dropWhile isSpace

def hexDigit? (c : Char) : Option Nat :=
  if c.isDigit then some (c.toNat - '0'.toNat)
  else if 'a' ≤ c && c ≤ 'f' then some (c.toNat - 'a'.toNat + 10)
  else if 'A' ≤ c && c ≤ 'F' then some (c.toNat - 'A'.toNat + 10)
  else none

/-- The number that digits of a base spell. -/
def numeral? (base : Nat) (digits : List Char) : Option Nat :=
  digits.foldlM (fun n c => do
    let d ← hexDigit? c
    if d < base then some (n * base + d) else none) 0

/-! ### Strings -/

/-- The character of a code point, if it is one. -/
def scalar? (digits : List Char) : Option Char := do
  let n ← numeral? 16 digits
  if n < 0xD800 || (0xE000 ≤ n && n < 0x110000) then some (Char.ofNat n) else none

/-- The character that an escape stands for, after its backslash. -/
def readEscape : List Char → Option (Char × List Char)
  | 'b' :: rest => some ('\x08', rest)
  | 't' :: rest => some ('\t', rest)
  | 'n' :: rest => some ('\n', rest)
  | 'f' :: rest => some ('\x0c', rest)
  | 'r' :: rest => some ('\r', rest)
  | '"' :: rest => some ('"', rest)
  | '\\' :: rest => some ('\\', rest)
  | 'u' :: rest => do
    if rest.length < 4 then none
    return (← scalar? (rest.take 4), rest.drop 4)
  | 'U' :: rest => do
    if rest.length < 8 then none
    return (← scalar? (rest.take 8), rest.drop 8)
  | _ => none

/-- A basic string after its opening quote, on one line; every step reads a character. -/
def readBasic : Nat → List Char → Option (List Char × List Char)
  | 0, _ => none
  | _ + 1, [] => none
  | _ + 1, '"' :: rest => some ([], rest)
  | bound + 1, '\\' :: rest => do
    let (c, rest) ← readEscape rest
    let (cs, rest) ← readBasic bound rest
    return (c :: cs, rest)
  | bound + 1, c :: rest => do
    if !isPlain c then none
    let (cs, rest) ← readBasic bound rest
    return (c :: cs, rest)

/-- A literal string after its opening quote, on one line. -/
def readLiteral : List Char → Option (List Char × List Char)
  | [] => none
  | '\x27' :: rest => some ([], rest)
  | c :: rest => do
    if !isPlain c then none
    let (cs, rest) ← readLiteral rest
    return (c :: cs, rest)

/-- A line end. -/
def readNewline : List Char → Option (List Char)
  | '\n' :: rest => some rest
  | '\r' :: '\n' :: rest => some rest
  | _ => none

/-- Blanks and line ends. -/
def skipBlankLines : List Char → List Char
  | '\r' :: '\n' :: rest => skipBlankLines rest
  | c :: rest => if isSpace c || c == '\n' then skipBlankLines rest else c :: rest
  | [] => []

/-- What follows a backslash that ends a line: the text goes on at the next character that is not
blank. -/
def afterLineEnd? (cs : List Char) : Option (List Char) :=
  (readNewline (skipSpace cs)).map skipBlankLines

/-- The end of a text over several lines: three quotes, with up to two more that belong to it. -/
def readClosing (quote : Char) (cs : List Char) : Option (List Char × List Char) :=
  match (cs.takeWhile (· == quote)).length with
  | 3 => some ([], cs.drop 3)
  | 4 => some ([quote], cs.drop 4)
  | 5 => some ([quote, quote], cs.drop 5)
  | _ => none

/-- A string over several lines after its opening quotes; `escapes` tells whether a backslash means
anything. Every step reads a character. -/
def readMultiline (quote : Char) (escapes : Bool) :
    Nat → List Char → Option (List Char × List Char)
  | 0, _ => none
  | _ + 1, [] => none
  | bound + 1, c :: rest =>
    if c == quote then
      match readClosing quote (c :: rest) with
      | some result => some result
      | none => do
        if 5 < ((c :: rest).takeWhile (· == quote)).length then none
        let (cs, rest) ← readMultiline quote escapes bound rest
        return (c :: cs, rest)
    else if escapes && c == '\\' then
      match afterLineEnd? rest with
      | some rest => readMultiline quote escapes bound rest
      | none => do
        let (e, rest) ← readEscape rest
        let (cs, rest) ← readMultiline quote escapes bound rest
        return (e :: cs, rest)
    else
      match readNewline (c :: rest) with
      | some rest => do
        let (cs, rest) ← readMultiline quote escapes bound rest
        return ('\n' :: cs, rest)
      | none => do
        if !isPlain c then none
        let (cs, rest) ← readMultiline quote escapes bound rest
        return (c :: cs, rest)

/-- A line end right after the opening quotes does not count. -/
def dropFirstNewline (cs : List Char) : List Char := (readNewline cs).getD cs

def readString : List Char → Option (String × List Char)
  | '"' :: '"' :: '"' :: rest => do
    let (cs, rest) ← readMultiline '"' true (rest.length + 1) (dropFirstNewline rest)
    return (String.ofList cs, rest)
  | '\x27' :: '\x27' :: '\x27' :: rest => do
    let (cs, rest) ← readMultiline '\x27' false (rest.length + 1) (dropFirstNewline rest)
    return (String.ofList cs, rest)
  | '"' :: rest => do
    let (cs, rest) ← readBasic (rest.length + 1) rest
    return (String.ofList cs, rest)
  | '\x27' :: rest => do
    let (cs, rest) ← readLiteral rest
    return (String.ofList cs, rest)
  | _ => none

/-! ### Numbers -/

/-- Digits with underscores between them, without the underscores; `afterDigit` tells whether a
digit comes right before. -/
def digitsAfter? (isDigit : Char → Bool) : Bool → List Char → Option (List Char)
  | afterDigit, [] => if afterDigit then some [] else none
  | afterDigit, c :: rest =>
    if isDigit c then (digitsAfter? isDigit true rest).map (c :: ·)
    else if c == '_' && afterDigit then digitsAfter? isDigit false rest
    else none

/-- Digits with single underscores between them, without the underscores. -/
def plainDigits? (isDigit : Char → Bool) (cs : List Char) : Option (List Char) :=
  digitsAfter? isDigit false cs

def isHexDigit (c : Char) : Bool := (hexDigit? c).isSome

def isOctDigit (c : Char) : Bool := '0' ≤ c && c ≤ '7'

def isBinDigit (c : Char) : Bool := c == '0' || c == '1'

/-- An integer of 64 bits. -/
def fits (n : Int) : Option Value :=
  if -0x8000000000000000 ≤ n && n < 0x8000000000000000 then some (.integer n) else none

/-- A sign, and whether it is a minus. -/
def readSign : List Char → Bool × List Char
  | '-' :: rest => (true, rest)
  | '+' :: rest => (false, rest)
  | cs => (false, cs)

/-- Decimal digits without a superfluous zero at the front. -/
def wholeDigits? (cs : List Char) : Option (List Char) := do
  let digits ← plainDigits? Char.isDigit cs
  if digits.head? == some '0' && digits.length != 1 then none else some digits

def decimalInteger? (cs : List Char) : Option Value := do
  let (negative, cs) := readSign cs
  let n ← numeral? 10 (← wholeDigits? cs)
  fits (if negative then -(n : Int) else n)

/-- The parts of a float: before the point, after it, and the exponent. -/
def floatParts? (cs : List Char) : Option (List Char × List Char × Int) := do
  let isMark := fun (c : Char) => c == 'e' || c == 'E'
  let mantissa := cs.takeWhile (!isMark ·)
  let tail := cs.dropWhile (!isMark ·)
  let whole := mantissa.takeWhile (· != '.')
  let fraction ← match mantissa.dropWhile (· != '.') with
    | [] => some []
    | _ :: digits => plainDigits? Char.isDigit digits
  let exponent ← match tail with
    | [] => some 0
    | _ :: tail => do
      let (negative, tail) := readSign tail
      let n ← numeral? 10 (← plainDigits? Char.isDigit tail)
      some (if negative then -(n : Int) else n)
  if fraction.isEmpty && tail.isEmpty then none
  return (← wholeDigits? whole, fraction, exponent)

/-- A float. Digits that are too great to be a double are no float if they are positive. -/
def float? (cs : List Char) : Option Value :=
  let (negative, rest) := readSign cs
  if rest == "inf".toList then some (.float (.infinity negative))
  else if rest == "nan".toList then some (.float .nan)
  else do
    let (whole, fraction, exponent) ← floatParts? rest
    let digits ← numeral? 10 (whole ++ fraction)
    match Decimal.Binary64.ofDecimal negative digits (exponent - fraction.length) with
    | .infinity false => none
    | value => return .float value

def based? (base : Nat) (isDigit : Char → Bool) (cs : List Char) : Option Value := do
  fits (← numeral? base (← plainDigits? isDigit cs))

/-- The number that a whole text spells. -/
def number? (cs : List Char) : Option Value :=
  match cs with
  | '0' :: 'x' :: rest => based? 16 isHexDigit rest
  | '0' :: 'o' :: rest => based? 8 isOctDigit rest
  | '0' :: 'b' :: rest => based? 2 isBinDigit rest
  | cs => decimalInteger? cs <|> float? cs

/-! ### Dates and times -/

/-- A number of exactly `count` digits. -/
def readCount (count : Nat) (cs : List Char) : Option (Nat × List Char) := do
  let digits := cs.take count
  if digits.length < count || !digits.all Char.isDigit then none
  return (← numeral? 10 digits, cs.drop count)

def expectChar (c : Char) : List Char → Option (List Char)
  | d :: rest => if c = d then some rest else none
  | [] => none

def daysIn (year month : Nat) : Nat :=
  if month = 2 then
    if year % 4 = 0 && (year % 100 != 0 || year % 400 = 0) then 29 else 28
  else if [4, 6, 9, 11].contains month then 30 else 31

def pad (width n : Nat) : String :=
  let digits := toString n
  "".pushn '0' (width - digits.length) ++ digits

def readDate (cs : List Char) : Option (String × List Char) := do
  let (year, cs) ← readCount 4 cs
  let (month, cs) ← readCount 2 (← expectChar '-' cs)
  let (day, cs) ← readCount 2 (← expectChar '-' cs)
  if month < 1 || 12 < month || day < 1 || daysIn year month < day then none
  return (pad 4 year ++ "-" ++ pad 2 month ++ "-" ++ pad 2 day, cs)

/-- A part of a second, to nine places and without zeros at its end. -/
def readFraction : List Char → Option (String × List Char)
  | '.' :: rest =>
    match rest.takeWhile Char.isDigit with
    | [] => none
    | digits =>
      let kept := ((digits.take 9).reverse.dropWhile (· == '0')).reverse
      some (if kept.isEmpty then "" else "." ++ String.ofList kept, rest.drop digits.length)
  | cs => some ("", cs)

def readTime (cs : List Char) : Option (String × List Char) := do
  let (hour, cs) ← readCount 2 cs
  let (minute, cs) ← readCount 2 (← expectChar ':' cs)
  let (second, cs) ← readCount 2 (← expectChar ':' cs)
  if 23 < hour || 59 < minute || 60 < second then none
  let (fraction, cs) ← readFraction cs
  return (pad 2 hour ++ ":" ++ pad 2 minute ++ ":" ++ pad 2 second ++ fraction, cs)

/-- The offset of a time from universal time, if there is one. An offset of nothing is positive. -/
def readOffset : List Char → Option (String × List Char)
  | [] => some ("", [])
  | c :: rest => do
    if c == 'Z' || c == 'z' then return ("Z", rest)
    if c != '+' && c != '-' then return ("", c :: rest)
    let (hours, rest) ← readCount 2 rest
    let (minutes, rest) ← readCount 2 (← expectChar ':' rest)
    if 23 < hours || 59 < minutes then none
    let sign := if hours = 0 && minutes = 0 then '+' else c
    return (String.singleton sign ++ pad 2 hours ++ ":" ++ pad 2 minutes, rest)

/-- The character between a date and a time. -/
def isTimeMark (c : Char) : Bool := c == 'T' || c == 't' || c == ' '

def readDateTime (cs : List Char) : Option (String × List Char) := do
  let (date, cs) ← readDate cs
  match cs with
  | mark :: rest =>
    if isTimeMark mark && rest.head?.any Char.isDigit then do
      let (time, rest) ← readTime rest
      let (offset, rest) ← readOffset rest
      return (date ++ "T" ++ time ++ offset, rest)
    else return (date, cs)
  | [] => return (date, [])

/-- A date, a time or both, in the usual form. -/
def readMoment (cs : List Char) : Option (String × List Char) := readDateTime cs <|> readTime cs

/-- The date, the time or both that a whole text spells. -/
def moment? (text : String) : Option String :=
  match readMoment text.toList with
  | some (moment, []) => some moment
  | _ => none

/-! ### Bare scalars -/

/-- The characters of numbers and words. -/
def isWordChar (c : Char) : Bool := c.isAlphanum || c == '_' || c == '-' || c == '+' || c == '.'

/-- A number, a word, a date or a time. -/
def readBare (cs : List Char) : Option (Value × List Char) :=
  let digits := (cs.takeWhile Char.isDigit).length
  let mark := (cs.drop digits).head?
  if (digits == 4 && mark == some '-') || (digits == 2 && mark == some ':') then do
    let (text, rest) ← readMoment cs
    return (.datetime text, rest)
  else do
    let word := cs.takeWhile isWordChar
    let rest := cs.dropWhile isWordChar
    if word == "true".toList then return (.boolean true, rest)
    if word == "false".toList then return (.boolean false, rest)
    return (← number? word, rest)

end WebIdl.Toml
