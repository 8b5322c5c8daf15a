/-!
# Decimal numbers in double precision

A decimal number is rounded to the nearest double, ties to even, and a double is written with the
fewest decimal digits that are read back as it. All arithmetic is exact, on numerators and
denominators.
-/

namespace WebIdl.Decimal

/-- A number `significand · 2 ^ exponent` that is not negative. -/
structure Magnitude where
  significand : Nat
  exponent : Int
deriving DecidableEq, Repr

inductive Binary64 where
  | finite (negative : Bool) (magnitude : Magnitude)
  | infinity (negative : Bool)
  | nan
deriving DecidableEq, Repr

/-! ### Rounding -/

/-- A quotient rounded to the nearest integer, a half to the even neighbour. -/
def roundEven (num den : Nat) : Nat :=
  let quotient := num / den
  let twice := 2 * (num % den)
  if den < twice || (twice = den && quotient % 2 = 1) then quotient + 1 else quotient

/-- A quotient times a power of the base, as a numerator and a denominator. -/
def scale (base num den : Nat) (power : Int) : Nat × Nat :=
  match power with
  | .ofNat n => (num * Nat.pow base n, den)
  | .negSucc n => (num, den * Nat.pow base (n + 1))

/-- The exponent that brings a quotient to 53 binary digits, but for the smallest numbers. -/
def binaryExponent (num den : Nat) : Int :=
  let guess := (num.log2 : Int) - den.log2 - 52
  let (n, d) := scale 2 num den (-guess)
  max (-1074) (if n < 0x10000000000000 * d then guess - 1 else guess)

/-- The double nearest to a quotient, or nothing if that is infinite. -/
def nearest (num den : Nat) : Option Magnitude :=
  if num = 0 then some ⟨0, -1074⟩
  else
    let exponent := binaryExponent num den
    let (n, d) := scale 2 num den (-exponent)
    let rounded := roundEven n d
    let (significand, exponent) :=
      if rounded = 0x20000000000000 then (0x10000000000000, exponent + 1) else (rounded, exponent)
    if 971 < exponent then none else some ⟨significand, exponent⟩

/-- The double nearest to `digits · 10 ^ exponent`. Far outside the range of doubles the power is
not worked out. -/
def nearestDecimal (digits : Nat) (exponent : Int) : Option Magnitude :=
  let size := (Nat.toDigits 10 digits).length + exponent
  if digits = 0 || size < -400 then some ⟨0, -1074⟩
  else if 400 < size then none
  else
    let (n, d) := scale 10 digits 1 exponent
    nearest n d

def Binary64.ofDecimal (negative : Bool) (digits : Nat) (exponent : Int) : Binary64 :=
  match nearestDecimal digits exponent with
  | some magnitude => .finite negative magnitude
  | none => .infinity negative

/-! ### Shortest digits -/

namespace Magnitude

/-- The exact value, as a numerator and a denominator. -/
def ratio (m : Magnitude) : Nat × Nat := scale 2 m.significand 1 m.exponent

/-- The least power of ten, of at most `bound` steps up from `power`, that the value is below. -/
def decimalPoint (m : Magnitude) : Nat → Int → Int
  | 0, power => power
  | bound + 1, power =>
    let (num, den) := m.ratio
    let (n, d) := scale 10 1 1 power
    if num * d < n * den then power else decimalPoint m bound (power + 1)

/-- Digits and exponent on a grid of powers of ten: of the two neighbours of the value, the nearer
one that is read back as it, and the upper one of two that are equally near. -/
def onGrid? (m : Magnitude) (power : Int) : Option (Nat × Int) :=
  let (num, den) := m.ratio
  let (n, d) := scale 10 num den (-power)
  let below := n / d
  let reads := fun digits => nearestDecimal digits power == some m
  let nearer := if 2 * (n % d) < d then below else below + 1
  if reads nearer then some (nearer, power)
  else if reads below then some (below, power)
  else if reads (below + 1) then some (below + 1, power)
  else none

/-- The digits on the coarsest of the grids from `digits` digits on that has any. -/
def shortestFrom (m : Magnitude) (point : Int) : Nat → Nat → Nat × Int
  | 0, _ => (m.significand, 0)
  | bound + 1, digits =>
    match m.onGrid? (point - digits) with
    | some found => found
    | none => shortestFrom m point bound (digits + 1)

def shortest (m : Magnitude) : Nat × Int :=
  shortestFrom m (m.decimalPoint 700 (-340)) 18 1

/-- Digits written without an exponent. -/
def positional (digits : List Char) (power : Int) : String :=
  match power with
  | .ofNat n => String.ofList (digits ++ List.replicate n '0')
  | .negSucc n =>
    let places := n + 1
    let padded := List.replicate (places + 1 - digits.length) '0' ++ digits
    let whole := padded.take (padded.length - places)
    let fraction := padded.drop (padded.length - places)
    String.ofList (whole ++ '.' :: fraction)

def text (m : Magnitude) : String :=
  if m.significand = 0 then "0"
  else
    let (digits, power) := m.shortest
    let reversed := (Nat.toDigits 10 digits).reverse
    let zeros := (reversed.takeWhile (· == '0')).length
    positional (reversed.drop zeros).reverse (power + zeros)

/-- The nearest integer, a half away from zero. -/
def round (m : Magnitude) : Nat :=
  let (num, den) := m.ratio
  (2 * num + den) / (2 * den)

end Magnitude

namespace Binary64

def text : Binary64 → String
  | .finite negative m => (if negative then "-" else "") ++ m.text
  | .infinity negative => if negative then "-inf" else "inf"
  | .nan => "NaN"

def isZero : Binary64 → Bool
  | .finite _ m => m.significand == 0
  | _ => false

/-- The nearest integer between 0 and `top`; what is not a number counts as 0. -/
def roundUpTo (top : Nat) : Binary64 → Nat
  | .finite negative m => if negative then 0 else min top m.round
  | .infinity negative => if negative then 0 else top
  | .nan => 0

end Binary64

end WebIdl.Decimal
