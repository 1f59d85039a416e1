/-! Floating-point numbers of 64 bits, their value in exact arithmetic, the number nearest to a
decimal, and the shortest decimal that reads back. -/
namespace SignatureIndex

/-- A floating-point number. A finite one has the value `mantissa * 2 ^ exponent`, with a mantissa
below `2 ^ 53` and an exponent of at least `-1074`; the mantissa is at least `2 ^ 52` unless the
exponent is the least one. -/
inductive Binary64 where
  | nan
  | infinite (negative : Bool)
  | finite (negative : Bool) (mantissa : Nat) (exponent : Int)
  deriving DecidableEq, Repr

namespace Binary64

def leastExponent : Int := -1074

/-- Zero with a sign. -/
def zero (negative : Bool) : Binary64 := .finite negative 0 leastExponent

/-- A power of a base with an exponent that may be negative, as numerator and denominator. -/
def power (base : Nat) (exponent : Int) : Nat × Nat :=
  if exponent < 0 then (1, base.pow exponent.natAbs) else (base.pow exponent.toNat, 1)

/-- The quotient rounded to the nearest whole number, a tie to the even one. -/
def roundDiv (numerator denominator : Nat) : Nat :=
  let quotient := numerator / denominator
  let twice := 2 * (numerator % denominator)
  if twice > denominator ∨ (twice = denominator ∧ quotient % 2 = 1) then quotient + 1
  else quotient

/-- The largest exponent of two whose power is at most a positive quotient. -/
def floorLog2 (numerator denominator : Nat) : Int :=
  let guess : Int := (numerator.log2 : Int) - denominator.log2
  let (p, q) := power 2 guess
  if p * denominator ≤ numerator * q then guess else guess - 1

def ofQuotient (negative : Bool) (numerator denominator : Nat) : Binary64 :=
  let exponent := max (floorLog2 numerator denominator - 52) leastExponent
  let (p, q) := power 2 exponent
  let mantissa := roundDiv (numerator * q) (denominator * p)
  let (mantissa, exponent) :=
    if mantissa = 0x20000000000000 then (0x10000000000000, exponent + 1) else (mantissa, exponent)
  if exponent > 971 then .infinite negative else .finite negative mantissa exponent

/-- The number nearest to `digits * 10 ^ exponent`. Decimals far outside the range are settled by
their size, without the power. -/
def ofDecimal (negative : Bool) (digits : Nat) (exponent : Int) : Binary64 :=
  if digits = 0 then zero negative
  else
    let size : Int := (Nat.toDigits 10 digits).length + exponent
    if size > 310 then .infinite negative
    else if size < -330 then zero negative
    else
      let (p, q) := power 10 exponent
      ofQuotient negative (digits * p) q

/-- A decimal `digits * 10 ^ exponent`. -/
structure Decimal where
  digits : Nat
  exponent : Int

/-- Whether a decimal is read back as the finite number with this mantissa and exponent, and its
distance from it as a quotient. Numbers between the two nearest halves are read back; the halves
themselves only for an even mantissa. The half below a power of two is nearer. -/
def reads (mantissa : Nat) (exponent : Int) (decimal : Decimal) : Bool :=
  let (p, q) := power 10 decimal.exponent
  let (b, d) := power 2 (exponent - 2)
  -- both sides in units of a quarter of the last place
  let value := decimal.digits * p * d
  let unit := q * b
  let below := if mantissa = 0x10000000000000 ∧ exponent > leastExponent then 1 else 2
  let low := (4 * mantissa - below) * unit
  let high := (4 * mantissa + 2) * unit
  if mantissa % 2 = 0 then decide (low ≤ value ∧ value ≤ high)
  else decide (low < value ∧ value < high)

/-- The exponent of ten just above a positive quotient: the least `k` with a quotient below
`10 ^ k`, looked for from a start that is not above it. -/
def decimalSize (numerator denominator : Nat) (start : Int) : Nat → Int
  | 0 => start
  | bound + 1 =>
    let (p, q) := power 10 start
    if numerator * q < denominator * p then start
    else decimalSize numerator denominator (start + 1) bound

/-- The decimal with a number of digits that is nearest to a quotient and reads back, if one
does. -/
def withDigits? (mantissa : Nat) (exponent : Int) (size : Int) (count : Nat) : Option Decimal :=
  let step := size - count
  let (b, d) := power 2 exponent
  let (p, q) := power 10 step
  let numerator := mantissa * b * q
  let denominator := d * p
  let below := numerator / denominator
  let twice := 2 * (numerator % denominator)
  let near := roundDiv numerator denominator
  let far := if near = below then below + 1 else below
  if reads mantissa exponent ⟨near, step⟩ then some ⟨near, step⟩
  else if twice ≠ 0 ∧ reads mantissa exponent ⟨far, step⟩ then some ⟨far, step⟩
  else none

/-- Divides out the tens that a decimal's digits hold, at most `bound` of them. -/
def Decimal.reduce (decimal : Decimal) : Nat → Decimal
  | 0 => decimal
  | bound + 1 =>
    if decimal.digits % 10 = 0 then
      Decimal.reduce ⟨decimal.digits / 10, decimal.exponent + 1⟩ bound
    else decimal

/-- The shortest decimal that reads back as a positive finite number, and of those the nearest. -/
def shortest (mantissa : Nat) (exponent : Int) : Decimal :=
  let (b, d) := power 2 exponent
  let estimate : Int := ((floorLog2 (mantissa * b) d) * 30103) / 100000 - 1
  let size := decimalSize (mantissa * b) d estimate 8
  let found := (List.range' 1 17).findSome? fun count => withDigits? mantissa exponent size count
  (found.getD ⟨mantissa, exponent⟩).reduce 20

/-- How a floating-point number is written: from which size on, and down to which size, a number
is written without an exponent, and how an exponent is written. The size of a number is the
exponent of ten just above it. -/
structure Layout where
  largestPlain : Int
  smallestPlain : Int
  exponent : Int → String
  nan : String
  infinity : String

/-- Digits with a point after the first `size` of them, both parts filled up with zeros. -/
def plainText (digits : List Char) (size : Int) : String :=
  let count : Int := digits.length
  if size ≤ 0 then String.ofList ("0.".toList ++ List.replicate size.natAbs '0' ++ digits)
  else if size < count then
    String.ofList (digits.take size.toNat ++ '.' :: digits.drop size.toNat)
  else String.ofList (digits ++ List.replicate (size - count).toNat '0' ++ ".0".toList)

def exponentText (digits : List Char) (exponent : String) : String :=
  match digits with
  | [] => exponent
  | [digit] => String.ofList [digit] ++ exponent
  | digit :: more => String.ofList (digit :: '.' :: more) ++ exponent

def render (layout : Layout) : Binary64 → String
  | .nan => layout.nan
  | .infinite negative => (if negative then "-" else "") ++ layout.infinity
  | .finite negative mantissa exponent =>
    let sign := if negative then "-" else ""
    if mantissa = 0 then sign ++ "0.0"
    else
      let decimal := shortest mantissa exponent
      let digits := Nat.toDigits 10 decimal.digits
      let size : Int := digits.length + decimal.exponent
      if layout.smallestPlain ≤ size ∧ size ≤ layout.largestPlain then
        sign ++ plainText digits size
      else sign ++ exponentText digits (layout.exponent (size - 1))

/-- The whole number that a finite number is equal to, if it is one. -/
def toInt? : Binary64 → Option Int
  | .finite negative mantissa exponent =>
    let (p, q) := power 2 exponent
    if mantissa * p % q = 0 then
      let magnitude : Int := ((mantissa * p / q : Nat) : Int)
      some (if negative then -magnitude else magnitude)
    else none
  | _ => none

end Binary64

end SignatureIndex
