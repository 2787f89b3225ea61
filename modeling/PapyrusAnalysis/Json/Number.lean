import PapyrusAnalysis.Json.Reader

/-!
# Numbers as doubles

A number is read in two steps, each of which rounds to the nearest double: its significand, of which
as many digits count as fit in 64 bits, and the product or quotient of that and a power of ten. The
result can thus differ in its last place from the double nearest to the number. Numbers beyond the
largest double have none.

## Main definitions

* `Json.Decimal`: a significand and a power of ten.
* `Json.Decimal.toFloat?`: the double of a decimal.
* `Json.toFloat?`: the double of a document that is a number.
-/

namespace PapyrusAnalysis.Json

/-- The value of a decimal digit. -/
def digitValue (c : Char) : Nat := c.toNat - '0'.toNat

/-- The number that some digits write. -/
def digitsValue (digits : List Char) : Nat := digits.foldl (fun n c => n * 10 + digitValue c) 0

/-- The number `significand * 10 ^ exponent`. -/
structure Decimal where
  significand : Nat
  exponent : Int
deriving DecidableEq, Repr

namespace Decimal

/-- Significands are below this. -/
def limit : Nat := Nat.pow 2 64

/-- Puts digits behind a significand up to the first that does not fit, and gives the digits that
are left. -/
def extend (significand : Nat) : List Char → Nat × List Char
  | [] => (significand, [])
  | c :: digits =>
    let longer := significand * 10 + digitValue c
    if longer < limit then extend longer digits else (significand, c :: digits)

/-- The decimal with some digits before and behind the point. A digit before the point that does
not fit counts for its place only, and one behind the point for nothing. -/
def ofDigits (whole fraction : List Char) (exponent : Int) : Decimal :=
  let (significand, dropped) := extend 0 whole
  let (significand, unread) := extend significand fraction
  ⟨significand, exponent + dropped.length - (fraction.length - unread.length : Nat)⟩

/-- The value of an exponent with its mark. -/
def exponentValue : List Char → Int
  | _ :: '-' :: digits => -digitsValue digits
  | _ :: '+' :: digits => digitsValue digits
  | _ :: digits => digitsValue digits
  | [] => 0

/-- The decimal that a number without sign writes. -/
def read? (text : List Char) : Option Decimal := do
  let (whole, rest) ← readWhole text
  let (fraction, rest) ← readFraction rest
  let (exponent, _) ← readExponent rest
  return ofDigits whole (fraction.drop 1) (exponentValue exponent)

/-- The exponent of the largest power of ten that is a double. -/
def largestPower : Nat := 308

def powerOfTen (n : Nat) : Float := .ofScientific 1 false n

/-- A double divided by a power of ten, in several steps if that power is no double. -/
def shrink (value : Float) (power : Nat) : Float :=
  if power ≤ largestPower then value / powerOfTen power
  else if value == 0 then value
  else shrink (value / powerOfTen largestPower) (power - largestPower)
termination_by power
decreasing_by simp only [largestPower] at *; omega

/-- A double multiplied by a power of ten, unless the product is too large. -/
def grow? (value : Float) (power : Nat) : Option Float :=
  if power ≤ largestPower then
    let product := value * powerOfTen power
    if product.isInf then none else some product
  else if value == 0 then some value
  else none

/-- The double of a decimal, unless it is too large. -/
def toFloat? (d : Decimal) : Option Float :=
  let value := d.significand.toUInt64.toFloat
  match d.exponent with
  | .ofNat power => grow? value power
  | .negSucc power => some (shrink value (power + 1))

end Decimal

/-- The double of a number, whose zero has a sign too. -/
def toFloat? : Json → Option Float
  | number text =>
    match text.toList with
    | '-' :: digits => do return -(← (← Decimal.read? digits).toFloat?)
    | digits => do (← Decimal.read? digits).toFloat?
  | _ => none

end PapyrusAnalysis.Json
