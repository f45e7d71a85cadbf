import RowFilter.Number.Binary64

/-!
# Floating-point numbers as exact numbers

A finite 64-bit floating-point number is an integer times a power of two. Truncation and
remainder are computed on that form, where they are exact.
-/

namespace RowFilter.Number

/-- The number `mantissa * 2 ^ exponent`, or its opposite. -/
structure Dyadic where
  negative : Bool
  mantissa : Nat
  exponent : Int
deriving Repr

/-- What a floating-point number stands for. -/
inductive Magnitude where
  | nan
  | infinite (negative : Bool)
  | finite (value : Dyadic)

/-- Reads the fields of a floating-point number. -/
def magnitude (x : Binary64) : Magnitude :=
  if x.isNaN then .nan
  else if !x.isFinite then .infinite x.isNegative
  else if x.exponentField == 0 then .finite ⟨x.isNegative, x.fractionField, -1074⟩
  else
    .finite ⟨x.isNegative, Binary64.hiddenBit + x.fractionField, (x.exponentField : Int) - 1075⟩

/-- The floating-point number of an exact number that has one. The mantissa is brought to 53
bits, or to the least exponent. -/
def ofDyadic (d : Dyadic) : Binary64 :=
  let sign : Nat := if d.negative then 1 <<< 63 else 0
  if d.mantissa == 0 then ⟨UInt64.ofNat sign⟩
  else
    let exponent := max (-1074) (d.exponent + (Nat.log2 d.mantissa : Int) - 52)
    let shift := d.exponent - exponent
    let mantissa : Nat :=
      if 0 ≤ shift then d.mantissa <<< shift.toNat else d.mantissa >>> (-shift).toNat
    if mantissa < Binary64.hiddenBit then ⟨UInt64.ofNat (sign + mantissa)⟩
    else
      let biased := (exponent + 1075).toNat
      ⟨UInt64.ofNat (sign + (biased <<< 52) + (mantissa - Binary64.hiddenBit))⟩

/-- The integer part of the absolute value. -/
def Dyadic.wholePart (d : Dyadic) : Nat :=
  if 0 ≤ d.exponent then d.mantissa <<< d.exponent.toNat
  else d.mantissa >>> (-d.exponent).toNat

/-- The integer part, toward zero, of a floating-point number. It is cut off at the bounds, and
what is not a number counts as zero. -/
def truncateTo (low high : Int) (x : Binary64) : Int :=
  match magnitude x with
  | .nan => 0
  | .infinite negative => if negative then low else high
  | .finite d =>
    let whole : Int := if d.negative then -(d.wholePart : Int) else d.wholePart
    max low (min high whole)

/-- The integer part of a floating-point number, cut off at the 64-bit range. -/
def truncate (x : Binary64) : Int64 :=
  Int64.ofInt (truncateTo (-9223372036854775808) 9223372036854775807 x)

/-- The integer part of a floating-point number as a count. -/
def truncateToCount (x : Binary64) : Nat :=
  (truncateTo 0 18446744073709551615 x).toNat

/-- The remainder of a division whose quotient is cut toward zero, computed exactly; it has the
sign of the dividend. -/
def remainder (x y : Binary64) : Binary64 :=
  match magnitude x, magnitude y with
  | .finite a, .finite b =>
    if b.mantissa == 0 then .nan
    else
      let exponent := min a.exponent b.exponent
      let scaled : Dyadic → Nat := fun d => d.mantissa <<< (d.exponent - exponent).toNat
      ofDyadic ⟨a.negative, scaled a % scaled b, exponent⟩
  | .finite _, .infinite _ => x
  | _, _ => .nan

end RowFilter.Number
