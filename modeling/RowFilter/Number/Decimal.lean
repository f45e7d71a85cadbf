import RowFilter.Number.Dyadic
import RowFilter.Number.Integer

/-!
# Decimal text of floating-point numbers

A finite number is written with the fewest digits that read back as the same number, always in
positional notation. Reading takes digits with an optional point and an optional exponent, or
the names of infinity and of what is not a number.
-/

namespace RowFilter.Number

/-- A positive number `digits * 10 ^ exponent`. -/
structure Decimal where
  digits : Nat
  exponent : Int
deriving Repr

/-- A positive rational number. -/
structure Ratio where
  num : Nat
  den : Nat

/-- `n * base ^ exponent` as a ratio. -/
def Ratio.scaled (n base : Nat) (exponent : Int) : Ratio :=
  if 0 ≤ exponent then ⟨n * base.pow exponent.toNat, 1⟩ else ⟨n, base.pow (-exponent).toNat⟩

/-- The sign of the difference of two ratios. -/
def Ratio.order (a b : Ratio) : Ordering :=
  compare (a.num * b.den) (b.num * a.den)

/-- The value of a word without a sign as a multiple of 2^-1074. -/
def units (word : Nat) : Nat :=
  if word < Binary64.hiddenBit then word
  else (Binary64.hiddenBit + word % Binary64.hiddenBit) <<< (word / Binary64.hiddenBit - 1)

/-- The number halfway between the numbers of a word and of the next one. -/
def midpoint (word : Nat) : Ratio :=
  ⟨units word + units (word + 1), 1 <<< 1075⟩

/-- The numbers that round to a positive floating-point number: it stands between the midpoints
to its neighbours, and both of these belong to it when its word is even. -/
structure RoundingInterval where
  low : Ratio
  value : Ratio
  high : Ratio
  closed : Bool

def RoundingInterval.of (word : Nat) : RoundingInterval where
  low := midpoint (word - 1)
  value := ⟨2 * units word, 1 <<< 1075⟩
  high := midpoint word
  closed := word % 2 == 0

def RoundingInterval.contains (interval : RoundingInterval) (r : Ratio) : Bool :=
  match interval.low.order r, r.order interval.high with
  | .lt, .lt => true
  | .gt, _ => false
  | _, .gt => false
  | _, _ => interval.closed

/-- The exponent of ten of the leading digit, searched upward from an estimate. -/
def leadingExponent (r : Ratio) : Nat → Int → Int
  | 0, guess => guess
  | fuel + 1, guess =>
    match (Ratio.scaled 1 10 (guess + 1)).order r with
    | .gt => guess
    | _ => leadingExponent r fuel (guess + 1)

/-- The exponent of ten of the leading digit of a ratio. The estimate from the lengths of its
terms in bits is below it by at most a few. -/
def Ratio.magnitude (r : Ratio) : Int :=
  let bits : Int := (Nat.log2 r.num : Int) - (Nat.log2 r.den : Int)
  leadingExponent r 8 (((bits - 1) * 30103).fdiv 100000 - 1)

/-- The nearest point of a decimal grid that lies in the interval, of two equally near ones the
upper. -/
def RoundingInterval.onGrid? (interval : RoundingInterval) (exponent : Int) : Option Decimal :=
  let unit := Ratio.scaled 1 10 exponent
  let below := (interval.value.num * unit.den) / (interval.value.den * unit.num)
  let lower := Ratio.scaled below 10 exponent
  let upper := Ratio.scaled (below + 1) 10 exponent
  let middle : Ratio := ⟨lower.num * upper.den + upper.num * lower.den, 2 * lower.den * upper.den⟩
  match interval.contains lower, interval.contains upper with
  | true, true =>
    if interval.value.order middle == .lt then some ⟨below, exponent⟩
    else some ⟨below + 1, exponent⟩
  | true, false => some ⟨below, exponent⟩
  | false, true => some ⟨below + 1, exponent⟩
  | false, false => none

/-- The point of the first grid, from coarse to fine, that has one in the interval. The last grid
has the number itself if it is as fine as the least floating-point number. -/
def RoundingInterval.search (interval : RoundingInterval) : Nat → Int → Decimal
  | 0, exponent =>
    ⟨(interval.value.num * Nat.pow 10 (-exponent).toNat) / interval.value.den, exponent⟩
  | fuel + 1, exponent =>
    (interval.onGrid? exponent).getD (interval.search fuel (exponent - 1))

/-- The decimal of fewest digits that reads back as the positive number of a word. -/
def shortest (word : Nat) : Decimal :=
  let interval := RoundingInterval.of word
  let coarsest := interval.value.magnitude + 1
  interval.search (coarsest + 1074).toNat coarsest

/-- A positive decimal in positional notation, without a point if it is whole. -/
def Decimal.text (d : Decimal) : List Char :=
  let digits := natText d.digits
  if 0 ≤ d.exponent then digits ++ List.replicate d.exponent.toNat '0'
  else
    let places := (-d.exponent).toNat
    let padded := List.replicate (places + 1 - digits.length) '0' ++ digits
    let whole := padded.take (padded.length - places)
    let fraction := (padded.drop (padded.length - places)).reverse.dropWhile (· == '0')
    if fraction.isEmpty then whole else whole ++ '.' :: fraction.reverse

/-- The decimal text of a floating-point number. -/
def floatText (x : Binary64) : String :=
  match magnitude x with
  | .nan => "NaN"
  | .infinite negative => if negative then "-inf" else "inf"
  | .finite d =>
    let digits := if d.mantissa == 0 then ['0'] else (shortest x.absolute).text
    String.ofList (if d.negative then '-' :: digits else digits)

/-- Whether a ratio rounds to what is above a midpoint. On the midpoint it does if what is below is
odd. -/
def Ratio.roundsAbove (middle : Ratio) (odd : Bool) (r : Ratio) : Bool :=
  match middle.order r with
  | .lt => true
  | .eq => odd
  | .gt => false

/-- Whether a ratio rounds to a word after this one. -/
def roundsBeyond (word : Nat) (r : Ratio) : Bool :=
  (midpoint word).roundsAbove (word % 2 == 1) r

/-- The first word that is not passed, found bit by bit from above. -/
def climb (passes : Nat → Bool) : Nat → Nat → Nat
  | 0, word => word
  | bit + 1, word =>
    let next := word + (1 <<< bit)
    climb passes bit (if passes (next - 1) then next else word)

/-- The floating-point number nearest to a ratio, of two equally near ones the even one. -/
def Ratio.round (r : Ratio) : Binary64 :=
  let word := climb (fun word => roundsBeyond word r) 63 0
  ⟨UInt64.ofNat (min Binary64.infinity.bits.toNat word)⟩

/-- The floating-point number nearest to an integer, of two equally near ones the even one. -/
def Binary64.ofInt64 (n : Int64) : Binary64 :=
  let magnitude := (Ratio.mk n.toInt.natAbs 1).round
  if n.toInt < 0 then -magnitude else magnitude

/-- The floating-point number nearest to the number of some digits times a power of ten. Exponents
that are out of reach for the digits after the leading zeros are not multiplied out. -/
def nearest (digits : List Char) (exponent : Int) : Binary64 :=
  let significant := digits.dropWhile (· == '0')
  let magnitude := exponent + significant.length
  if significant.isEmpty then .zero
  else if 400 < magnitude then .infinity
  else if magnitude < -400 then .zero
  else (Ratio.scaled (digitsValue significant) 10 exponent).round

/-- The number written by the digits of an exponent. Once it has passed 65535, which only a text
of that many digits could make up for, further digits do not count. -/
def exponentValue (digits : List Char) : Nat :=
  digits.foldl (fun n c => if n < 65536 then n * 10 + digitValue c else n) 0

/-- Reads the digits of an exponent, at least one, up to the end. -/
def readExponentDigits? (text : List Char) : Option Int :=
  if text.isEmpty || !text.all Char.isDigit then none else some (exponentValue text)

/-- Reads an exponent mark with an optional sign and digits, up to the end. Without a mark the
exponent is zero. -/
def readExponent? : List Char → Option Int
  | [] => some 0
  | mark :: rest =>
    if mark == 'e' || mark == 'E' then
      match rest with
      | '-' :: digits => (readExponentDigits? digits).map Int.neg
      | '+' :: digits => readExponentDigits? digits
      | digits => readExponentDigits? digits
    else none

/-- Reads digits with an optional point, at least one digit in all, and an optional exponent. -/
def readDecimal? (text : List Char) : Option Binary64 :=
  let whole := text.takeWhile Char.isDigit
  let afterWhole := text.dropWhile Char.isDigit
  let (fraction, rest) := match afterWhole with
    | '.' :: more => (more.takeWhile Char.isDigit, more.dropWhile Char.isDigit)
    | _ => ([], afterWhole)
  let digits := whole ++ fraction
  if digits.isEmpty then none
  else (readExponent? rest).map fun exponent => nearest digits (exponent - fraction.length)

/-- Reads a decimal, or a name of infinity or of what is not a number in any case. -/
def readMagnitude? (text : List Char) : Option Binary64 :=
  let name := String.ofList (text.map Char.toLower)
  if name == "inf" || name == "infinity" then some .infinity
  else if name == "nan" then some .nan
  else readDecimal? text

/-- Reads a floating-point number after an optional sign. -/
def readFloat? : List Char → Option Binary64
  | '-' :: rest => (readMagnitude? rest).map Binary64.neg
  | '+' :: rest => readMagnitude? rest
  | text => readMagnitude? text

end RowFilter.Number
