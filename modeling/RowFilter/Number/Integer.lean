/-!
# Integers

Integers are signed 64-bit words. Arithmetic that leaves their range has no result, and an
integer is written in decimal digits.
-/

namespace RowFilter.Number

/-- The 64-bit integer of a number in range. -/
def int64? (n : Int) : Option Int64 :=
  if -9223372036854775808 ≤ n && n ≤ 9223372036854775807 then some (Int64.ofInt n) else none

def add? (a b : Int64) : Option Int64 :=
  int64? (a.toInt + b.toInt)

def sub? (a b : Int64) : Option Int64 :=
  int64? (a.toInt - b.toInt)

def mul? (a b : Int64) : Option Int64 :=
  int64? (a.toInt * b.toInt)

def neg? (a : Int64) : Option Int64 :=
  int64? (-a.toInt)

/-- The quotient toward zero. There is none for a zero divisor or out of range. -/
def div? (a b : Int64) : Option Int64 :=
  if b.toInt = 0 then none else int64? (a.toInt.tdiv b.toInt)

/-- The remainder of `div?`, with the sign of the dividend. It is missing exactly when the
quotient is. -/
def rem? (a b : Int64) : Option Int64 :=
  (div? a b).bind fun _ => int64? (a.toInt.tmod b.toInt)

/-- Decimal digits of a natural number. -/
def natText (n : Nat) : List Char :=
  Nat.toDigits 10 n

/-- Decimal digits of an integer after a minus sign if it is negative. -/
def intText (n : Int) : List Char :=
  if n < 0 then '-' :: natText n.natAbs else natText n.natAbs

/-- The decimal text of a 64-bit integer. -/
def int64Text (n : Int64) : String :=
  String.ofList (intText n.toInt)

def digitValue (c : Char) : Nat :=
  c.toNat - 48

/-- The number written by decimal digits, most significant first. -/
def digitsValue (digits : List Char) : Nat :=
  digits.foldl (fun n c => n * 10 + digitValue c) 0

/-- Reads a text of at least one ASCII digit and nothing else. -/
def readNat? (text : List Char) : Option Nat :=
  if text.isEmpty || !text.all Char.isDigit then none else some (digitsValue text)

/-- Reads an optional sign and digits. -/
def readInt? : List Char → Option Int
  | '-' :: digits => (readNat? digits).map fun n => -(n : Int)
  | '+' :: digits => (readNat? digits).map fun n => (n : Int)
  | digits => (readNat? digits).map fun n => (n : Int)

/-- Reads an optional sign and digits that stay in the 64-bit range. -/
def readInt64? (text : List Char) : Option Int64 :=
  (readInt? text).bind int64?

/-- Reads a count: digits, after a plus sign or none, below 2^64. -/
def readCount? (text : List Char) : Option Nat :=
  let digits := match text with
    | '+' :: rest => rest
    | _ => text
  (readNat? digits).bind fun n => if n < 18446744073709551616 then some n else none

end RowFilter.Number
