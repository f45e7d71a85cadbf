/-!
# Floating-point numbers

A floating-point number is a 64-bit word: a sign, an exponent of eleven bits and a fraction. The
sign of a word that is not a number counts too, since the binary form of an expression shows it.
Sums, products and quotients are those of the machine; sign, kind and order are read off the word.
-/

namespace RowFilter.Number

structure Binary64 where
  bits : UInt64
deriving DecidableEq, Repr, Inhabited

namespace Binary64

def zero : Binary64 := ⟨0⟩

def infinity : Binary64 := ⟨0x7FF0000000000000⟩

/-- What is not a number, without a sign. -/
def nan : Binary64 := ⟨0x7FF8000000000000⟩

def ofFloat (x : Float) : Binary64 :=
  ⟨x.toBits⟩

def toFloat (x : Binary64) : Float :=
  Float.ofBits x.bits

/-- The least bit of the exponent, which is also the leading bit of a normal mantissa. -/
def hiddenBit : Nat := 1 <<< 52

/-- Whether the sign bit is set. -/
def isNegative (x : Binary64) : Bool :=
  x.bits.toNat >>> 63 == 1

/-- The word without its sign. -/
def absolute (x : Binary64) : Nat :=
  x.bits.toNat % (1 <<< 63)

def exponentField (x : Binary64) : Nat :=
  x.absolute >>> 52

def fractionField (x : Binary64) : Nat :=
  x.absolute % hiddenBit

def isFinite (x : Binary64) : Bool :=
  x.exponentField < 2047

def isNaN (x : Binary64) : Bool :=
  x.exponentField == 2047 && x.fractionField != 0

def isZero (x : Binary64) : Bool :=
  x.absolute == 0

/-- The opposite: the same word with the other sign. -/
def neg (x : Binary64) : Binary64 :=
  ⟨x.bits ^^^ 0x8000000000000000⟩

instance : Neg Binary64 := ⟨neg⟩
instance : Add Binary64 := ⟨fun x y => ofFloat (x.toFloat + y.toFloat)⟩
instance : Sub Binary64 := ⟨fun x y => ofFloat (x.toFloat - y.toFloat)⟩
instance : Mul Binary64 := ⟨fun x y => ofFloat (x.toFloat * y.toFloat)⟩
instance : Div Binary64 := ⟨fun x y => ofFloat (x.toFloat / y.toFloat)⟩

/-- The place of a number among all numbers. Both zeros share one. -/
def rank (x : Binary64) : Int :=
  if x.isNegative then -(x.absolute : Int) else x.absolute

/-- The order of two numbers, unless one of them is not a number. -/
def compare? (x y : Binary64) : Option Ordering :=
  if x.isNaN || y.isNaN then none else some (compare x.rank y.rank)

end Binary64

end RowFilter.Number
