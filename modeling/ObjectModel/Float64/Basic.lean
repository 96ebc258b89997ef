/-!
# Binary64 numbers

A number is its bit pattern: a sign bit, eleven exponent bits and fifty-two fraction bits. Below the
sign bit the pattern grows with the absolute value, so equality and order of numbers are equality
and order of one integer, the key. All operations are arithmetic on integers.
-/

namespace ObjectModel

/-- A binary64 number. -/
structure Float64 where
  /-- The bit pattern. -/
  bits : UInt64
  deriving DecidableEq, Repr

namespace Float64

/-- The magnitude of infinity. Finite numbers lie below it, and patterns above it are no number. -/
def infiniteMagnitude : Nat := 0x7ff0000000000000

/-- The pattern with the given sign and the given bits below it. -/
def ofMagnitude (negative : Bool) (magnitude : Nat) : Float64 :=
  ⟨UInt64.ofNat (magnitude + if negative then 1 <<< 63 else 0)⟩

/-- Positive zero. -/
def zero : Float64 := ofMagnitude false 0

/-- The outcome of an operation without a value, such as the difference of two infinities. -/
def invalid : Float64 := ofMagnitude true 0x7ff8000000000000

/-- Whether the sign bit is set. -/
def isNegative (x : Float64) : Bool :=
  1 <<< 63 ≤ x.bits.toNat

/-- The bits below the sign bit. -/
def magnitude (x : Float64) : Nat :=
  x.bits.toNat % (1 <<< 63)

/-- Whether the pattern is no number. -/
def isNaN (x : Float64) : Bool :=
  infiniteMagnitude < x.magnitude

/-- Whether the number is one of the two infinities. -/
def isInfinite (x : Float64) : Bool :=
  x.magnitude == infiniteMagnitude

/-- Whether the number is finite. -/
def isFinite (x : Float64) : Bool :=
  x.magnitude < infiniteMagnitude

/-- Whether the number is one of the two zeros. -/
def isZero (x : Float64) : Bool :=
  x.magnitude == 0

/-- The position of the number in the order; both zeros have position 0. -/
def key (x : Float64) : Int :=
  if x.isNegative then -(x.magnitude : Int) else x.magnitude

/-- Equality of numbers: the zeros are equal, and what is no number differs even from itself. -/
def equals (x y : Float64) : Bool :=
  !x.isNaN && !y.isNaN && x.key == y.key

/-- The order of two numbers, if both are numbers. -/
def compare? (x y : Float64) : Option Ordering :=
  if x.isNaN || y.isNaN then none else some (compare x.key y.key)

/-- The exponent bits. -/
def exponentField (x : Float64) : Nat :=
  x.magnitude >>> 52

/-- The integer that a finite number scales by a power of two. -/
def significand (x : Float64) : Nat :=
  if x.exponentField = 0 then x.magnitude else (1 <<< 52) + x.magnitude % (1 <<< 52)

/-- The power of two that scales the significand of a finite number. -/
def exponent (x : Float64) : Int :=
  max x.exponentField 1 - 1075

/-- The significand with the sign of the number. -/
def signedSignificand (x : Float64) : Int :=
  if x.isNegative then -(x.significand : Int) else x.significand

/-- The integer that a finite number is equal to, if there is one. -/
def toInt? (x : Float64) : Option Int :=
  if !x.isFinite then none
  else
    let scale := 1 <<< (-x.exponent).toNat
    let n := x.significand <<< x.exponent.toNat
    if n % scale = 0 then
      some (if x.isNegative then -((n / scale : Nat) : Int) else (n / scale : Nat))
    else none

/-- The number with the other sign. -/
def neg (x : Float64) : Float64 :=
  ofMagnitude (!x.isNegative) x.magnitude

end Float64
end ObjectModel
