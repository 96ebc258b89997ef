import ObjectModel.Float64.Basic

/-!
# Rounding and arithmetic

Every operation computes its exact value `m * 2 ^ e` over the integers and rounds it once, to the
nearest number and in the middle to the one with an even significand. An integer of more than two
words is the exception: it is rounded from its leading word and a trail, which leaves out some bits.
-/

namespace ObjectModel
namespace Float64

/-- The quotient of `m` by `2 ^ shift`, rounded to the nearest integer and in the middle to the even
one. -/
def roundShift (m shift : Nat) : Nat :=
  let quotient := m >>> shift
  let unit := 1 <<< shift
  let twice := 2 * (m % unit)
  if unit < twice ∨ (twice = unit ∧ quotient % 2 = 1) then quotient + 1 else quotient

/-- The exponent at which `m * 2 ^ e` has a significand of fifty-three bits, or the least exponent
there is. -/
def targetExponent (m : Nat) (e : Int) : Int :=
  max (e + m.log2 - 52) (-1074)

/-- The number nearest to `m * 2 ^ e`, with the given sign. A carry out of the significand runs into
the exponent bits, and what lies beyond the greatest number is infinite. -/
def ofScaled (negative : Bool) (m : Nat) (e : Int) : Float64 :=
  if m = 0 then ofMagnitude negative 0
  else
    let target := targetExponent m e
    let significand := roundShift (m <<< (e - target).toNat) (target - e).toNat
    ofMagnitude negative (min ((target + 1074).toNat <<< 52 + significand) infiniteMagnitude)

/-- Whether a word of sixty-four bits below the top one has a bit set among its low places, as many
as the top word has bits. In the next word these are all the places behind the leading sixty-four
bits; in the words below it the high places are left out. -/
def hasTrail (m : Nat) : Bool :=
  (List.range (m.log2 / 64)).any fun word => m >>> (64 * word) % (1 <<< (m.log2 % 64 + 1)) != 0

/-- The leading sixty-four bits, or all bits if there are fewer, the last one set if there is a
trail. That bit is too low to be kept; it moves the value off the middle between two numbers. -/
def leadingWord (m : Nat) : Nat :=
  m >>> (m.log2 - 63) ||| (hasTrail m).toNat

/-- The number nearest to an integer, as its leading word shows it. For an integer of at most two
words that is the nearest of all. A longer one that passes the middle between two numbers only by
bits which the trail leaves out goes to the number with an even significand. -/
def ofInt (n : Int) : Float64 :=
  ofScaled (n < 0) (leadingWord n.natAbs) ((n.natAbs.log2 - 63 : Nat) : Int)

/-- What is no number, marked as already noticed. -/
def quiet (x : Float64) : Float64 :=
  ofMagnitude x.isNegative (x.magnitude ||| 1 <<< 51)

/-- The sum. -/
def add (x y : Float64) : Float64 :=
  if x.isNaN then x.quiet
  else if y.isNaN then y.quiet
  else if x.isInfinite then
    if y.isInfinite && x.isNegative != y.isNegative then invalid else x
  else if y.isInfinite then y
  else
    let e := min x.exponent y.exponent
    let total := x.signedSignificand * (1 <<< (x.exponent - e).toNat : Nat) +
      y.signedSignificand * (1 <<< (y.exponent - e).toNat : Nat)
    if total = 0 then ofMagnitude (x.isNegative && y.isNegative) 0
    else ofScaled (total < 0) total.natAbs e

/-- The difference. -/
def sub (x y : Float64) : Float64 :=
  x.add (if y.isNaN then y else y.neg)

/-- The product. -/
def mul (x y : Float64) : Float64 :=
  let negative := x.isNegative != y.isNegative
  if x.isNaN then x.quiet
  else if y.isNaN then y.quiet
  else if x.isInfinite || y.isInfinite then
    if x.isZero || y.isZero then invalid else ofMagnitude negative infiniteMagnitude
  else ofScaled negative (x.significand * y.significand) (x.exponent + y.exponent)

end Float64
end ObjectModel
