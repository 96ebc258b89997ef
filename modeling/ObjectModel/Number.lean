import ObjectModel.Float64.Rounding
import ObjectModel.Value

/-!
# Numbers

Truth values, integers, floating-point and complex numbers are compared and combined across kinds.
Equality is exact: an integer equals a floating-point number only if both are the same integer.
Order and arithmetic between kinds go through the floating-point number that an integer rounds to.
-/

namespace ObjectModel

/-- A number, whatever its kind was; a truth value is an integer here. -/
inductive Number where
  /-- An integer. -/
  | int (n : Int)
  /-- A floating-point number. -/
  | float (x : Float64)
  /-- A complex number. -/
  | complex (re im : Float64)
  deriving DecidableEq, Repr

/-- The number that a value is. -/
def Value.number? : Value → Option Number
  | bool b => some (.int b.toInt)
  | int n => some (.int n)
  | float x => some (.float x)
  | complex re im => some (.complex re im)
  | _ => Option.none

namespace Number

/-- The value of a number. -/
def toValue : Number → Value
  | int n => .int n
  | float x => .float x
  | complex re im => .complex re im

/-- Whether the number is complex, and so has no place in the order. -/
def isComplex : Number → Bool
  | complex .. => true
  | _ => false

/-- The real part as a floating-point number. -/
def toFloat : Number → Float64
  | int n => .ofInt n
  | float x => x
  | complex re _ => re

/-- The imaginary part. -/
def imaginary : Number → Float64
  | complex _ im => im
  | _ => .zero

/-- Equality of two real numbers. -/
def realEquals : Number → Number → Bool
  | int m, int n => m == n
  | int n, float x | float x, int n => x.toInt? == some n
  | float x, float y => x.equals y
  | _, _ => false

/-- Equality of numbers: a complex number equals a real one if its imaginary part is zero and its
real part equals it. -/
def equals : Number → Number → Bool
  | complex a b, complex c d => a.equals c && b.equals d
  | complex re im, real | real, complex re im => im.isZero && realEquals (float re) real
  | left, right => realEquals left right

/-- The order of two real numbers, if they have one. -/
def compare? : Number → Number → Option Ordering
  | int m, int n => some (compare m n)
  | left, right => left.toFloat.compare? right.toFloat

/-- The operators that combine numbers. -/
inductive Operation where
  | add
  | sub
  | mul
  deriving DecidableEq, Repr

/-- The operation on numbers that an operator asks for. -/
def Operation.ofOp? : BinaryOperator → Option Operation
  | .add => some add
  | .sub => some sub
  | .mul => some mul
  | _ => none

/-- An operation on integers. -/
def Operation.onInt : Operation → Int → Int → Int
  | add, m, n => m + n
  | sub, m, n => m - n
  | mul, m, n => m * n

/-- An operation on floating-point numbers. -/
def Operation.onFloat : Operation → Float64 → Float64 → Float64
  | add, x, y => x.add y
  | sub, x, y => x.sub y
  | mul, x, y => x.mul y

/-- An operation on complex numbers, by parts. -/
def Operation.onComplex (operation : Operation) (a b c d : Float64) : Number :=
  match operation with
  | mul => complex ((a.mul c).sub (b.mul d)) ((a.mul d).add (b.mul c))
  | _ => complex (operation.onFloat a c) (operation.onFloat b d)

/-- An operation on two numbers, in the wider of their kinds. -/
def combine (operation : Operation) : Number → Number → Number
  | int m, int n => int (operation.onInt m n)
  | left, right =>
    if left.isComplex || right.isComplex then
      operation.onComplex left.toFloat left.imaginary right.toFloat right.imaginary
    else float (operation.onFloat left.toFloat right.toFloat)

end Number
end ObjectModel
