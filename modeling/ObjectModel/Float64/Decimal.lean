import ObjectModel.Float64.Basic

/-!
# Shortest decimals

Of the decimal numbers that round to a given finite number, the shortest are those with the fewest
digits. They are found on decimal grids: for one digit, two digits and so on, the two grid points
around the number are tested in exact arithmetic, and the first grid with a hit wins.
-/

namespace ObjectModel

/-- The number `digits * 10 ^ exponent`. -/
structure Decimal where
  /-- The digits, read as an integer. -/
  digits : Nat
  /-- The power of ten that scales them. -/
  exponent : Int
  deriving DecidableEq, Repr

namespace Decimal

/-- The order of `d * 10 ^ k` and `n * 2 ^ e`. -/
def compareScaled (d : Nat) (k : Int) (n : Nat) (e : Int) : Ordering :=
  compare ((d * Nat.pow 10 k.toNat) <<< (-e).toNat) ((n <<< e.toNat) * Nat.pow 10 (-k).toNat)

/-- The greatest `d` with `d * 10 ^ k ≤ n * 2 ^ e`. -/
def floorScaled (k : Int) (n : Nat) (e : Int) : Nat :=
  ((n <<< e.toNat) * Nat.pow 10 (-k).toNat) / (Nat.pow 10 k.toNat <<< (-e).toNat)

/-- The number without zeros at the end of its digits. -/
def trimZeros (x : Decimal) : Decimal :=
  if divisible : 0 < x.digits ∧ x.digits % 10 = 0 then
    trimZeros ⟨x.digits / 10, x.exponent + 1⟩
  else x
termination_by x.digits
decreasing_by exact Nat.div_lt_self divisible.1 (by decide)

/-- The decimal digits of the integer, most significant first. -/
def digitChars (x : Decimal) : List Char :=
  Nat.toDigits 10 x.digits

/-- The exponent of the first digit. -/
def leadingExponent (x : Decimal) : Int :=
  x.exponent + x.digitChars.length - 1

end Decimal

namespace Float64

/-- The greatest `k` with `10 ^ k ≤ n`, for a positive `n`. -/
def floorLog10 (n : Nat) : Nat :=
  if n < 10 then 0 else floorLog10 (n / 10) + 1

/-- The greatest `k` with `10 ^ k ≤ n * 2 ^ e`, for a positive `n`. -/
def decimalOrder (n : Nat) (e : Int) : Int :=
  let numerator := n <<< e.toNat
  let denominator := 1 <<< (-e).toNat
  if denominator ≤ numerator then floorLog10 (numerator / denominator)
  else
    -- a fraction needs the power of ten above the greatest one at most this quotient
    Int.negSucc (floorLog10 ((denominator - 1) / numerator))

/-- Whether `d * 10 ^ k` rounds to the number. The numbers that do lie within half a place of it,
or a quarter of a place below a power of two; an end of that interval belongs to it exactly if the
significand is even. -/
def admits (x : Float64) (d : Nat) (k : Int) : Bool :=
  let e := x.exponent - 2
  let n := 4 * x.significand
  let below := if x.significand = 1 <<< 52 ∧ 1 < x.exponentField then 1 else 2
  let low := Decimal.compareScaled d k (n - below) e
  let high := Decimal.compareScaled d k (n + 2) e
  if x.significand % 2 = 0 then low != .lt && high != .gt else low == .gt && high == .lt

/-- The multiple of `10 ^ k` that rounds to the number: of the two around it the nearer one, and in
the middle the greater. -/
def onGrid? (x : Float64) (k : Int) : Option Decimal :=
  let d := Decimal.floorScaled k x.significand x.exponent
  match x.admits d k, x.admits (d + 1) k with
  | true, true =>
    if Decimal.compareScaled (2 * d + 1) k (2 * x.significand) x.exponent == .gt then some ⟨d, k⟩
    else some ⟨d + 1, k⟩
  | true, false => some ⟨d, k⟩
  | false, true => some ⟨d + 1, k⟩
  | false, false => none

/-- The shortest decimal that rounds to the absolute value of a finite number. Seventeen digits are
always enough. -/
def shortest (x : Float64) : Decimal :=
  if x.isZero then ⟨0, 0⟩
  else
    let order := decimalOrder x.significand x.exponent
    (((List.range 17).findSome? fun (n : Nat) => x.onGrid? (order - n)).getD ⟨0, 0⟩).trimZeros

end Float64
end ObjectModel
