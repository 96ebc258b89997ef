import ObjectModel.Float64.Decimal

/-!
# Numbers as text

The shortest decimal of a number, written positionally within a range of exponents and with an
explicit exponent outside it.
-/

namespace ObjectModel

/-- How decimals are written. -/
structure DecimalFormat where
  /-- The least exponent of a first digit that is written positionally. -/
  positionalFrom : Int
  /-- The least exponent of a first digit that is too great for that. -/
  positionalBelow : Int
  /-- The least number of digits of an explicit exponent. -/
  exponentWidth : Nat
  /-- What follows the digits of an integer that is written positionally. -/
  integerMark : String

namespace DecimalFormat

/-- Numbers from a ten-thousandth to below ten to the sixteenth are positional, an exponent has a
sign and two digits or more, and an integer keeps a point and a zero. -/
def float : DecimalFormat := ⟨-4, 16, 2, ".0"⟩

/-- The parts of a complex number are written like other numbers, but integers without a point. -/
def complexPart : DecimalFormat := { float with integerMark := "" }

/-- Digits with a point at the given exponent of the first one. -/
def positional (format : DecimalFormat) (digits : List Char) (leading : Int) : String :=
  if leading < 0 then
    "0." ++ String.ofList (List.replicate (-leading - 1).toNat '0' ++ digits)
  else
    let whole := leading.toNat + 1
    if digits.length ≤ whole then
      String.ofList (digits ++ List.replicate (whole - digits.length) '0') ++ format.integerMark
    else String.ofList (digits.take whole ++ '.' :: digits.drop whole)

/-- Digits with a point after the first one, and the exponent of that one. -/
def scientific (format : DecimalFormat) (digits : List Char) (leading : Int) : String :=
  let exponent := Nat.toDigits 10 leading.natAbs
  let sign := if leading < 0 then '-' else '+'
  String.ofList (digits.take 1 ++ (if digits.length ≤ 1 then [] else '.' :: digits.drop 1) ++
    'e' :: sign :: List.replicate (format.exponentWidth - exponent.length) '0' ++ exponent)

/-- A decimal without its sign. -/
def unsigned (format : DecimalFormat) (x : Decimal) : String :=
  let leading := x.leadingExponent
  if format.positionalFrom ≤ leading ∧ leading < format.positionalBelow then
    format.positional x.digitChars leading
  else format.scientific x.digitChars leading

end DecimalFormat

namespace Float64

/-- The text of a number in the given format. -/
def format (layout : DecimalFormat) (x : Float64) : String :=
  if x.isNaN then "nan"
  else
    let sign := if x.isNegative then "-" else ""
    sign ++ if x.isInfinite then "inf" else layout.unsigned x.shortest

/-- The text of a number. -/
def text (x : Float64) : String :=
  x.format .float

/-- The text of a complex number: an imaginary part alone if the real part is positive zero, and
both parts in brackets otherwise. -/
def complexText (re im : Float64) : String :=
  let imaginary := im.format .complexPart ++ "j"
  if re = zero then imaginary
  else
    let sign := if im.isNegative && !im.isNaN then "" else "+"
    "(" ++ re.format .complexPart ++ sign ++ imaginary ++ ")"

end Float64
end ObjectModel
