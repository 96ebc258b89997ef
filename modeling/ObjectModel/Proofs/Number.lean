import ObjectModel.Number
import ObjectModel.Proofs.Digest
import ObjectModel.Proofs.Float64.Integral
import ObjectModel.Store.Hash

/-!
# Equality and hashes of numbers

Two numbers are equal if they are the same point of the complex plane, where a point is written in a
form of its own that no kind of number shares. Patterns that are no number are no point. From this
equality of numbers is symmetric and transitive across kinds.

The hash of a number depends on its point alone, with one exception: a zero real part keeps its sign
if there is an imaginary part.
-/

namespace ObjectModel

/-- A point of the real line that is equal to an integer, or lies at a position between two. -/
inductive Point where
  | integer (n : Int)
  | between (key : Int)
  deriving DecidableEq

/-- The point of a floating-point number. -/
def Float64.point? (x : Float64) : Option Point :=
  if x.isNaN then none
  else some (match x.toInt? with | some n => .integer n | none => .between x.key)

namespace Float64

theorem point?_eq_some_iff {x : Float64} {point : Point} :
    x.point? = some point ↔ x.isNaN = false ∧
      match x.toInt? with
      | some n => point = .integer n
      | none => point = .between x.key := by
  rw [point?]
  cases x.isNaN <;> cases x.toInt? <;> simp [eq_comm]

theorem point?_eq_integer_iff {x : Float64} {n : Int} :
    x.point? = some (.integer n) ↔ x.toInt? = some n := by
  rw [point?_eq_some_iff]
  cases integral : x.toInt? with
  | none => simp
  | some m => simp [isNaN_eq_false_of_toInt? integral, eq_comm]

/-- Two numbers are equal if they are the same point. -/
theorem equals_iff_point? {x y : Float64} :
    x.equals y ↔ ∃ point, x.point? = some point ∧ y.point? = some point := by
  rw [equals_iff]
  constructor
  · rintro ⟨left, right, same⟩
    refine ⟨match x.toInt? with | some n => .integer n | none => .between x.key, ?_, ?_⟩
    · rw [point?, left]
      rfl
    · rw [point?, right, ← toInt?_eq_of_key_eq same, ← same]
      rfl
  · rintro ⟨point, left, right⟩
    rw [point?_eq_some_iff] at left right
    refine ⟨left.1, right.1, ?_⟩
    cases left_integral : x.toInt? <;> cases right_integral : y.toInt? <;>
      rw [left_integral] at left <;> rw [right_integral] at right
    · exact Point.between.inj (left.2.symm.trans right.2)
    · exact Point.noConfusion (left.2.symm.trans right.2)
    · exact Point.noConfusion (left.2.symm.trans right.2)
    · rw [Point.integer.inj (left.2.symm.trans right.2)] at left_integral
      exact key_eq_of_toInt? left_integral right_integral

theorem equals_zero_iff {x : Float64} : x.equals zero ↔ x.isZero := by
  have zero_key : zero.key = 0 := by decide
  have zero_number : zero.isNaN = false := by decide
  rw [equals_iff, zero_key, key_eq_zero_iff]
  constructor
  · rintro ⟨-, -, is_zero⟩
    exact is_zero
  · intro is_zero
    exact ⟨isNaN_eq_false_of_isZero is_zero, zero_number, is_zero⟩

theorem equals_self {x : Float64} (number : x.isNaN = false) : x.equals x :=
  equals_iff.mpr ⟨number, number, rfl⟩

theorem equals_comm (x y : Float64) : x.equals y = y.equals x := by
  rw [Bool.eq_iff_iff, equals_iff, equals_iff]
  tauto

theorem equals_trans {x y z : Float64} (first : x.equals y) (second : y.equals z) :
    x.equals z := by
  rw [equals_iff] at first second ⊢
  exact ⟨first.1, second.2.1, first.2.2.trans second.2.2⟩

/-- Equal numbers are the same pattern or are both equal to an integer. -/
theorem hash_eq_of_equals {x y : Float64} (equal : x.equals y) : x.hash = y.hash := by
  obtain ⟨-, -, same⟩ := equals_iff.mp equal
  rcases eq_or_isZero_of_key_eq same with rfl | ⟨left, right⟩
  · rfl
  · rw [hash, hash, toInt?_of_isZero left, toInt?_of_isZero right]

end Float64

/-! ## Numbers of all kinds -/

namespace Number

/-- The point of the real part. -/
def point? : Number → Option Point
  | int n => some (.integer n)
  | float x | complex x _ => x.point?

/-- The real parts are the same point. -/
def SameReal (left right : Number) : Prop :=
  ∃ point, left.point? = some point ∧ right.point? = some point

theorem SameReal.symm {left right : Number} (same : left.SameReal right) : right.SameReal left := by
  obtain ⟨point, left_point, right_point⟩ := same
  exact ⟨point, right_point, left_point⟩

theorem SameReal.trans {left middle right : Number} (first : left.SameReal middle)
    (second : middle.SameReal right) : left.SameReal right := by
  obtain ⟨point, left_point, middle_point⟩ := first
  obtain ⟨other, middle_other, right_point⟩ := second
  obtain rfl : point = other := Option.some.inj (middle_point.symm.trans middle_other)
  exact ⟨point, left_point, right_point⟩

theorem realEquals_iff {left right : Number} (real : left.isComplex = false)
    (real_right : right.isComplex = false) : left.realEquals right ↔ left.SameReal right := by
  cases left with
  | complex re im => contradiction
  | int m =>
      cases right with
      | complex re im => contradiction
      | int n => simp [realEquals, SameReal, point?, @eq_comm Int n]
      | float y => simp [realEquals, SameReal, point?, Float64.point?_eq_integer_iff]
  | float x =>
      cases right with
      | complex re im => contradiction
      | int n => simp [realEquals, SameReal, point?, Float64.point?_eq_integer_iff]
      | float y => exact Float64.equals_iff_point?

theorem imaginary_of_isComplex {real : Number} (not_complex : real.isComplex = false) :
    real.imaginary = .zero := by
  cases real with
  | complex re im => contradiction
  | int n => rfl
  | float x => rfl

theorem equals_of_isComplex {left right : Number} (real : left.isComplex = false)
    (real_right : right.isComplex = false) : left.equals right = left.realEquals right := by
  cases left with
  | complex re im => contradiction
  | int m => cases right <;> first | rfl | contradiction
  | float x => cases right <;> first | rfl | contradiction

theorem equals_comm (left right : Number) : left.equals right = right.equals left := by
  cases left with
  | int m =>
      cases right with
      | int n => exact Bool.beq_comm
      | float y => rfl
      | complex c d => rfl
  | float x =>
      cases right with
      | int n => rfl
      | float y => exact Float64.equals_comm x y
      | complex c d => rfl
  | complex a b =>
      cases right with
      | int n => rfl
      | float y => rfl
      | complex c d => rw [equals, equals, Float64.equals_comm a, Float64.equals_comm b]

theorem equals_complex_iff {re im : Float64} {right : Number} :
    (complex re im).equals right ↔
      (complex re im).SameReal right ∧ im.equals right.imaginary := by
  by_cases real : right.isComplex = false
  · have equals_eq : (complex re im).equals right =
        (im.isZero && (float re).realEquals right) := by
      cases right with
      | complex c d => contradiction
      | int n => rfl
      | float y => rfl
    rw [equals_eq, Bool.and_eq_true, realEquals_iff rfl real, imaginary_of_isComplex real,
      Float64.equals_zero_iff, and_comm]
    rfl
  · cases right with
    | complex c d =>
        rw [equals, Bool.and_eq_true, Float64.equals_iff_point?]
        rfl
    | int n => exact (real rfl).elim
    | float y => exact (real rfl).elim

/-- Numbers are equal if their real parts are the same point and their imaginary parts are equal. -/
theorem equals_iff {left right : Number} :
    left.equals right ↔ left.SameReal right ∧ left.imaginary.equals right.imaginary := by
  by_cases real : left.isComplex = false
  · by_cases real_right : right.isComplex = false
    · have zeros : Float64.zero.equals .zero := by decide
      rw [equals_of_isComplex real real_right, realEquals_iff real real_right,
        imaginary_of_isComplex real, imaginary_of_isComplex real_right, and_iff_left zeros]
    · cases right with
      | complex c d =>
          rw [equals_comm, equals_complex_iff, Float64.equals_comm]
          exact and_congr_left' ⟨SameReal.symm, SameReal.symm⟩
      | int n => exact (real_right rfl).elim
      | float y => exact (real_right rfl).elim
  · cases left with
    | complex a b => exact equals_complex_iff
    | int m => exact (real rfl).elim
    | float x => exact (real rfl).elim

theorem equals_trans {left middle right : Number} (first : left.equals middle)
    (second : middle.equals right) : left.equals right := by
  rw [equals_iff] at first second ⊢
  exact ⟨first.1.trans second.1, Float64.equals_trans first.2 second.2⟩

/-- Whether a part of the number is not a number. -/
def isNaN : Number → Bool
  | int _ => false
  | float x => x.isNaN
  | complex re im => re.isNaN || im.isNaN

theorem equals_self {number : Number} (valid : number.isNaN = false) : number.equals number := by
  cases number with
  | int n => exact beq_self_eq_true n
  | float x => exact Float64.equals_self valid
  | complex re im =>
      rw [isNaN, Bool.or_eq_false_iff] at valid
      rw [equals, Float64.equals_self valid.1, Float64.equals_self valid.2]
      rfl

/-! ## Hashes -/

open Digest

/-- The hash of the real part. -/
def realHash : Number → UInt64
  | int n => tagged .number (wordsOfInt n)
  | float x | complex x _ => x.hash

/-- The hash of a number. -/
def hash : Number → UInt64
  | complex re im => if im.isZero then re.hash else tagged .complex [re.bits, im.bits]
  | real => real.realHash

/-- Whether the real parts of two equal numbers carry the same sign where it counts: if they are
zeros beside an imaginary part, the signs are the same. -/
def zerosAgree : Number → Number → Bool
  | complex a b, complex c _ => b.isZero || a.isNegative == c.isNegative
  | _, _ => true

theorem realHash_eq_of_sameReal {left right : Number} (same : left.SameReal right) :
    left.realHash = right.realHash := by
  have of_integer : ∀ {x : Float64} {n : Int}, x.point? = some (.integer n) →
      x.hash = tagged .number (wordsOfInt n) := by
    intro x n holds
    rw [Float64.hash, Float64.point?_eq_integer_iff.mp holds]
  have of_float : ∀ {x y : Float64}, (∃ point, x.point? = some point ∧ y.point? = some point) →
      x.hash = y.hash := fun same => Float64.hash_eq_of_equals (Float64.equals_iff_point?.mpr same)
  obtain ⟨point, left_point, right_point⟩ := same
  cases left with
  | int m =>
      obtain rfl : Point.integer m = point := Option.some.inj left_point
      cases right with
      | int n => rw [Point.integer.inj (Option.some.inj right_point)]
      | float y => exact (of_integer right_point).symm
      | complex c d => exact (of_integer right_point).symm
  | float x =>
      cases right with
      | int n =>
          obtain rfl : Point.integer n = point := Option.some.inj right_point
          exact of_integer left_point
      | float y => exact of_float ⟨point, left_point, right_point⟩
      | complex c d => exact of_float ⟨point, left_point, right_point⟩
  | complex a b =>
      cases right with
      | int n =>
          obtain rfl : Point.integer n = point := Option.some.inj right_point
          exact of_integer left_point
      | float y => exact of_float ⟨point, left_point, right_point⟩
      | complex c d => exact of_float ⟨point, left_point, right_point⟩

theorem hash_of_isZero {number : Number} (real : number.imaginary.isZero) :
    number.hash = number.realHash := by
  cases number with
  | int n => rfl
  | float x => rfl
  | complex re im =>
      rw [imaginary] at real
      rw [hash, if_pos real, realHash]

/-- Only a complex number stands beside the real line. -/
theorem exists_complex_of_imaginary {number : Number} (beside : ¬ number.imaginary.isZero) :
    ∃ re im, number = complex re im := by
  have zero_is_zero : Float64.zero.isZero := by decide
  cases number with
  | complex re im => exact ⟨re, im, rfl⟩
  | int n => exact (beside zero_is_zero).elim
  | float x => exact (beside zero_is_zero).elim

theorem zerosAgree_of_isZero {left right : Number} (real : left.imaginary.isZero) :
    left.zerosAgree right := by
  cases left with
  | int m => rfl
  | float x => rfl
  | complex a b =>
      rw [imaginary] at real
      cases right <;> simp [zerosAgree, real]

/-- Beside the real line the hash keeps the pattern of the real part, and patterns at the same
position differ at most in the sign. -/
theorem hash_complex_eq_iff {a b c : Float64} (beside : ¬ b.isZero) (same : a.key = c.key) :
    (complex a b).hash = (complex c b).hash ↔ a.isNegative = c.isNegative := by
  rw [hash, hash, if_neg beside, if_neg beside]
  constructor
  · intro same_hash
    have same_bits : a.bits = c.bits := tagged_injective .complex [] [b.bits] same_hash
    rw [Float64.isNegative, same_bits, Float64.isNegative]
  · intro same_sign
    have same_magnitude : a.magnitude = c.magnitude := by
      rw [← Float64.natAbs_key, ← Float64.natAbs_key, same]
    rw [Float64.eq_of_magnitude_eq same_sign same_magnitude]

/-- Equal numbers have the same hash if and only if their zeros agree. -/
theorem hash_eq_iff_zerosAgree {left right : Number} (equal : left.equals right) :
    left.hash = right.hash ↔ left.zerosAgree right := by
  obtain ⟨same_real, same_imaginary⟩ := equals_iff.mp equal
  obtain ⟨-, -, same_key⟩ := Float64.equals_iff.mp same_imaginary
  have same_zero : left.imaginary.isZero ↔ right.imaginary.isZero := by
    rw [← Float64.key_eq_zero_iff, same_key, Float64.key_eq_zero_iff]
  by_cases real : left.imaginary.isZero
  · apply iff_of_true
    · rw [hash_of_isZero real, hash_of_isZero (same_zero.mp real),
        realHash_eq_of_sameReal same_real]
    · exact zerosAgree_of_isZero real
  · obtain ⟨a, b, rfl⟩ := exists_complex_of_imaginary real
    obtain ⟨c, d, rfl⟩ := exists_complex_of_imaginary (mt same_zero.mpr real)
    have same_imaginary_part : b = d := by
      rcases Float64.eq_or_isZero_of_key_eq same_key with same | zeros
      · exact same
      · exact (real zeros.1).elim
    subst same_imaginary_part
    have equal_reals : a.equals c := Float64.equals_iff_point?.mpr same_real
    obtain ⟨-, -, same_real_key⟩ := Float64.equals_iff.mp equal_reals
    rw [imaginary] at real
    rw [hash_complex_eq_iff real same_real_key, zerosAgree, Bool.eq_false_iff.mpr real,
      Bool.false_or, beq_iff_eq]

end Number
end ObjectModel
