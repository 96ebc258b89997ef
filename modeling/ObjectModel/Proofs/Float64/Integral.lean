import ObjectModel.Float64.Basic
import Mathlib.Tactic.Ring

/-!
# Numbers that are integers

A finite number is an integer multiple of the smallest positive one, and this multiple determines
its magnitude. So two numbers that are equal to the same integer are equal to each other, and a
number is equal to the same integers as every number that it is equal to.
-/

namespace ObjectModel
namespace Float64

/-! ## Patterns and positions -/

theorem magnitude_eq (x : Float64) : x.magnitude = x.bits.toNat % 2 ^ 63 := rfl

theorem isNegative_iff {x : Float64} : x.isNegative ↔ 2 ^ 63 ≤ x.bits.toNat :=
  decide_eq_true_iff

theorem exponentField_eq (x : Float64) : x.exponentField = x.magnitude / 2 ^ 52 :=
  Nat.shiftRight_eq_div_pow _ _

theorem significand_eq (x : Float64) :
    x.significand = if x.exponentField = 0 then x.magnitude else 2 ^ 52 + x.magnitude % 2 ^ 52 :=
  rfl

theorem toNat_bits (x : Float64) :
    x.bits.toNat = x.magnitude + if x.isNegative then 2 ^ 63 else 0 := by
  have below := x.bits.toNat_lt
  simp only [magnitude_eq, isNegative_iff]
  split <;> omega

theorem eq_of_magnitude_eq {x y : Float64} (same_sign : x.isNegative = y.isNegative)
    (same_magnitude : x.magnitude = y.magnitude) : x = y := by
  have same_bits : x.bits.toNat = y.bits.toNat := by
    rw [toNat_bits, toNat_bits, same_sign, same_magnitude]
  cases x
  cases y
  exact congrArg mk (UInt64.toNat_inj.mp same_bits)

theorem isZero_iff {x : Float64} : x.isZero ↔ x.magnitude = 0 := by
  rw [isZero, beq_iff_eq]

theorem natAbs_key (x : Float64) : x.key.natAbs = x.magnitude := by
  rw [key]
  split <;> simp

theorem key_eq_zero_iff {x : Float64} : x.key = 0 ↔ x.isZero := by
  rw [isZero_iff, ← natAbs_key, Int.natAbs_eq_zero]

/-- Two patterns with the same position are the same, unless both are zeros. -/
theorem eq_or_isZero_of_key_eq {x y : Float64} (same : x.key = y.key) :
    x = y ∨ x.isZero ∧ y.isZero := by
  have same_magnitude : x.magnitude = y.magnitude := by
    rw [← natAbs_key, ← natAbs_key, same]
  by_cases same_sign : x.isNegative = y.isNegative
  · exact .inl (eq_of_magnitude_eq same_sign same_magnitude)
  · right
    have zero : x.magnitude = 0 := by
      rw [key, key, ← same_magnitude] at same
      split at same <;> split at same <;> first | omega | simp_all
    exact ⟨isZero_iff.mpr zero, isZero_iff.mpr (same_magnitude ▸ zero)⟩

theorem isNaN_eq_false_of_isZero {x : Float64} (zero : x.isZero) : x.isNaN = false := by
  rw [isNaN, isZero_iff.mp zero]
  rfl

/-! ## Multiples of the smallest positive number -/

/-- How many times the smallest positive number goes into a magnitude. -/
def units (magnitude : Nat) : Nat :=
  if magnitude < 2 ^ 52 then magnitude
  else (2 ^ 52 + magnitude % 2 ^ 52) * 2 ^ (magnitude / 2 ^ 52 - 1)

/-- The units of a magnitude that is put together from an exponent and a significand. The
significand may carry into the exponent. -/
theorem units_eq {exponent significand : Nat} (normal : exponent = 0 ∨ 2 ^ 52 ≤ significand)
    (le : significand ≤ 2 ^ 53) :
    units (exponent * 2 ^ 52 + significand) = significand * 2 ^ exponent := by
  rw [units]
  split
  · obtain rfl : exponent = 0 := by omega
    omega
  · rcases Nat.eq_or_lt_of_le le with rfl | lt
    · have field : (exponent * 2 ^ 52 + 2 ^ 53) / 2 ^ 52 - 1 = exponent + 1 := by omega
      have fraction : (exponent * 2 ^ 52 + 2 ^ 53) % 2 ^ 52 = 0 := by omega
      rw [field, fraction, Nat.pow_succ]
      omega
    · have field : (exponent * 2 ^ 52 + significand) / 2 ^ 52 - 1 = exponent := by omega
      have fraction : 2 ^ 52 + (exponent * 2 ^ 52 + significand) % 2 ^ 52 = significand := by omega
      rw [field, fraction]

theorem units_strictMono : StrictMono units := by
  apply strictMono_nat_of_lt_succ
  intro magnitude
  obtain ⟨exponent, significand, rfl, normal, lt⟩ : ∃ exponent significand,
      magnitude = exponent * 2 ^ 52 + significand ∧ (exponent = 0 ∨ 2 ^ 52 ≤ significand) ∧
        significand < 2 ^ 53 := by
    by_cases small : magnitude < 2 ^ 52
    · exact ⟨0, magnitude, by omega, .inl rfl, by omega⟩
    · exact ⟨magnitude / 2 ^ 52 - 1, magnitude % 2 ^ 52 + 2 ^ 52, by omega, .inr (by omega),
        by omega⟩
  have next : units (exponent * 2 ^ 52 + significand + 1) = (significand + 1) * 2 ^ exponent := by
    rw [Nat.add_assoc, units_eq (normal.imp_right Nat.le_succ_of_le) lt]
  rw [units_eq normal (Nat.le_of_lt lt), next]
  exact Nat.mul_lt_mul_of_pos_right (Nat.lt_succ_self significand) (Nat.two_pow_pos exponent)

/-- How many times the smallest positive number goes into the magnitude of a finite number. -/
def multiple (x : Float64) : Nat :=
  x.significand * 2 ^ (max x.exponentField 1 - 1)

theorem multiple_eq_units (x : Float64) : x.multiple = units x.magnitude := by
  rw [multiple, units, significand_eq, exponentField_eq]
  split <;> rename_i field_zero
  · rw [if_pos (by omega), field_zero]
    simp
  · rw [if_neg (by omega)]
    congr 2
    omega

theorem magnitude_eq_of_multiple_eq {x y : Float64} (same : x.multiple = y.multiple) :
    x.magnitude = y.magnitude := by
  rw [multiple_eq_units, multiple_eq_units] at same
  exact units_strictMono.injective same

/-! ## Integers -/

/-- A significand is shifted by its distance to the field of the exponent that belongs to one. -/
theorem exists_field (x : Float64) : ∃ field, 1 ≤ field ∧
    x.multiple = x.significand * 2 ^ (field - 1) ∧ x.exponent.toNat = field - 1075 ∧
      (-x.exponent).toNat = 1075 - field := by
  refine ⟨max x.exponentField 1, Nat.le_max_right _ _, rfl, ?_, ?_⟩ <;>
    rw [exponent] <;> omega

/-- The integer that a number is equal to has its sign, and its magnitude in units of the smallest
positive number. -/
theorem toInt?_eq_some {x : Float64} {n : Int} (integral : x.toInt? = some n) :
    n.natAbs * 2 ^ 1074 = x.multiple ∧ if x.isNegative then n ≤ 0 else 0 ≤ n := by
  obtain ⟨field, field_pos, multiple_eq, up, down⟩ := exists_field x
  rw [toInt?] at integral
  split at integral
  · contradiction
  · simp only [up, down, Nat.shiftLeft_eq, Nat.one_mul] at integral
    split at integral
    · rename_i divides
      let quotient := x.significand * 2 ^ (field - 1075) / 2 ^ (1075 - field)
      have exact_quotient : 2 ^ (1075 - field) * quotient = x.significand * 2 ^ (field - 1075) :=
        Nat.mul_div_cancel' (Nat.dvd_of_mod_eq_zero divides)
      have natAbs_eq : n.natAbs = quotient := by
        rw [← Option.some.inj integral]
        split
        · rw [Int.natAbs_neg, Int.natAbs_natCast]
        · rw [Int.natAbs_natCast]
      constructor
      · rw [natAbs_eq, multiple_eq]
        rcases Nat.le_total 1075 field with large | small
        · have powers : field - 1075 + 1074 = field - 1 := by omega
          rw [Nat.sub_eq_zero_of_le large, Nat.pow_zero, Nat.one_mul] at exact_quotient
          rw [exact_quotient, Nat.mul_assoc, ← Nat.pow_add, powers]
        · have powers : 1075 - field + (field - 1) = 1074 := by omega
          rw [Nat.sub_eq_zero_of_le small, Nat.pow_zero, Nat.mul_one] at exact_quotient
          rw [← exact_quotient, Nat.mul_comm (2 ^ (1075 - field)), Nat.mul_assoc, ← Nat.pow_add,
            powers]
      · rw [← Option.some.inj integral]
        split
        · exact Int.neg_nonpos_of_nonneg (Int.natCast_nonneg _)
        · exact Int.natCast_nonneg _
    · exact (Option.some_ne_none n integral.symm).elim

/-- A number whose multiple of the smallest positive one is a whole number of ones is that
integer. -/
theorem toInt?_of_multiple_eq {x : Float64} {quotient : Nat} (finite : x.isFinite)
    (whole : x.multiple = quotient * 2 ^ 1074) :
    x.toInt? = some (if x.isNegative then -(quotient : Int) else quotient) := by
  obtain ⟨field, field_pos, multiple_eq, up, down⟩ := exists_field x
  have exact_quotient : x.significand * 2 ^ (field - 1075) = quotient * 2 ^ (1075 - field) := by
    apply Nat.eq_of_mul_eq_mul_right (Nat.two_pow_pos (min (field - 1) 1074))
    have powers : field - 1075 + min (field - 1) 1074 = field - 1 := by omega
    have powers_quotient : 1075 - field + min (field - 1) 1074 = 1074 := by omega
    rw [Nat.mul_assoc, Nat.mul_assoc, ← pow_add, ← pow_add, powers, powers_quotient, ← multiple_eq]
    exact whole
  simp only [toInt?, finite, up, down, Nat.shiftLeft_eq, Nat.one_mul, exact_quotient,
    Nat.mul_mod_left, Nat.mul_div_cancel _ (Nat.two_pow_pos _)]
  simp

theorem isNaN_eq_false_of_toInt? {x : Float64} {n : Int} (integral : x.toInt? = some n) :
    x.isNaN = false := by
  rw [toInt?] at integral
  split at integral
  · contradiction
  · rename_i finite
    simp only [isFinite, Bool.not_eq_true', decide_eq_false_iff_not, not_not] at finite
    rw [isNaN, decide_eq_false_iff_not]
    omega

/-- Two numbers that are equal to the same integer have the same position. -/
theorem key_eq_of_toInt? {x y : Float64} {n : Int} (left : x.toInt? = some n)
    (right : y.toInt? = some n) : x.key = y.key := by
  obtain ⟨left_multiple, left_sign⟩ := toInt?_eq_some left
  obtain ⟨right_multiple, right_sign⟩ := toInt?_eq_some right
  have same_magnitude : x.magnitude = y.magnitude :=
    magnitude_eq_of_multiple_eq (left_multiple.symm.trans right_multiple)
  by_cases same_sign : x.isNegative = y.isNegative
  · rw [key, key, same_sign, same_magnitude]
  · have zero : n = 0 := by
      cases negative : x.isNegative <;> cases other : y.isNegative <;>
        simp [negative, other] at left_sign right_sign same_sign <;> omega
    rw [zero, Int.natAbs_zero, Nat.zero_mul] at left_multiple
    have no_multiple : (ofMagnitude false 0).multiple = 0 := by decide
    have no_magnitude : x.magnitude = 0 :=
      magnitude_eq_of_multiple_eq (left_multiple.symm.trans no_multiple.symm)
    rw [key_eq_zero_iff.mpr (isZero_iff.mpr no_magnitude),
      key_eq_zero_iff.mpr (isZero_iff.mpr (same_magnitude ▸ no_magnitude))]

theorem toInt?_of_isZero {x : Float64} (zero : x.isZero) : x.toInt? = some 0 := by
  rw [isZero_iff] at zero
  have finite : x.isFinite = true := by
    rw [isFinite, zero]
    rfl
  have no_significand : x.significand = 0 := by
    rw [significand_eq, exponentField_eq, zero, if_pos (Nat.zero_div _)]
  simp [toInt?, finite, no_significand]

/-- Numbers with the same position are equal to the same integer, if to any. -/
theorem toInt?_eq_of_key_eq {x y : Float64} (same : x.key = y.key) : x.toInt? = y.toInt? := by
  rcases eq_or_isZero_of_key_eq same with rfl | ⟨left, right⟩
  · rfl
  · rw [toInt?_of_isZero left, toInt?_of_isZero right]

/-! ## Equality -/

theorem equals_iff {x y : Float64} :
    x.equals y ↔ x.isNaN = false ∧ y.isNaN = false ∧ x.key = y.key := by
  simp [equals, and_assoc]

end Float64
end ObjectModel
