import ObjectModel.Float64.Rounding
import ObjectModel.Proofs.Float64.Integral

/-!
# Rounding of integers

An integer rounds to one of the two floating-point numbers next to it, and to itself if it is one.
The bits that the trail leaves out do not matter for this. So rounding never turns the order between
an integer and a floating-point number around; all that can happen is that the two become equal.
-/

namespace ObjectModel
namespace Float64

theorem isNegative_ofMagnitude (negative : Bool) {magnitude : Nat} (lt : magnitude < 2 ^ 63) :
    (ofMagnitude negative magnitude).isNegative = negative := by
  rw [Bool.eq_iff_iff, isNegative_iff, ofMagnitude, UInt64.toNat_ofNat']
  cases negative <;> simp <;> omega

theorem magnitude_ofMagnitude (negative : Bool) {magnitude : Nat} (lt : magnitude < 2 ^ 63) :
    (ofMagnitude negative magnitude).magnitude = magnitude := by
  rw [magnitude_eq, ofMagnitude, UInt64.toNat_ofNat']
  cases negative <;> simp <;> omega

/-! ## The leading word -/

theorem leadingWord_of_log2_le {m : Nat} (small : m.log2 ≤ 63) : leadingWord m = m := by
  have no_trail : hasTrail m = false := by
    rw [hasTrail, Nat.div_eq_of_lt (Nat.lt_succ_of_le small)]
    rfl
  rw [leadingWord, no_trail, Nat.sub_eq_zero_of_le small]
  simp

theorem shiftRight_leading_bounds {m : Nat} (large : 63 < m.log2) :
    2 ^ 63 ≤ m >>> (m.log2 - 63) ∧ m >>> (m.log2 - 63) < 2 ^ 64 := by
  have ne : m ≠ 0 := by
    rintro rfl
    simp at large
  obtain ⟨lower, upper⟩ := (Nat.log2_eq_iff ne).mp rfl
  have power : m.log2 = 63 + (m.log2 - 63) := by omega
  have power_succ : m.log2 + 1 = 64 + (m.log2 - 63) := by omega
  rw [Nat.shiftRight_eq_div_pow]
  constructor
  · rw [Nat.le_div_iff_mul_le (Nat.two_pow_pos _), ← Nat.pow_add, ← power]
    exact lower
  · rw [Nat.div_lt_iff_lt_mul (Nat.two_pow_pos _), ← Nat.pow_add, ← power_succ]
    exact upper

theorem log2_leadingWord (m : Nat) : (leadingWord m).log2 = min m.log2 63 := by
  by_cases small : m.log2 ≤ 63
  · rw [leadingWord_of_log2_le small, Nat.min_eq_left small]
  · obtain ⟨lower, upper⟩ := shiftRight_leading_bounds (Nat.lt_of_not_le small)
    have trail_lt : (hasTrail m).toNat < 2 ^ 64 :=
      Nat.lt_of_lt_of_le (Bool.toNat_lt _) (by decide)
    have le : 2 ^ 63 ≤ leadingWord m := Nat.le_trans lower Nat.left_le_or
    have lt : leadingWord m < 2 ^ 64 := Nat.or_lt_two_pow upper trail_lt
    rw [Nat.min_eq_right (by omega), Nat.log2_eq_iff (by omega)]
    exact ⟨le, lt⟩

/-- The trail does not reach into the bits that are kept. -/
theorem leadingWord_shiftRight (m : Nat) :
    leadingWord m >>> ((leadingWord m).log2 - 52) = m / 2 ^ (m.log2 - 52) := by
  rw [log2_leadingWord]
  by_cases small : m.log2 ≤ 63
  · rw [leadingWord_of_log2_le small, Nat.min_eq_left small, Nat.shiftRight_eq_div_pow]
  · have no_bit : (hasTrail m).toNat >>> 11 = 0 := by cases hasTrail m <;> rfl
    have places : m.log2 - 63 + 11 = m.log2 - 52 := by omega
    rw [Nat.min_eq_right (by omega), leadingWord, Nat.shiftRight_or_distrib, no_bit, Nat.or_zero,
      ← Nat.shiftRight_add, places, Nat.shiftRight_eq_div_pow]

/-- There is no trail behind an integer whose bits are all kept. -/
theorem hasTrail_of_dvd {m : Nat} (divides : 2 ^ (m.log2 - 52) ∣ m) : hasTrail m = false := by
  rw [hasTrail, List.any_eq_false]
  intro word member
  have words : 64 * word + 64 ≤ m.log2 := by
    rw [List.mem_range] at member
    omega
  have places : m.log2 - 52 =
      64 * word + (m.log2 % 64 + 1) + (m.log2 - 64 * word - m.log2 % 64 - 53) := by omega
  rw [places, Nat.pow_add, Nat.pow_add] at divides
  have none_set : m >>> (64 * word) % (1 <<< (m.log2 % 64 + 1)) = 0 := by
    rw [Nat.shiftRight_eq_div_pow, Nat.one_shiftLeft, ← Nat.dvd_iff_mod_eq_zero]
    exact Nat.dvd_div_of_mul_dvd (dvd_of_mul_right_dvd divides)
  simpa using none_set

theorem dvd_leadingWord {m : Nat} (divides : 2 ^ (m.log2 - 52) ∣ m) :
    2 ^ ((leadingWord m).log2 - 52) ∣ leadingWord m := by
  rw [log2_leadingWord]
  by_cases small : m.log2 ≤ 63
  · rw [leadingWord_of_log2_le small, Nat.min_eq_left small]
    exact divides
  · have places : m.log2 - 52 = m.log2 - 63 + 11 := by omega
    rw [Nat.min_eq_right (by omega), leadingWord, hasTrail_of_dvd divides, Bool.toNat_false,
      Nat.or_zero, Nat.shiftRight_eq_div_pow]
    rw [places, Nat.pow_add] at divides
    exact Nat.dvd_div_of_mul_dvd divides

/-! ## The significand -/

theorem roundShift_eq_or (m shift : Nat) :
    roundShift m shift = m >>> shift ∨
      roundShift m shift = m >>> shift + 1 ∧ ¬ 2 ^ shift ∣ m := by
  rw [roundShift]
  split <;> rename_i up
  · right
    refine ⟨rfl, fun divides => ?_⟩
    rw [Nat.one_shiftLeft, Nat.mod_eq_zero_of_dvd divides] at up
    have unit_pos := Nat.two_pow_pos shift
    omega
  · exact .inl rfl

@[simp]
theorem roundShift_zero (m : Nat) : roundShift m 0 = m := by
  simpa using roundShift_eq_or m 0

/-- The significand that a positive integer rounds to. -/
def roundedSignificand (m : Nat) : Nat :=
  roundShift (leadingWord m <<< (52 - (leadingWord m).log2)) ((leadingWord m).log2 - 52)

/-- The magnitude that a positive integer rounds to, as if there were no greatest one. -/
def roundedMagnitude (m : Nat) : Nat :=
  (m.log2 + 1022) * 2 ^ 52 + roundedSignificand m

theorem roundedSignificand_of_le {m : Nat} (small : m.log2 ≤ 52) :
    roundedSignificand m = m * 2 ^ (52 - m.log2) := by
  have word : leadingWord m = m := leadingWord_of_log2_le (by omega)
  rw [roundedSignificand, word, Nat.sub_eq_zero_of_le small, roundShift_zero, Nat.shiftLeft_eq]

theorem roundedSignificand_of_lt {m : Nat} (large : 52 < m.log2) :
    roundedSignificand m = m / 2 ^ (m.log2 - 52) ∨
      roundedSignificand m = m / 2 ^ (m.log2 - 52) + 1 ∧ ¬ 2 ^ (m.log2 - 52) ∣ m := by
  have full : 52 - (leadingWord m).log2 = 0 := by
    rw [log2_leadingWord]
    omega
  rw [roundedSignificand, full, Nat.shiftLeft_zero, ← leadingWord_shiftRight]
  refine (roundShift_eq_or _ _).imp_right fun ⟨up, uneven⟩ => ⟨up, fun divides => ?_⟩
  exact uneven (dvd_leadingWord divides)

/-- A small integer is scaled up to a full significand, and rounds to itself. -/
theorem units_roundedMagnitude {m : Nat} (ne : m ≠ 0) (small : m.log2 ≤ 52) :
    units (roundedMagnitude m) = m * 2 ^ 1074 := by
  obtain ⟨lower, upper⟩ := (Nat.log2_eq_iff ne).mp rfl
  have significand_ge : 2 ^ 52 ≤ m * 2 ^ (52 - m.log2) := by
    calc 2 ^ 52 = 2 ^ m.log2 * 2 ^ (52 - m.log2) := by rw [← Nat.pow_add]; congr 1; omega
      _ ≤ m * 2 ^ (52 - m.log2) := Nat.mul_le_mul_right _ lower
  have significand_lt : m * 2 ^ (52 - m.log2) < 2 ^ 53 := by
    calc m * 2 ^ (52 - m.log2) < 2 ^ (m.log2 + 1) * 2 ^ (52 - m.log2) :=
          Nat.mul_lt_mul_of_pos_right upper (Nat.two_pow_pos _)
      _ = 2 ^ 53 := by rw [← Nat.pow_add]; congr 1; omega
  have powers : 52 - m.log2 + (m.log2 + 1022) = 1074 := by omega
  calc units (roundedMagnitude m) = m * 2 ^ (52 - m.log2) * 2 ^ (m.log2 + 1022) := by
        rw [roundedMagnitude, roundedSignificand_of_le small,
          units_eq (.inr significand_ge) (Nat.le_of_lt significand_lt)]
    _ = m * 2 ^ (52 - m.log2 + (m.log2 + 1022)) := by rw [Nat.mul_assoc, ← Nat.pow_add]
    _ = m * 2 ^ 1074 := congrArg (m * 2 ^ ·) powers

/-- The leading fifty-three bits of a large integer fill a significand. -/
theorem div_two_pow_bounds {m : Nat} (large : 52 < m.log2) :
    2 ^ 52 ≤ m / 2 ^ (m.log2 - 52) ∧ m / 2 ^ (m.log2 - 52) < 2 ^ 53 := by
  have ne : m ≠ 0 := by
    rintro rfl
    simp at large
  obtain ⟨lower, upper⟩ := (Nat.log2_eq_iff ne).mp rfl
  have power : 52 + (m.log2 - 52) = m.log2 := by omega
  have power_succ : 53 + (m.log2 - 52) = m.log2 + 1 := by omega
  constructor
  · rw [Nat.le_div_iff_mul_le (Nat.two_pow_pos _), ← Nat.pow_add, power]
    exact lower
  · rw [Nat.div_lt_iff_lt_mul (Nat.two_pow_pos _), ← Nat.pow_add, power_succ]
    exact upper

/-- The units of a significand with the exponent of a large integer. -/
theorem units_exponent {m significand : Nat} (large : 52 < m.log2) (normal : 2 ^ 52 ≤ significand)
    (le : significand ≤ 2 ^ 53) :
    units ((m.log2 + 1022) * 2 ^ 52 + significand) =
      significand * 2 ^ (m.log2 - 52) * 2 ^ 1074 := by
  have powers : m.log2 - 52 + 1074 = m.log2 + 1022 := by omega
  rw [units_eq (.inr normal) le, Nat.mul_assoc, ← Nat.pow_add, powers]

/-- The units of an integer lie between those of two neighbours, and it rounds to one of them. -/
theorem roundedMagnitude_spec {m : Nat} (ne : m ≠ 0) :
    ∃ below, units below ≤ m * 2 ^ 1074 ∧ m * 2 ^ 1074 < units (below + 1) ∧
      (roundedMagnitude m = below ∨
        roundedMagnitude m = below + 1 ∧ units below < m * 2 ^ 1074) := by
  by_cases small : m.log2 ≤ 52
  · have same := units_roundedMagnitude ne small
    refine ⟨roundedMagnitude m, Nat.le_of_eq same, ?_, .inl rfl⟩
    rw [← same]
    exact units_strictMono (Nat.lt_succ_self _)
  · have large := Nat.lt_of_not_le small
    have unit_pos : 0 < 2 ^ (m.log2 - 52) := Nat.two_pow_pos _
    obtain ⟨normal, lt⟩ := div_two_pow_bounds large
    have below := units_exponent large normal (Nat.le_of_lt lt)
    have above := units_exponent large (Nat.le_succ_of_le normal) lt
    refine ⟨(m.log2 + 1022) * 2 ^ 52 + m / 2 ^ (m.log2 - 52), ?_, ?_, ?_⟩
    · rw [below]
      exact Nat.mul_le_mul_right _ (Nat.div_mul_le_self m _)
    · have lt_next : m < (m / 2 ^ (m.log2 - 52) + 1) * 2 ^ (m.log2 - 52) := by
        rw [Nat.mul_comm]
        exact Nat.lt_mul_div_succ m unit_pos
      rw [Nat.add_assoc, above]
      exact Nat.mul_lt_mul_of_pos_right lt_next (pow_pos Nat.two_pos 1074)
    · rw [roundedMagnitude, Nat.add_assoc, Nat.add_left_cancel_iff, Nat.add_left_cancel_iff, below]
      refine (roundedSignificand_of_lt large).imp_right fun ⟨up, uneven⟩ => ⟨up, ?_⟩
      have inexact : m / 2 ^ (m.log2 - 52) * 2 ^ (m.log2 - 52) ≠ m :=
        fun same => uneven ⟨_, by rw [Nat.mul_comm, same]⟩
      have lt_self := Nat.lt_of_le_of_ne (Nat.div_mul_le_self m _) inexact
      exact Nat.mul_lt_mul_of_pos_right lt_self (pow_pos Nat.two_pos 1074)

/-! ## Order -/

theorem le_roundedMagnitude {m magnitude : Nat} (ne : m ≠ 0)
    (le : units magnitude ≤ m * 2 ^ 1074) : magnitude ≤ roundedMagnitude m := by
  obtain ⟨below, -, above, rounded⟩ := roundedMagnitude_spec ne
  have units_lt : units magnitude < units (below + 1) := Nat.lt_of_le_of_lt le above
  have lt := units_strictMono.lt_iff_lt.mp units_lt
  rcases rounded with rounded | ⟨rounded, -⟩
  · rw [rounded]
    exact Nat.le_of_lt_succ lt
  · rw [rounded]
    exact Nat.le_of_lt lt

theorem roundedMagnitude_le {m magnitude : Nat} (ne : m ≠ 0)
    (le : m * 2 ^ 1074 ≤ units magnitude) : roundedMagnitude m ≤ magnitude := by
  obtain ⟨below, below_le, -, rounded | ⟨rounded, below_lt⟩⟩ := roundedMagnitude_spec ne
  · rw [rounded]
    exact units_strictMono.le_iff_le.mp (Nat.le_trans below_le le)
  · rw [rounded]
    exact units_strictMono.lt_iff_lt.mp (Nat.lt_of_lt_of_le below_lt le)

/-! ## Numbers -/

/-- The number that an integer rounds to; what lies beyond the greatest number is infinite. -/
theorem ofInt_of_ne_zero {n : Int} (ne : n ≠ 0) :
    ofInt n = ofMagnitude (n < 0) (min (roundedMagnitude n.natAbs) infiniteMagnitude) := by
  have word_ne : leadingWord n.natAbs ≠ 0 := by
    intro zero
    have log2_zero := log2_leadingWord n.natAbs
    rw [zero, Nat.log2_zero] at log2_zero
    rw [leadingWord_of_log2_le (by omega)] at zero
    omega
  have target_eq : targetExponent (leadingWord n.natAbs) ((n.natAbs.log2 - 63 : Nat) : Int) =
      n.natAbs.log2 - 52 := by
    rw [targetExponent, log2_leadingWord]
    omega
  have field : ((n.natAbs.log2 : Int) - 52 + 1074).toNat = n.natAbs.log2 + 1022 := by omega
  have up : (((n.natAbs.log2 - 63 : Nat) : Int) - (n.natAbs.log2 - 52)).toNat =
      52 - (leadingWord n.natAbs).log2 := by
    rw [log2_leadingWord]
    omega
  have down : ((n.natAbs.log2 : Int) - 52 - ((n.natAbs.log2 - 63 : Nat) : Int)).toNat =
      (leadingWord n.natAbs).log2 - 52 := by
    rw [log2_leadingWord]
    omega
  rw [ofInt, ofScaled, if_neg word_ne]
  simp only [target_eq, field, up, down, Nat.shiftLeft_eq _ 52]
  rfl

theorem min_infiniteMagnitude_lt (magnitude : Nat) : min magnitude infiniteMagnitude < 2 ^ 63 :=
  Nat.lt_of_le_of_lt (Nat.min_le_right _ _) (by decide)

theorem key_ofInt {n : Int} (ne : n ≠ 0) :
    (ofInt n).key = if n < 0 then -((min (roundedMagnitude n.natAbs) infiniteMagnitude : Nat) : Int)
      else (min (roundedMagnitude n.natAbs) infiniteMagnitude : Nat) := by
  have lt := min_infiniteMagnitude_lt (roundedMagnitude n.natAbs)
  rw [ofInt_of_ne_zero ne, key, isNegative_ofMagnitude _ lt, magnitude_ofMagnitude _ lt]
  simp only [decide_eq_true_eq]

theorem key_ofInt_zero : (ofInt 0).key = 0 := by
  decide

theorem isNaN_ofInt (n : Int) : (ofInt n).isNaN = false := by
  by_cases zero : n = 0
  · subst zero
    decide
  · have lt := min_infiniteMagnitude_lt (roundedMagnitude n.natAbs)
    rw [isNaN, ofInt_of_ne_zero zero, magnitude_ofMagnitude _ lt]
    simp

end Float64
end ObjectModel
