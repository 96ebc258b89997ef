import ObjectModel.Proofs.Float64.Rounding
import Mathlib

/-!
# Places in the order of numbers

Every number has an exact place: the finite ones and the integers are multiples of the smallest
positive number, and the infinities lie at both ends. Floating-point numbers are ordered by their
places. Between an integer and a floating-point number the order of the rounded integer is that of
the places as well, or takes them for equal where their places differ.
-/

namespace ObjectModel
namespace Float64

/-- The exact value of the numbers at a position, in units of the smallest positive number. -/
def unitsAt (position : Int) : Int :=
  if position < 0 then -(units position.natAbs : Int) else units position.natAbs

theorem unitsAt_neg (position : Int) : unitsAt (-position) = -unitsAt position := by
  have zero : units 0 = 0 := rfl
  rcases Int.lt_trichotomy position 0 with negative | rfl | positive
  · simp [unitsAt, negative, Int.not_lt_of_ge (Int.le_of_lt negative)]
  · simp [unitsAt, zero]
  · simp [unitsAt, positive, Int.not_lt_of_ge (Int.le_of_lt positive)]

theorem unitsAt_strictMono : StrictMono unitsAt := by
  intro left right lt
  have mono : ∀ {m n : Nat}, m < n → (units m : Int) < units n := fun lt =>
    Int.ofNat_lt.mpr (units_strictMono lt)
  have zero : units 0 = 0 := rfl
  rw [unitsAt, unitsAt]
  split <;> split
  · exact Int.neg_lt_neg (mono (by omega))
  · have negative : (units 0 : Int) < units left.natAbs := mono (by omega)
    omega
  · omega
  · exact mono (by omega)

/-- The place of a number in the order: the infinities lie at both ends, and between them the
multiples of the smallest positive number. -/
def place (x : Float64) : WithBot (WithTop Int) :=
  if x.key ≤ -infiniteMagnitude then ⊥
  else if infiniteMagnitude ≤ x.key then ⊤
  else (unitsAt x.key : WithTop Int)

theorem isNaN_eq_false_iff {x : Float64} :
    x.isNaN = false ↔ -(infiniteMagnitude : Int) ≤ x.key ∧ x.key ≤ infiniteMagnitude := by
  have magnitude_eq := x.natAbs_key
  rw [isNaN, decide_eq_false_iff_not]
  omega

theorem place_lt_of_key_lt {x y : Float64} (number : x.isNaN = false)
    (other_number : y.isNaN = false) (lt : x.key < y.key) : x.place < y.place := by
  rw [isNaN_eq_false_iff] at number other_number
  rw [place, place]
  split
  · rw [if_neg (by omega)]
    split
    · exact bot_lt_top
    · exact WithBot.bot_lt_coe _
  · rw [if_neg (by omega : ¬ infiniteMagnitude ≤ x.key), if_neg (by omega : ¬ y.key ≤ _)]
    split
    · exact WithBot.coe_lt_coe.mpr (WithTop.coe_lt_top _)
    · exact WithBot.coe_lt_coe.mpr (WithTop.coe_lt_coe.mpr (unitsAt_strictMono lt))


theorem cmp_place {x y : Float64} (number : x.isNaN = false) (other_number : y.isNaN = false) :
    cmp x.place y.place = compare x.key y.key := by
  rw [← cmp_eq_compare]
  rcases lt_trichotomy x.key y.key with lt | same | gt
  · have place_lt := place_lt_of_key_lt number other_number lt
    rw [(cmp_eq_lt_iff _ _).mpr lt, (cmp_eq_lt_iff _ _).mpr place_lt]
  · rw [place, place, same, cmp_self_eq_eq, cmp_self_eq_eq]
  · have place_lt := place_lt_of_key_lt other_number number gt
    rw [(cmp_eq_gt_iff _ _).mpr gt, (cmp_eq_gt_iff _ _).mpr place_lt]

theorem compare?_eq {x y : Float64} (number : x.isNaN = false) (other_number : y.isNaN = false) :
    x.compare? y = some (compare x.key y.key) := by
  simp [compare?, number, other_number]

/-- The place of an integer. -/
def placeOfInt (n : Int) : WithBot (WithTop Int) :=
  ((n * 2 ^ 1074 : Int) : WithTop Int)

theorem placeOfInt_strictMono : StrictMono placeOfInt := by
  intro m n lt
  apply WithBot.coe_lt_coe.mpr
  apply WithTop.coe_lt_coe.mpr
  exact Int.mul_lt_mul_of_pos_right lt (pow_pos two_pos 1074)

/-! ## Integers among floating-point numbers -/

theorem key_ofInt_neg (n : Int) : (ofInt (-n)).key = -(ofInt n).key := by
  rcases Int.lt_trichotomy n 0 with negative | rfl | positive
  · rw [key_ofInt (by omega), key_ofInt (by omega), if_neg (by omega), if_pos negative,
      Int.natAbs_neg, Int.neg_neg]
  · decide
  · rw [key_ofInt (by omega), key_ofInt (by omega), if_pos (by omega), if_neg (by omega),
      Int.natAbs_neg]

/-- An integer that is at most a finite number is rounded to at most that number. -/
theorem key_ofInt_le_of_le_unitsAt {n position : Int}
    (least : -(infiniteMagnitude : Int) ≤ position) (le : n * 2 ^ 1074 ≤ unitsAt position) :
    (ofInt n).key ≤ position := by
  rcases Int.lt_trichotomy n 0 with negative | rfl | positive
  · rw [key_ofInt (Int.ne_of_lt negative), if_pos negative]
    by_cases nonnegative : 0 ≤ position
    · omega
    · have units_le : units position.natAbs ≤ n.natAbs * 2 ^ 1074 := by
        rw [unitsAt, if_pos (by omega)] at le
        zify
        rw [abs_of_neg negative, neg_mul]
        exact le_neg.mp le
      have le_rounded := le_roundedMagnitude (by omega) units_le
      omega
  · rw [key_ofInt_zero]
    rw [zero_mul] at le
    exact unitsAt_strictMono.le_iff_le.mp le
  · rw [key_ofInt (Int.ne_of_gt positive), if_neg (by omega)]
    have value_pos : 0 < n * 2 ^ 1074 := Int.mul_pos positive (pow_pos two_pos 1074)
    have position_pos : 0 < position := unitsAt_strictMono.lt_iff_lt.mp (value_pos.trans_le le)
    have le_units : n.natAbs * 2 ^ 1074 ≤ units position.natAbs := by
      rw [unitsAt, if_neg (by omega)] at le
      zify
      rw [abs_of_pos positive]
      exact le
    have rounded_le := roundedMagnitude_le (by omega) le_units
    omega

theorem le_key_ofInt_of_unitsAt_le {n position : Int} (greatest : position ≤ infiniteMagnitude)
    (le : unitsAt position ≤ n * 2 ^ 1074) : position ≤ (ofInt n).key := by
  have reflected : (ofInt (-n)).key ≤ -position := by
    apply key_ofInt_le_of_le_unitsAt (by omega)
    rw [unitsAt_neg, neg_mul]
    exact neg_le_neg le
  rw [key_ofInt_neg] at reflected
  omega

theorem place_of_lt {x : Float64} (above : -(infiniteMagnitude : Int) < x.key)
    (below : x.key < infiniteMagnitude) : x.place = (unitsAt x.key : WithTop Int) := by
  rw [place, if_neg (Int.not_le_of_gt above), if_neg (Int.not_le_of_gt below)]

theorem key_ofInt_le_of_place_le {n : Int} {x : Float64} (number : x.isNaN = false)
    (le : placeOfInt n ≤ x.place) : (ofInt n).key ≤ x.key := by
  have integral := isNaN_eq_false_iff.mp (isNaN_ofInt n)
  rw [isNaN_eq_false_iff] at number
  rw [place] at le
  split at le
  · exact (WithBot.not_coe_le_bot _ le).elim
  · split at le
    · omega
    · exact key_ofInt_le_of_le_unitsAt number.1 (WithTop.coe_le_coe.mp (WithBot.coe_le_coe.mp le))

theorem le_key_ofInt_of_le_place {n : Int} {x : Float64} (number : x.isNaN = false)
    (le : x.place ≤ placeOfInt n) : x.key ≤ (ofInt n).key := by
  have integral := isNaN_eq_false_iff.mp (isNaN_ofInt n)
  rw [isNaN_eq_false_iff] at number
  rw [place] at le
  split at le
  · omega
  · split at le
    · exact (WithTop.not_top_le_coe _ (WithBot.coe_le_coe.mp le)).elim
    · exact le_key_ofInt_of_unitsAt_le number.2 (WithTop.coe_le_coe.mp (WithBot.coe_le_coe.mp le))

theorem unitsAt_key (x : Float64) :
    unitsAt x.key = if x.isNegative then -(x.multiple : Int) else x.multiple := by
  have units_natCast : unitsAt x.magnitude = x.multiple := by
    rw [unitsAt, if_neg (Int.not_lt_of_ge (Int.natCast_nonneg _)), Int.natAbs_natCast,
      multiple_eq_units]
  rw [key]
  split
  · rw [unitsAt_neg, units_natCast]
  · exact units_natCast

theorem isFinite_iff {x : Float64} :
    x.isFinite ↔ -(infiniteMagnitude : Int) < x.key ∧ x.key < infiniteMagnitude := by
  have magnitude_eq := x.natAbs_key
  rw [isFinite, decide_eq_true_eq]
  omega

theorem isFinite_of_toInt? {x : Float64} {n : Int} (integral : x.toInt? = some n) :
    x.isFinite := by
  by_contra infinite
  rw [toInt?, Bool.eq_false_iff.mpr infinite] at integral
  contradiction

theorem unitsAt_key_of_toInt? {x : Float64} {n : Int} (integral : x.toInt? = some n) :
    n * 2 ^ 1074 = unitsAt x.key := by
  obtain ⟨multiple_eq, sign⟩ := toInt?_eq_some integral
  rw [unitsAt_key, ← multiple_eq, Nat.cast_mul, Nat.cast_pow, Int.natCast_natAbs]
  split <;> rename_i negative
  · rw [if_pos negative] at sign
    rw [abs_of_nonpos sign, neg_mul, neg_neg]
    rfl
  · rw [if_neg negative] at sign
    rw [abs_of_nonneg sign]
    rfl

theorem toInt?_of_unitsAt_key {x : Float64} {n : Int} (finite : x.isFinite)
    (whole : n * 2 ^ 1074 = unitsAt x.key) : x.toInt? = some n := by
  have one_pos : 0 < (2 : Int) ^ 1074 := pow_pos two_pos 1074
  have multiple_nonneg := Int.natCast_nonneg x.multiple
  rw [unitsAt_key] at whole
  split at whole <;> rename_i negative
  · have sign : n ≤ 0 := nonpos_of_mul_nonpos_left (by omega) one_pos
    have multiple_eq : x.multiple = n.natAbs * 2 ^ 1074 := by
      zify
      rw [abs_of_nonpos sign, neg_mul, whole, neg_neg]
    rw [toInt?_of_multiple_eq finite multiple_eq, if_pos negative]
    congr
    omega
  · have sign : 0 ≤ n := nonneg_of_mul_nonneg_left (by omega) one_pos
    have multiple_eq : x.multiple = n.natAbs * 2 ^ 1074 := by
      zify
      rw [abs_of_nonneg sign, whole]
    rw [toInt?_of_multiple_eq finite multiple_eq, if_neg negative]
    congr
    omega

/-- An integer and a number have the same place if the number is equal to the integer. -/
theorem placeOfInt_eq_iff {x : Float64} {n : Int} :
    placeOfInt n = x.place ↔ x.toInt? = some n := by
  constructor
  · intro same
    rw [place] at same
    split at same
    · exact (WithBot.coe_ne_bot same).elim
    · split at same
      · exact (WithTop.coe_ne_top (WithBot.coe_inj.mp same)).elim
      · exact toInt?_of_unitsAt_key (isFinite_iff.mpr ⟨by omega, by omega⟩)
          (WithTop.coe_inj.mp (WithBot.coe_inj.mp same))
  · intro integral
    obtain ⟨above, below⟩ := isFinite_iff.mp (isFinite_of_toInt? integral)
    rw [place_of_lt above below, ← unitsAt_key_of_toInt? integral]
    rfl

theorem compare_ofInt {n : Int} {x : Float64} (number : x.isNaN = false) :
    compare (ofInt n).key x.key = cmp (placeOfInt n) x.place ∨
      (ofInt n).key = x.key ∧ placeOfInt n ≠ x.place := by
  rcases lt_trichotomy (placeOfInt n) x.place with lt | same | gt
  · have le := key_ofInt_le_of_place_le number (le_of_lt lt)
    rcases Int.lt_or_eq_of_le le with key_lt | key_eq
    · left
      rw [← cmp_eq_compare, (cmp_eq_lt_iff _ _).mpr lt, (cmp_eq_lt_iff _ _).mpr key_lt]
    · exact .inr ⟨key_eq, ne_of_lt lt⟩
  · have le := key_ofInt_le_of_place_le number (le_of_eq same)
    have ge := le_key_ofInt_of_le_place number (ge_of_eq same)
    left
    rw [Int.le_antisymm le ge, same, cmp_self_eq_eq, ← cmp_eq_compare, cmp_self_eq_eq]
  · have ge := le_key_ofInt_of_le_place number (le_of_lt gt)
    rcases Int.lt_or_eq_of_le ge with key_gt | key_eq
    · left
      rw [← cmp_eq_compare, (cmp_eq_gt_iff _ _).mpr gt, (cmp_eq_gt_iff _ _).mpr key_gt]
    · exact .inr ⟨key_eq.symm, ne_of_gt gt⟩

end Float64
end ObjectModel
