import ObjectModel.Digest
import Mathlib.Algebra.Group.Nat.Defs

/-!
# What digests keep

One step of a digest loses nothing: from the new digest and the word, or from the new digest and the
old one, the third can be found. So two lists that differ in one word have different digests.
-/

namespace ObjectModel
namespace Digest

/-- The word that undoes a multiplication by the multiplier. -/
def inverse : UInt64 := 0x781494a55daaed0d

theorem multiplier_mul_inverse : multiplier * inverse = 1 := by
  decide

theorem add_eq_of_mix_eq {digest word other_digest other_word : UInt64}
    (same : mix digest word = mix other_digest other_word) :
    digest + word = other_digest + other_word := by
  have undone := congrArg (· * inverse) same
  simpa only [mix, UInt64.mul_assoc, multiplier_mul_inverse, UInt64.mul_one] using undone

theorem mix_left_injective (word : UInt64) : Function.Injective (mix · word) := by
  intro digest other same
  exact (UInt64.add_left_inj word).mp (add_eq_of_mix_eq same)

theorem mix_right_injective (digest : UInt64) : Function.Injective (mix digest) := by
  intro word other same
  exact (UInt64.add_right_inj digest).mp (add_eq_of_mix_eq same)

theorem toNat_rotate (word : UInt64) :
    (rotate word).toNat = 2 ^ 26 * (word.toNat % 2 ^ 38) + word.toNat / 2 ^ 38 := by
  have below := word.toNat_lt
  have small : word.toNat / 2 ^ 38 < 2 ^ 26 := by omega
  have shifted : (word <<< 26).toNat = 2 ^ 26 * (word.toNat % 2 ^ 38) := by
    simp only [UInt64.toNat_shiftLeft, UInt64.reduceToNat, Nat.reduceMod, Nat.shiftLeft_eq]
    omega
  have fallen : (word >>> 38).toNat = word.toNat / 2 ^ 38 := by
    simp only [UInt64.toNat_shiftRight, UInt64.reduceToNat, Nat.reduceMod,
      Nat.shiftRight_eq_div_pow]
  rw [rotate, UInt64.toNat_or, shifted, fallen, Nat.two_pow_add_eq_or_of_lt small]

theorem rotate_injective : Function.Injective rotate := by
  intro word other same
  have same_nat := congrArg UInt64.toNat same
  rw [toNat_rotate, toNat_rotate] at same_nat
  have below := word.toNat_lt
  have below_other := other.toNat_lt
  apply UInt64.toNat_inj.mp
  omega

theorem foldl_mix_injective (words : List UInt64) :
    Function.Injective fun digest => words.foldl mix digest := by
  induction words with
  | nil => exact Function.injective_id
  | cons word words induction => exact induction.comp (mix_left_injective word)

/-- Lists that differ in one word have different digests. -/
theorem tagged_injective (domain : Domain) (front back : List UInt64) :
    Function.Injective fun word => tagged domain (front ++ word :: back) := by
  intro word other same
  have folded := rotate_injective same
  rw [List.foldl_append, List.foldl_append, List.foldl_cons, List.foldl_cons] at folded
  exact mix_right_injective _ (foldl_mix_injective back folded)

end Digest
end ObjectModel
