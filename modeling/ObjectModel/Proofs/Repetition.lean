import ObjectModel.Arithmetic
import ObjectModel.Proofs.Selection
import ObjectModel.Proofs.Store.Insertion

/-!
# Repetition

Sequences are repeated by integers and truth values. A list and a byte array can be repeated in
place, where they take over what the plain operator makes a new object of. A list that is not
repeated once is left alone, and a new empty list is the result.
-/

namespace ObjectModel

open Effect

variable {right : Value} {world : World} {ref : Ref}

/-! ## Counts -/

namespace Sequence

variable {α : Type} {replicate : Nat → Except Fault α}

theorem times_of_count {count : Nat} (counts : repeatCount right = .ok count) :
    times replicate right = replicate count := by
  rw [times, counts]
  rfl

theorem times_of_no_count {fault : Fault} (fails : repeatCount right = .error fault) :
    times replicate right = .error fault := by
  rw [times, fails]
  rfl

/-- What repeats something at least once is an integer that is positive. -/
theorem integer?_any_of_count {count : Nat} (counts : repeatCount right = .ok count) :
    right.integer?.any (1 ≤ ·) = (count != 0) := by
  cases right with
  | bool b =>
      obtain rfl := Except.ok.inj counts
      cases b <;> rfl
  | int n =>
      rw [repeatCount] at counts
      split_ifs at counts with not_positive fits
      · obtain rfl := Except.ok.inj counts
        exact decide_eq_false (by omega)
      · obtain rfl := Except.ok.inj counts
        have positive : 1 ≤ n := by omega
        have some_times : n.toNat ≠ 0 := by omega
        exact (decide_eq_true positive).trans (bne_iff_ne.mpr some_times).symm
  | _ => contradiction

theorem replicate_one (memory : Memory) (size length : Nat) (items : List α) :
    Sequence.replicate memory size length items 1 = .ok items := by
  rw [Sequence.replicate]
  cases items with
  | nil => rfl
  | cons item items =>
      rw [if_neg (by simp), if_pos (by simp [fits])]
      simp

theorem repeatCount_of_sequence (is_sequence : right.isOneOf KindSet.sequences) :
    repeatCount right = .error (.repeatedByNonInt right.kind) := by
  rw [Value.isOneOf, decide_eq_true_eq, KindSet.mem_sequences_iff] at is_sequence
  cases right <;> first | rfl | simp [Value.kind] at is_sequence

end Sequence

/-! ## Byte arrays -/

theorem outcome_repeatSequence_bytearray (fault : Fault) (ref : Ref) (right : Value)
    (world : World) :
    outcome (repeatSequence fault (.bytearray ref) right) world =
      outcome (do
        newBytearray (← ofExcept
          (Sequence.times (world.store.replicateBytes (world.store.buffer ref)) right))) world := by
  rw [repeatSequence, outcome_bind_of_ok (outcome_getStore world)]

theorem outcome_binary_mul_bytearray (ref : Ref) (right : Value) (world : World) :
    outcome (Value.binary .mul (.bytearray ref) right) world =
      outcome (do
        newBytearray (← ofExcept
          (Sequence.times (world.store.replicateBytes (world.store.buffer ref)) right))) world :=
  outcome_repeatSequence_bytearray (.unsupportedOperands .mul false .bytearray right.kind) ref right
    world

theorem outcome_inplace_mul_bytearray (ref : Ref) (right : Value) (world : World) :
    outcome (Value.inplace .mul (.bytearray ref) right) world =
      outcome (do
        setBuffer ref (← ofExcept
          (Sequence.times (world.store.replicateBytes (world.store.buffer ref)) right))
        return .bytearray ref) world := by
  rw [Value.inplace, inplaceBytearray, outcome_bind_of_ok (outcome_getStore world)]
  by_cases is_sequence : right.isOneOf KindSet.sequences
  · have repeats : outcome (binaryScalar .mul true (.bytearray ref) right) world = _ :=
      outcome_repeatSequence_bytearray (.unsupportedOperands .mul true .bytearray right.kind) ref
        right world
    have fails : Sequence.times (world.store.replicateBytes (world.store.buffer ref)) right = _ :=
      Sequence.times_of_no_count (Sequence.repeatCount_of_sequence is_sequence)
    rw [fails] at repeats ⊢
    rw [if_pos is_sequence, repeats]
    rfl
  · rw [if_neg is_sequence]

/-! ## Lists -/

theorem outcome_binary_mul_list (ref : Ref) (right : Value) (world : World) :
    outcome (Value.binary .mul (.list ref) right) world =
      outcome (do
        newList (← ofExcept
          (Sequence.times (world.store.replicateValues (world.store.list ref)) right))) world := by
  rw [Value.binary, binaryList, repeatSequence, outcome_bind_of_ok (outcome_getStore world)]

/-- A list that is repeated by truth is what the repeated items would make of it. -/
theorem outcome_inplace_mul_list (ref : Ref) {count : Nat}
    (counts : Sequence.repeatCount right = .ok count) (world : World) :
    outcome (Value.inplace .mul (.list ref) right) world =
      if count = 0 then outcome (newList []) world
      else
        outcome (do
          setList ref (← ofExcept (world.store.replicateValues (world.store.list ref) count))
          return .list ref) world := by
  cases right with
  | bool b =>
      obtain rfl := Except.ok.inj counts
      cases b with
      | false => rfl
      | true =>
          have stays : outcome (setList ref (world.store.list ref)) world = (.ok (), world) := by
            have same : world.store.lists.set ref (world.store.list ref) = world.store.lists :=
              world.store.lists.set_get ref
            rw [setList, outcome_modifyStore, same]
          rw [if_neg (by decide), show true.toNat = 1 from rfl, Store.replicateValues,
            Sequence.replicate_one]
          change _ = outcome
            (setList ref (world.store.list ref) >>= fun _ => pure (Value.list ref)) world
          rw [outcome_bind_of_ok stays]
          rfl
  | int n =>
      rw [Value.inplace, inplaceList, outcome_bind_of_ok (outcome_getStore world)]
      dsimp only
      rw [counts, outcome_bind, outcome_ofExcept]
      dsimp only
      split <;> rfl
  | _ => contradiction

theorem outcome_inplace_mul_list_of_no_count (ref : Ref) {fault : Fault}
    (fails : Sequence.repeatCount right = .error fault) (world : World) :
    outcome (Value.inplace .mul (.list ref) right) world = (.error fault, world) := by
  cases right with
  | bool b => contradiction
  | _ =>
      rw [Value.inplace, inplaceList, outcome_bind_of_ok (outcome_getStore world)]
      dsimp only
      rw [fails]
      rfl

end ObjectModel
