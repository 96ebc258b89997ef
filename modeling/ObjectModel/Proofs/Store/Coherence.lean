import ObjectModel.Proofs.Store.KeyEquality
import Mathlib

/-!
# Hashes of equal keys

Equal keys have the same hash, whatever their kinds, as long as their zeros agree: a complex number
with an imaginary part keeps the sign of a zero real part in its hash, and equality does not see it.
Tuples inherit this from their items. Sets do not, for their elements are found by their hashes.
-/

namespace ObjectModel

/-- Tables with the same hashes in any order have the same digest. -/
theorem Table.digest_eq_of_perm {κ ν : Type} {left right : Table κ ν} {paired : List (Entry κ ν)}
    (perm : paired.Perm right.entries)
    (pairs : List.Forall₂ (fun entry found => entry.hash = found.hash) left.entries paired) :
    left.digest = right.digest := by
  have same_hashes : left.entries.map (·.hash) = paired.map (·.hash) := by
    rw [← List.forall₂_eq_eq_eq, List.forall₂_map_left_iff, List.forall₂_map_right_iff]
    exact pairs
  have any_order : ∀ x y z : UInt64, z ^^^ x ^^^ y = z ^^^ y ^^^ x := by
    intro x y z
    rw [UInt64.xor_assoc, UInt64.xor_comm x, UInt64.xor_assoc]
  have digest_eq : ∀ table : Table κ ν,
      table.digest = (table.entries.map (·.hash)).foldl (· ^^^ ·) 0 := by
    intro table
    rw [digest, List.foldl_map]
  rw [digest_eq, digest_eq, same_hashes]
  exact (perm.map _).foldl_eq' (fun x _ y _ z => any_order x y z) 0

namespace Store

open Digest

/-- Whether the complex numbers inside two equal values have the same signs where it counts, down to
the given depth. -/
def zerosAgreeWithin (store : Store) : Nat → Value → Value → Bool
  | 0, _, _ => true
  | depth + 1, left, right =>
    match left, right with
    | .tuple a, .tuple b => pointwise (zerosAgreeWithin store depth) (store.tuple a) (store.tuple b)
    | _, _ =>
      match left.number?, right.number? with
      | some m, some n => m.zerosAgree n
      | _, _ => true

/-- Whether the complex numbers inside two equal values have the same signs where it counts. -/
def zerosAgree (store : Store) (left right : Value) : Bool :=
  store.zerosAgreeWithin store.depth left right

variable {store : Store} {left right : Value} {left_hash right_hash : UInt64}

theorem zerosAgreeWithin_of_number? {m n : Number} (left_number : left.number? = some m)
    (right_number : right.number? = some n) (depth : Nat) :
    store.zerosAgreeWithin (depth + 1) left right = m.zerosAgree n := by
  have step : store.zerosAgreeWithin (depth + 1) left right =
      match left.number?, right.number? with
      | some m, some n => m.zerosAgree n
      | _, _ => true := by
    cases left <;> first | rfl | contradiction
  rw [step, left_number, right_number]

/-- Sets that match each other have the same digest. -/
theorem digest_eq_of_sameElements (sound : store.Sound) {equal : Value → Value → Bool}
    (relation : store.KeyRelation equal) {a b : Ref} (elements : store.sameElements equal a b) :
    (store.table a).digest = (store.table b).digest := by
  rcases (sameElements_iff sound).mp elements with rfl | ⟨same_length, total⟩
  · rfl
  · obtain ⟨paired, perm, pairs⟩ := exists_perm_of_finds sound relation same_length total
    exact Table.digest_eq_of_perm perm (pairs.imp fun _ _ finds => finds.1.symm)

theorem words_eq_of_items {related : Value → Value → Prop} {left right : List Value}
    {left_words right_words : List UInt64} (pairs : List.Forall₂ related left right)
    (left_hashes : List.Forall₂ (fun item word => store.hash item = .ok word) left left_words)
    (right_hashes : List.Forall₂ (fun item word => store.hash item = .ok word) right right_words)
    (coherent : ∀ {a b word other}, store.hash a = .ok word → store.hash b = .ok other →
      related a b → word = other) : left_words = right_words := by
  induction pairs generalizing left_words right_words with
  | nil =>
      cases left_hashes
      cases right_hashes
      rfl
  | cons pair pairs induction =>
      cases left_hashes with
      | cons hash hashes =>
          cases right_hashes with
          | cons other others => rw [coherent hash other pair, induction hashes others]

theorem hash_eq_of_equalWithin (sound : store.Sound) {depth : Nat} (le : depth ≤ store.depth)
    (left_hashes : store.hash left = .ok left_hash)
    (right_hashes : store.hash right = .ok right_hash)
    (equal : store.equalWithin depth .loose left right)
    (agree : store.zerosAgreeWithin depth left right) : left_hash = right_hash := by
  induction depth generalizing left right left_hash right_hash with
  | zero => contradiction
  | succ depth induction =>
      have le := Nat.le_of_succ_le le
      cases (equalWithin_succ_iff ⟨_, left_hashes⟩ ⟨_, right_hashes⟩).mp equal with
      | number left_number right_number same =>
          rw [zerosAgreeWithin_of_number? left_number right_number] at agree
          rw [hash_of_number? store left_number] at left_hashes
          rw [hash_of_number? store right_number] at right_hashes
          rw [← Except.ok.inj left_hashes, ← Except.ok.inj right_hashes]
          exact (Number.hash_eq_iff_zerosAgree same).mpr agree
      | bytes bytes => exact Except.ok.inj (left_hashes.symm.trans right_hashes)
      | tuple items =>
          obtain ⟨left_words, left_items, rfl⟩ := hash_tuple left_hashes
          obtain ⟨right_words, right_items, rfl⟩ := hash_tuple right_hashes
          have pairs : List.Forall₂ (fun x y => store.equalWithin depth .loose x y ∧
              store.zerosAgreeWithin depth x y) (store.tuple _) (store.tuple _) :=
            List.forall₂_iff_zip.mpr ⟨items.length_eq, fun member =>
              ⟨List.forall₂_zip items member, List.forall₂_zip (pointwise_iff.mp agree) member⟩⟩
          have same_words : left_words = right_words :=
            words_eq_of_items pairs left_items right_items fun item other pair =>
              induction le item other pair.1 pair.2
          rw [same_words]
      | frozenset elements =>
          have same_digest := digest_eq_of_sameElements sound
            (keyRelation_equalWithin sound le) elements
          rw [← Except.ok.inj left_hashes, ← Except.ok.inj right_hashes, same_digest]
      | atom atom => exact Except.ok.inj (left_hashes.symm.trans right_hashes)

theorem zerosAgree_of_hash_eq (left_hashes : store.hash left = .ok left_hash)
    (right_hashes : store.hash right = .ok right_hash) (equal : store.equals left right)
    (not_tuple : left.kind ≠ .tuple) (same_hash : left_hash = right_hash) :
    store.zerosAgree left right := by
  rw [zerosAgree, depth]
  cases (equalWithin_succ_iff ⟨_, left_hashes⟩ ⟨_, right_hashes⟩).mp equal with
  | number left_number right_number same =>
      rw [hash_of_number? store left_number] at left_hashes
      rw [hash_of_number? store right_number] at right_hashes
      rw [zerosAgreeWithin_of_number? left_number right_number,
        ← Number.hash_eq_iff_zerosAgree same, Except.ok.inj left_hashes,
        Except.ok.inj right_hashes]
      exact same_hash
  | bytes bytes => rfl
  | tuple items => exact (not_tuple rfl).elim
  | frozenset elements => rfl
  | atom atom => cases left <;> first | rfl | contradiction

/-- Equal keys have the same hash if their zeros agree; except in tuples, where digests of different
items could happen to be the same, they have it only then. -/
theorem hashes_agree_of_equals (sound : store.Sound) (left_hashes : store.hash left = .ok left_hash)
    (right_hashes : store.hash right = .ok right_hash) (equal : store.equals left right) :
    (store.zerosAgree left right → left_hash = right_hash) ∧
      (left.kind ≠ .tuple → left_hash = right_hash → store.zerosAgree left right) :=
  ⟨hash_eq_of_equalWithin sound (Nat.le_refl store.depth) left_hashes right_hashes equal,
    zerosAgree_of_hash_eq left_hashes right_hashes equal⟩

/-- Two tuples of a set and a number, which are equal although the numbers in them are of different
kinds and the sets are in different orders. -/
def twins : Store where
  tuples := ⟨#[[.frozenset ⟨0⟩, .int 1], [.frozenset ⟨1⟩, .float ⟨0x3ff0000000000000⟩]]⟩
  tables := ⟨#[
    ((∅ : Table Value Value).push ⟨hashOfInt 1, .int 1, .none⟩).push ⟨hashOfInt 2, .int 2, .none⟩,
    ((∅ : Table Value Value).push ⟨hashOfInt 2, .float ⟨0x4000000000000000⟩, .none⟩).push
      ⟨hashOfInt 1, .bool true, .none⟩]⟩

theorem sound_twins : twins.Sound := by
  rintro ⟨index⟩
  match index with
  | 0 => exact (Builds.empty.push rfl (by cbv) _).push rfl (by cbv) _
  | 1 => exact (Builds.empty.push rfl (by cbv) _).push rfl (by cbv) _
  | index + 2 => exact .empty

theorem hashes_agree_of_equals_twins : ∃ left_hash right_hash, twins.Sound ∧
    twins.hash (.tuple ⟨0⟩) = .ok left_hash ∧ twins.hash (.tuple ⟨1⟩) = .ok right_hash ∧
    twins.equals (.tuple ⟨0⟩) (.tuple ⟨1⟩) ∧ twins.zerosAgree (.tuple ⟨0⟩) (.tuple ⟨1⟩) ∧
    left_hash = right_hash := by
  have equal : twins.equals (.tuple ⟨0⟩) (.tuple ⟨1⟩) := by cbv
  have agree : twins.zerosAgree (.tuple ⟨0⟩) (.tuple ⟨1⟩) := by decide
  exact ⟨_, _, sound_twins, rfl, rfl, equal, agree,
    (hashes_agree_of_equals sound_twins rfl rfl equal).1 agree⟩

/-- The complex numbers with a positive and with a negative zero beside the imaginary unit are
equal, and have different hashes. -/
theorem not_hashes_agree_of_signs :
    ¬ ∀ (store : Store) (left right : Value) (left_hash right_hash : UInt64), store.Sound →
      store.hash left = .ok left_hash → store.hash right = .ok right_hash →
      store.equals left right → left_hash = right_hash := by
  intro coherent
  let unit : Float64 := ⟨0x3ff0000000000000⟩
  have same_hash := coherent {} (.complex (.ofMagnitude false 0) unit)
    (.complex (.ofMagnitude true 0) unit) _ _ sound_empty rfl rfl (by decide)
  revert same_hash
  decide

end Store
end ObjectModel
