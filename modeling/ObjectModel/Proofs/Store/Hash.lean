import ObjectModel.Proofs.Number
import Mathlib.Data.List.Forall2

/-!
# Hashes of values

A value that has a hash within some depth has the same one within every greater depth. So the hash
of a tuple can be read as a digest of the hashes of its items, without regard to depth.
-/

namespace ObjectModel

theorem bind_eq_ok_iff {α β ε : Type} {first : Except ε α} {next : α → Except ε β} {result : β} :
    first >>= next = .ok result ↔ ∃ value, first = .ok value ∧ next value = .ok result := by
  cases first with
  | error fault => simp [bind, Except.bind]
  | ok value => simp [bind, Except.bind]

theorem bind_eq_error_iff {α β ε : Type} {first : Except ε α} {next : α → Except ε β} {fault : ε} :
    first >>= next = .error fault ↔
      first = .error fault ∨ ∃ value, first = .ok value ∧ next value = .error fault := by
  cases first with
  | error cause => simp [bind, Except.bind]
  | ok value => simp [bind, Except.bind]

/-- What is only rewritten at the end fails as it did. -/
theorem bind_pure_eq_error_iff {α β ε : Type} {first : Except ε α} {result : α → β} {fault : ε} :
    (first >>= fun value => pure (result value)) = .error fault ↔ first = .error fault := by
  rw [bind_eq_error_iff]
  exact or_iff_left fun ⟨_, _, fails⟩ => nomatch fails

theorem mapM_eq_ok_iff {α β ε : Type} {f : α → Except ε β} {items : List α} {results : List β} :
    items.mapM f = .ok results ↔
      List.Forall₂ (fun item result => f item = .ok result) items results := by
  induction items generalizing results with
  | nil =>
      rw [List.mapM_nil, List.forall₂_nil_left_iff]
      exact ⟨fun same => (Except.ok.inj same).symm, fun same => same ▸ rfl⟩
  | cons item items induction =>
      rw [List.mapM_cons, List.forall₂_cons_left_iff]
      simp only [bind_eq_ok_iff, induction, pure, Except.pure, Except.ok.injEq]
      constructor
      · rintro ⟨result, first, rest, others, rfl⟩
        exact ⟨result, rest, first, others, rfl⟩
      · rintro ⟨result, rest, first, others, rfl⟩
        exact ⟨result, first, rest, others, rfl⟩

theorem exists_mapM_eq_ok_iff {α β ε : Type} {f : α → Except ε β} {items : List α} :
    (∃ results, items.mapM f = .ok results) ↔ ∀ item ∈ items, ∃ result, f item = .ok result := by
  simp only [mapM_eq_ok_iff]
  induction items with
  | nil => simp
  | cons item items induction =>
      rw [List.forall_mem_cons, ← induction]
      constructor
      · rintro ⟨results, related⟩
        obtain ⟨result, rest, first, others, rfl⟩ := List.forall₂_cons_left_iff.mp related
        exact ⟨⟨result, first⟩, ⟨rest, others⟩⟩
      · rintro ⟨⟨result, first⟩, ⟨rest, others⟩⟩
        exact ⟨result :: rest, .cons first others⟩

namespace Store

open Digest

/-- The hash of an integer. -/
def hashOfInt (n : Int) : UInt64 :=
  tagged .number (wordsOfInt n)

theorem hashWithin_succ (store : Store) {depth : Nat} {value : Value} {hash : UInt64}
    (hashes : store.hashWithin depth value = .ok hash) :
    store.hashWithin (depth + 1) value = .ok hash := by
  induction depth generalizing value hash with
  | zero => contradiction
  | succ depth induction =>
      cases value with
      | tuple ref =>
          rw [hashWithin, bind_eq_ok_iff] at hashes ⊢
          obtain ⟨words, items, same⟩ := hashes
          exact ⟨words, mapM_eq_ok_iff.mpr ((mapM_eq_ok_iff.mp items).imp fun _ _ => induction),
            same⟩
      | _ => exact hashes

theorem hash_of_number? (store : Store) {value : Value} {number : Number}
    (is_number : value.number? = some number) : store.hash value = .ok number.hash := by
  cases value <;> simp only [Value.number?, Option.some.injEq, reduceCtorEq] at is_number <;>
    rw [← is_number] <;> rfl

/-- The hash of a tuple is a digest of the hashes of its items, which all have one. -/
theorem hash_tuple {store : Store} {ref : Ref} {hash : UInt64}
    (hashes : store.hash (.tuple ref) = .ok hash) :
    ∃ words, List.Forall₂ (fun item word => store.hash item = .ok word) (store.tuple ref) words ∧
      tagged .tuple words = hash := by
  rw [Store.hash, depth, hashWithin, bind_eq_ok_iff] at hashes
  obtain ⟨words, items, same⟩ := hashes
  exact ⟨words, (mapM_eq_ok_iff.mp items).imp fun _ _ => store.hashWithin_succ,
    Except.ok.inj same⟩

end Store
end ObjectModel
