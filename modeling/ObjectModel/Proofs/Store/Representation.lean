import ObjectModel.Proofs.Store.KeyEquality
import ObjectModel.Proofs.Store.Soundness
import Mathlib

/-!
# The representation of tables with values as keys

Slots, index and size of a table stay in step over every history of additions and removals, no two
entries have equal keys, and empty slots never outnumber entries.
-/

namespace ObjectModel
namespace Store

/-- The parts of a table fit together. -/
structure Represents (store : Store) (table : Table Value Value) : Prop where
  /-- The size is the number of occupied slots. -/
  size_eq : table.size = table.slots.toList.countP Option.isSome
  /-- A slot is in a bucket if and only if it holds an entry with that hash. -/
  mem_bucket : ∀ hash slot, slot ∈ table.bucket hash ↔
    ∃ entry, table.entryAt? slot = some entry ∧ entry.hash = hash
  /-- No slot is in a bucket twice. -/
  nodup_bucket : ∀ hash, (table.bucket hash).Nodup
  /-- No bucket is empty. -/
  bucket_ne_nil : ∀ hash : UInt64, table.index[hash]? ≠ some []
  /-- Entries in different slots with the same hash have different keys. -/
  keys_ne : ∀ slot other entry found, slot ≠ other → table.entryAt? slot = some entry →
    table.entryAt? other = some found → entry.hash = found.hash →
      store.equals entry.key found.key = false
  /-- Empty slots do not outnumber entries. -/
  dense : table.slots.size ≤ 2 * table.size

open Effect

variable {store : Store} {table : Table Value Value}

theorem Keyed.equals_eq_false_of_lt (keyed : store.Keyed table) {slot other : Nat}
    {entry found : Entry Value Value} (lt : slot < other)
    (holds : table.entryAt? slot = some entry) (holds_other : table.entryAt? other = some found)
    (same_hash : entry.hash = found.hash) : store.equals entry.key found.key = false := by
  have distinct := keyed.distinct
  rw [Table.entries_eq_of_entryAt? holds_other, List.pairwise_append] at distinct
  exact distinct.2.2 entry (Table.mem_behind.mpr ⟨slot, lt, holds⟩) found List.mem_cons_self
    same_hash

/-- Every table that has been built with values as keys, in a store of such tables, is well
represented. -/
theorem represents_of_builds (sound : store.Sound) (builds : store.Builds table) :
    store.Represents table := by
  have keyed := builds.keyed
  refine
    { size_eq := ?_
      mem_bucket := ?_
      nodup_bucket := ?_
      bucket_ne_nil := keyed.indexed.bucket_ne_nil
      keys_ne := ?_
      dense := keyed.dense }
  · rw [keyed.indexed.size_eq, Table.entries, List.length_filterMap_eq_countP]
    rfl
  · intro hash slot
    rw [keyed.indexed.bucket_eq, Table.mem_placesOf]
  · intro hash
    rw [keyed.indexed.bucket_eq]
    exact table.nodup_placesOf hash
  · intro slot other entry found ne holds holds_other same_hash
    rcases Nat.lt_or_gt_of_ne ne with lt | gt
    · exact keyed.equals_eq_false_of_lt lt holds holds_other same_hash
    · have found_ne := keyed.equals_eq_false_of_lt gt holds_other holds same_hash.symm
      have entry_key := keyed.isKey (Table.mem_entries.mpr ⟨slot, holds⟩)
      have found_key := keyed.isKey (Table.mem_entries.mpr ⟨other, holds_other⟩)
      rw [Bool.eq_false_iff] at found_ne ⊢
      exact fun equal => found_ne ((keyRelation_equals sound).symm entry_key found_key equal)

/-- The world after a set of three elements has been made and the second of them taken out. -/
def withoutTwo : World :=
  (outcome (removeElement ⟨0⟩ (.int 2))
    (outcome (newSet .mutable [.int 1, .int 2, .int 3]) {}).2).2

theorem sound_withoutTwo : withoutTwo.store.Sound := by
  have made : (outcome (newSet .mutable [.int 1, .int 2, .int 3]) {}).2.store.Sound := by
    apply sound_empty.outcome_newSet
    apply keepsAllKeys_of_numbers
    rintro ⟨_ | index⟩
    · cbv
    · cbv
  apply made.outcome_removeElement
  apply keepsAllKeys_of_numbers
  rintro ⟨_ | index⟩
  · cbv
  · cbv

theorem represents_of_builds_withoutTwo :
    withoutTwo.store.elements ⟨0⟩ = [.int 1, .int 3] ∧ withoutTwo.store.Sound ∧
      withoutTwo.store.Builds (withoutTwo.store.table ⟨0⟩) ∧
      withoutTwo.store.Represents (withoutTwo.store.table ⟨0⟩) := by
  have builds := sound_withoutTwo ⟨0⟩
  have elements : withoutTwo.store.elements ⟨0⟩ = [.int 1, .int 3] := by cbv
  exact ⟨elements, sound_withoutTwo, builds, represents_of_builds sound_withoutTwo builds⟩

end Store
end ObjectModel
