import ObjectModel.Proofs.Table.Association

/-!
# Tables with values as keys

Operations with values as keys build tables up from the empty one. Meanwhile the store can change,
as long as the keys keep their hashes and stay equal or different. Such tables are indexed, their
entries carry the hashes of their keys, no key equals a later one with the same hash, and at most
half of the slots are empty.
-/

namespace ObjectModel

namespace Table

theorem size_slots_eraseSlot_le {κ ν : Type} (table : Table κ ν) (hash : UInt64) (slot : Nat) :
    (table.eraseSlot hash slot).slots.size ≤ 2 * (table.eraseSlot hash slot).size := by
  rw [Table.eraseSlot]
  split <;> rename_i sparse
  · rw [size_slots_compact, (indexed_compact _).size_eq, entries_compact]
    omega
  · simp only [isSparse, decide_eq_true_eq] at sparse
    omega

theorem entries_eraseSlot_sublist {κ ν : Type} {table : Table κ ν} {slot : Nat}
    {entry : Entry κ ν} (holds : table.entryAt? slot = some entry) (hash : UInt64) :
    (table.eraseSlot hash slot).entries.Sublist table.entries := by
  rw [entries_eraseSlot holds, entries_eq_of_entryAt? holds]
  exact (List.Sublist.refl _).append (List.sublist_cons_self entry _)

end Table

namespace Store

/-- The keys of a table have the same hashes and the same equalities in a later store. -/
structure KeepsKeys (store later : Store) (table : Table Value Value) : Prop where
  hash_eq : ∀ key ∈ table.keys, later.hash key = store.hash key
  equals_eq : ∀ key ∈ table.keys, ∀ other ∈ table.keys,
    later.equals key other = store.equals key other

/-- The tables that can be built with values as keys, seen from the store of the time. A key is
stored under its own hash. A copy of a table is the table itself. -/
inductive Builds : Store → Table Value Value → Prop
  | empty {store : Store} : Builds store ∅
  | insert {store : Store} {table : Table Value Value} {key : Value} {hash : UInt64}
      (earlier : Builds store table) (hashes : store.hash key = .ok hash) (value : Value) :
      Builds store (table.insert hash (store.equals · key) key value)
  | erase {store : Store} {table rest : Table Value Value} {key value : Value}
      (earlier : Builds store table) (erases : store.eraseKey table key = .ok (value, rest)) :
      Builds store rest
  | later {store later : Store} {table : Table Value Value} (earlier : Builds store table)
      (keeps : store.KeepsKeys later table) : Builds later table

/-- What is true of every table with values as keys. -/
structure Keyed (store : Store) (table : Table Value Value) : Prop where
  /-- The index and the size are right. -/
  indexed : table.Indexed
  /-- Each key is stored under its hash. -/
  hash_eq : ∀ entry ∈ table.entries, store.hash entry.key = .ok entry.hash
  /-- No key equals a later one that is stored under the same hash. -/
  distinct : table.entries.Pairwise fun earlier later =>
    earlier.hash = later.hash → store.equals earlier.key later.key = false
  /-- At most half of the slots are empty. -/
  dense : table.slots.size ≤ 2 * table.size

variable {store : Store} {table : Table Value Value}

theorem keyed_empty (store : Store) : store.Keyed ∅ where
  indexed := Table.indexed_empty
  hash_eq := by simp
  distinct := by simp
  dense := Nat.zero_le _

theorem Keyed.insert (keyed : store.Keyed table) {key : Value} {hash : UInt64}
    (hashes : store.hash key = .ok hash) (value : Value) :
    store.Keyed (table.insert hash (store.equals · key) key value) := by
  have indexed := keyed.indexed.insert hash (store.equals · key) key value
  cases search : table.find? hash (store.equals · key) with
  | none =>
      have missing := keyed.indexed.not_isMatch_of_find? search
      rw [Table.insert_of_find?_eq_none search] at indexed ⊢
      refine ⟨indexed, ?_, ?_, ?_⟩
      · intro entry member
        rw [Table.entries_push, List.mem_append, List.mem_singleton] at member
        rcases member with member | rfl
        · exact keyed.hash_eq entry member
        · exact hashes
      · rw [Table.entries_push, List.pairwise_append]
        refine ⟨keyed.distinct, List.pairwise_singleton _ _, ?_⟩
        intro entry member other last same_hash
        rw [List.mem_singleton] at last
        subst last
        simpa [Entry.isMatch, same_hash] using missing entry member
      · have dense := keyed.dense
        simp only [Table.push, Array.size_push]
        omega
  | some slot =>
      obtain ⟨entry, holds⟩ := Table.entryAt?_of_find? search
      have old_entries := Table.entries_eq_of_entryAt? holds
      have new_entries := Table.entries_setValue holds value
      rw [Table.insert_of_find?_eq_some search] at indexed ⊢
      refine ⟨indexed, ?_, ?_, ?_⟩
      · have old := keyed.hash_eq
        rw [old_entries] at old
        rw [new_entries]
        simpa [or_imp, forall_and] using old
      · have old := keyed.distinct
        rw [old_entries] at old
        rw [new_entries]
        simpa [List.pairwise_append] using old
      · have dense := keyed.dense
        simpa [Table.setValue] using dense

theorem Keyed.erase (keyed : store.Keyed table) {rest : Table Value Value} {key value : Value}
    (erases : store.eraseKey table key = .ok (value, rest)) : store.Keyed rest := by
  obtain ⟨hash, entry, -, erases, -⟩ := eraseKey_eq_ok.mp erases
  have indexed := keyed.indexed.erase? erases
  obtain ⟨slot, holds, rfl⟩ := keyed.indexed.erase?_spec erases
  have sublist := Table.entries_eraseSlot_sublist holds entry.hash
  exact
    { indexed
      hash_eq := fun other member => keyed.hash_eq other (sublist.subset member)
      distinct := keyed.distinct.sublist sublist
      dense := table.size_slots_eraseSlot_le entry.hash slot }

theorem Keyed.later (keyed : store.Keyed table) {later : Store}
    (keeps : store.KeepsKeys later table) : later.Keyed table where
  indexed := keyed.indexed
  hash_eq entry member := by
    rw [keeps.hash_eq entry.key (List.mem_map_of_mem member)]
    exact keyed.hash_eq entry member
  distinct := by
    apply keyed.distinct.imp_of_mem
    intro earlier later member member_later different same_hash
    rw [keeps.equals_eq _ (List.mem_map_of_mem member) _ (List.mem_map_of_mem member_later)]
    exact different same_hash
  dense := keyed.dense

theorem Builds.keyed (builds : store.Builds table) : store.Keyed table := by
  induction builds with
  | empty => exact keyed_empty _
  | insert earlier hashes value induction => exact induction.insert hashes value
  | erase earlier erases induction => exact induction.erase erases
  | later earlier keeps induction => exact induction.later keeps

theorem Builds.insertKey (builds : store.Builds table) {after : Table Value Value}
    {key value : Value} (inserts : store.insertKey table key value = .ok after) :
    store.Builds after := by
  obtain ⟨hash, hashes, rfl⟩ := insertKey_eq_ok.mp inserts
  exact builds.insert hashes value

theorem Builds.push (builds : store.Builds table) {key : Value} {hash : UInt64}
    (hashes : store.hash key = .ok hash)
    (missing : table.find? hash (store.equals · key) = none) (value : Value) :
    store.Builds (table.push ⟨hash, key, value⟩) := by
  rw [← Table.insert_of_find?_eq_none missing]
  exact builds.insert hashes value

/-- A store whose tables have all been built with values as keys. -/
def Sound (store : Store) : Prop :=
  ∀ ref, store.Builds (store.table ref)

theorem sound_empty : ({} : Store).Sound :=
  fun _ => .empty

theorem Sound.keyed (sound : store.Sound) (ref : Ref) : store.Keyed (store.table ref) :=
  (sound ref).keyed

end Store
end ObjectModel
