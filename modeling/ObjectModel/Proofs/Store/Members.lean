import ObjectModel.Proofs.Store.KeyEquality

/-!
# Members of tables

A key is in a table if a stored key matches it: has the same hash and is equal. Matching is
symmetric and transitive, so keys that match are in the same tables. Putting items of which no two
match into a table one by one appends those that no stored key matches, in their order.
-/

namespace ObjectModel

theorem AssociationList.map_key_insert {κ ν : Type} {hash : UInt64} {matchesKey : κ → Bool}
    {entries : List (Entry κ ν)} (key : κ) (value : ν) :
    (insert hash matchesKey key value entries).map (·.key) =
      if entries.any (Entry.isMatch hash matchesKey) then entries.map (·.key)
      else entries.map (·.key) ++ [key] := by
  induction entries with
  | nil => rfl
  | cons entry entries induction =>
      rw [insert]
      cases matching : entry.isMatch hash matchesKey with
      | true => simp [matching]
      | false =>
          simp only [Bool.false_eq_true, if_false, List.map_cons, induction, List.any_cons,
            matching, Bool.false_or]
          split <;> rfl

namespace Store

/-- A stored key is one that a search for the sought key stops at. -/
def Matches (store : Store) (stored sought : Value) : Prop :=
  ∃ hash, store.hash stored = .ok hash ∧ store.hash sought = .ok hash ∧ store.equals stored sought

/-- Whether a table has a key; it has nothing that cannot be a key. -/
def includes (store : Store) (table : Table Value Value) (item : Value) : Bool :=
  match store.hasKey table item with
  | .ok present => present
  | .error _ => false

variable {store : Store} {table : Table Value Value} {item other : Value}

theorem Matches.symm (sound : store.Sound) (matching : store.Matches item other) :
    store.Matches other item := by
  obtain ⟨hash, hashes, other_hashes, equal⟩ := matching
  have equal_swapped := (keyRelation_equals sound).symm ⟨hash, hashes⟩ ⟨hash, other_hashes⟩ equal
  exact ⟨hash, other_hashes, hashes, equal_swapped⟩

theorem Matches.trans (sound : store.Sound) {last : Value} (first : store.Matches item other)
    (second : store.Matches other last) : store.Matches item last := by
  obtain ⟨hash, hashes, other_hashes, equal⟩ := first
  obtain ⟨same, other_again, last_hashes, equal_last⟩ := second
  obtain rfl := Except.ok.inj (other_hashes.symm.trans other_again)
  have equal_ends := (keyRelation_equals sound).trans ⟨hash, hashes⟩ ⟨hash, other_hashes⟩
    ⟨hash, last_hashes⟩ equal equal_last
  exact ⟨hash, hashes, last_hashes, equal_ends⟩

theorem Matches.isKey (matching : store.Matches item other) : store.IsKey item := by
  obtain ⟨hash, hashes, -, -⟩ := matching
  exact ⟨hash, hashes⟩

/-- The test for a key fails only for what cannot be one. -/
theorem hasKey_eq (key : store.IsKey item) (table : Table Value Value) :
    store.hasKey table item = .ok (store.includes table item) := by
  obtain ⟨hash, hashes⟩ := key
  have lookup : ∃ present, store.hasKey table item = .ok present := by
    rw [hasKey, entryFor?, hashes]
    exact ⟨_, rfl⟩
  obtain ⟨present, holds⟩ := lookup
  rw [includes, holds]

theorem Keyed.includes_eq (keyed : store.Keyed table) {hash : UInt64}
    (hashes : store.hash item = .ok hash) :
    store.includes table item = table.entries.any (Entry.isMatch hash (store.equals · item)) := by
  have lookup : store.hasKey table item =
      .ok (table.get? hash (store.equals · item)).isSome := by
    rw [hasKey, entryFor?, hashes]
    rfl
  rw [includes, lookup, keyed.indexed.get?_eq, Bool.eq_iff_iff, List.find?_isSome,
    List.any_eq_true]

theorem Keyed.includes_iff (keyed : store.Keyed table) :
    store.includes table item ↔ ∃ stored ∈ table.keys, store.Matches stored item := by
  constructor
  · intro included
    cases hashes : store.hash item with
    | error fault =>
        rw [includes, hasKey, entryFor?, hashes] at included
        contradiction
    | ok hash =>
        rw [keyed.includes_eq hashes, List.any_eq_true] at included
        obtain ⟨entry, member, matching⟩ := included
        rw [Entry.isMatch, Bool.and_eq_true, beq_iff_eq] at matching
        obtain ⟨rfl, equal⟩ := matching
        exact ⟨entry.key, List.mem_map_of_mem member, entry.hash, keyed.hash_eq entry member,
          hashes, equal⟩
  · rintro ⟨stored, member, hash, stored_hashes, hashes, equal⟩
    obtain ⟨entry, entry_member, rfl⟩ := List.mem_map.mp member
    have same_hash : entry.hash = hash :=
      Except.ok.inj ((keyed.hash_eq entry entry_member).symm.trans stored_hashes)
    rw [keyed.includes_eq hashes, List.any_eq_true]
    exact ⟨entry, entry_member, by simpa [Entry.isMatch] using ⟨same_hash, equal⟩⟩

theorem Keyed.includes_of_subset (keyed : store.Keyed table) {larger : Table Value Value}
    (larger_keyed : store.Keyed larger) (subset : table.keys ⊆ larger.keys)
    (included : store.includes table item) : store.includes larger item := by
  obtain ⟨stored, member, matching⟩ := keyed.includes_iff.mp included
  exact larger_keyed.includes_iff.mpr ⟨stored, subset member, matching⟩

theorem Keyed.includes_eq_of_keys_eq (keyed : store.Keyed table) {other : Table Value Value}
    (other_keyed : store.Keyed other) (same : table.keys = other.keys) (item : Value) :
    store.includes table item = store.includes other item := by
  rw [Bool.eq_iff_iff, keyed.includes_iff, other_keyed.includes_iff, same]

/-- Keys that match are in the same tables. -/
theorem Keyed.includes_congr (keyed : store.Keyed table) (sound : store.Sound)
    (matching : store.Matches item other) :
    store.includes table item = store.includes table other := by
  rw [Bool.eq_iff_iff, keyed.includes_iff, keyed.includes_iff]
  constructor
  · rintro ⟨stored, member, holds⟩
    exact ⟨stored, member, holds.trans sound matching⟩
  · rintro ⟨stored, member, holds⟩
    exact ⟨stored, member, holds.trans sound (matching.symm sound)⟩

theorem Keyed.isKey_of_mem (keyed : store.Keyed table) {key : Value} (member : key ∈ table.keys) :
    store.IsKey key := by
  obtain ⟨entry, entry_member, rfl⟩ := List.mem_map.mp member
  exact keyed.isKey entry_member

/-- No key of a table matches a later one. -/
theorem Keyed.keys_apart (keyed : store.Keyed table) :
    table.keys.Pairwise fun key later => ¬ store.Matches key later := by
  rw [Table.keys, List.pairwise_map]
  apply keyed.distinct.imp_of_mem
  rintro entry later member later_member different ⟨hash, hashes, later_hashes, equal⟩
  have entry_hash := Except.ok.inj ((keyed.hash_eq entry member).symm.trans hashes)
  have later_hash := Except.ok.inj ((keyed.hash_eq later later_member).symm.trans later_hashes)
  rw [different (entry_hash.trans later_hash.symm)] at equal
  contradiction

/-! ## Additions -/

theorem exists_insertKey (key : store.IsKey item) (table : Table Value Value) (value : Value) :
    ∃ after, store.insertKey table item value = .ok after := by
  obtain ⟨hash, hashes⟩ := key
  exact ⟨_, insertKey_eq_ok.mpr ⟨hash, hashes, rfl⟩⟩

theorem exists_insertKeys {items : List Value} (keys : ∀ item ∈ items, store.IsKey item)
    (table : Table Value Value) :
    ∃ after, items.foldlM (fun table item => store.insertKey table item item) table =
      .ok after := by
  induction items generalizing table with
  | nil => exact ⟨table, rfl⟩
  | cons item items induction =>
      rw [List.forall_mem_cons] at keys
      obtain ⟨next, inserts⟩ := exists_insertKey keys.1 table item
      obtain ⟨after, rest⟩ := induction keys.2 next
      exact ⟨after, by rw [List.foldlM_cons, bind_eq_ok_iff]; exact ⟨next, inserts, rest⟩⟩

/-- A table is made of any keys. -/
theorem exists_tableOfKeys {items : List Value} (keys : ∀ item ∈ items, store.IsKey item) :
    ∃ table, store.tableOfElements items = .ok table :=
  exists_insertKeys keys ∅

theorem Keyed.exists_insertKey (keyed : store.Keyed table) (key : store.IsKey item)
    (value : Value) :
    ∃ after, store.insertKey table item value = .ok after ∧ store.Keyed after ∧
      after.keys = if store.includes table item then table.keys else table.keys ++ [item] := by
  obtain ⟨hash, hashes⟩ := key
  refine ⟨_, insertKey_eq_ok.mpr ⟨hash, hashes, rfl⟩, keyed.insert hashes value, ?_⟩
  rw [Table.keys, keyed.indexed.entries_insert, AssociationList.map_key_insert,
    keyed.includes_eq hashes]
  rfl

/-- An insertion brings no other key than its own. -/
theorem Keyed.keys_subset_of_insertKey (keyed : store.Keyed table) {after : Table Value Value}
    {value : Value} (inserts : store.insertKey table item value = .ok after) :
    after.keys ⊆ item :: table.keys := by
  obtain ⟨hash, hashes, -⟩ := insertKey_eq_ok.mp inserts
  obtain ⟨other, inserts_other, -, keys⟩ := keyed.exists_insertKey ⟨hash, hashes⟩ value
  obtain rfl := Except.ok.inj (inserts_other.symm.trans inserts)
  rw [keys]
  split
  · exact List.subset_cons_self item table.keys
  · exact List.append_subset.mpr ⟨List.subset_cons_self item table.keys, by simp⟩

/-- Items of which no two match, put into a table one by one, come behind its keys as far as none of
these matches them. -/
theorem Keyed.exists_insertKeys (keyed : store.Keyed table) {items : List Value}
    (keys : ∀ item ∈ items, store.IsKey item)
    (apart : items.Pairwise fun item later => ¬ store.Matches item later) :
    ∃ after, items.foldlM (fun table item => store.insertKey table item item) table = .ok after ∧
      store.Keyed after ∧
        after.keys = table.keys ++ items.filter fun item => !store.includes table item := by
  induction items generalizing table with
  | nil => exact ⟨table, rfl, keyed, (List.append_nil _).symm⟩
  | cons item items induction =>
      rw [List.forall_mem_cons] at keys
      rw [List.pairwise_cons] at apart
      obtain ⟨next, inserts, next_keyed, next_keys⟩ := keyed.exists_insertKey keys.1 item
      obtain ⟨after, folds, after_keyed, after_keys⟩ := induction next_keyed keys.2 apart.2
      -- a later item is matched by the same keys as before, for this one does not match it
      have same_included : ∀ later ∈ items,
          store.includes next later = store.includes table later := by
        intro later member
        rw [Bool.eq_iff_iff, next_keyed.includes_iff, keyed.includes_iff, next_keys]
        split
        · rfl
        · simp [or_and_right, exists_or, apart.1 later member]
      refine ⟨after, ?_, after_keyed, ?_⟩
      · rw [List.foldlM_cons, inserts]
        exact folds
      · rw [after_keys, next_keys, List.filter_cons,
          List.filter_congr fun later member => by rw [same_included later member]]
        cases store.includes table item with
        | true => rfl
        | false => simp

end Store
end ObjectModel
