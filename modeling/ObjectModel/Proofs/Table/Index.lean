import ObjectModel.Proofs.Table.Slots

/-!
# The index of a table

A table is indexed if each bucket lists the occupied slots of the entries with its hash, in order
and without omission, no bucket is empty, and the size counts the entries. Every operation keeps a
table indexed. In an indexed table the search through a bucket is a search among the entries, and
that is all that later files use of the index.
-/

namespace ObjectModel

/-- Whether an entry has the given stored hash and a key that passes the test. -/
def Entry.isMatch {κ ν : Type} (hash : UInt64) (matchesKey : κ → Bool) (entry : Entry κ ν) : Bool :=
  entry.hash == hash && matchesKey entry.key

theorem Entry.hash_eq_of_isMatch {κ ν : Type} {hash : UInt64} {matchesKey : κ → Bool}
    {entry : Entry κ ν} (matching : entry.isMatch hash matchesKey) : entry.hash = hash := by
  rw [isMatch, Bool.and_eq_true, beq_iff_eq] at matching
  exact matching.1

namespace Table

variable {κ ν : Type}

/-- The occupied slots whose entries have the given stored hash, in order. -/
def placesOf (table : Table κ ν) (hash : UInt64) : List Nat :=
  (List.range table.slots.size).filter fun slot => (table.entryAt? slot).any (·.hash == hash)

/-- The index and the size are right. -/
structure Indexed (table : Table κ ν) : Prop where
  /-- A bucket lists the slots of the entries with its hash. -/
  bucket_eq : ∀ hash : UInt64, table.bucket hash = table.placesOf hash
  /-- The index has no empty bucket. -/
  bucket_ne_nil : ∀ hash : UInt64, table.index[hash]? ≠ some []
  /-- The size is the number of entries. -/
  size_eq : table.size = table.entries.length

theorem mem_placesOf {table : Table κ ν} {hash : UInt64} {slot : Nat} :
    slot ∈ table.placesOf hash ↔
      ∃ entry, table.entryAt? slot = some entry ∧ entry.hash = hash := by
  rw [placesOf, List.mem_filter, List.mem_range, Option.any_eq_true]
  constructor
  · rintro ⟨-, entry, holds, same⟩
    exact ⟨entry, holds, by simpa using same⟩
  · rintro ⟨entry, holds, same⟩
    exact ⟨lt_size_of_entryAt? holds, entry, holds, by simpa using same⟩

theorem nodup_placesOf (table : Table κ ν) (hash : UInt64) : (table.placesOf hash).Nodup :=
  List.nodup_range.filter _

/-! ## What keeps a table indexed -/

theorem indexed_empty : (∅ : Table κ ν).Indexed where
  bucket_eq _ := by
    change (∅ : Std.HashMap UInt64 (List Nat)).getD _ [] = []
    simp
  bucket_ne_nil _ := by
    change (∅ : Std.HashMap UInt64 (List Nat))[_]? ≠ some []
    simp
  size_eq := rfl

theorem bucket_push (table : Table κ ν) (entry : Entry κ ν) (hash : UInt64) :
    (table.push entry).bucket hash =
      if entry.hash = hash then table.bucket hash ++ [table.slots.size] else table.bucket hash := by
  rw [bucket, push, Std.HashMap.getD_insert]
  by_cases same : entry.hash = hash
  · subst same
    simp
  · simp [same, bucket]

theorem placesOf_push (table : Table κ ν) (entry : Entry κ ν) (hash : UInt64) :
    (table.push entry).placesOf hash =
      if entry.hash = hash then table.placesOf hash ++ [table.slots.size]
      else table.placesOf hash := by
  have older : ∀ slot ∈ List.range table.slots.size,
      ((table.push entry).entryAt? slot).any (·.hash == hash) =
        (table.entryAt? slot).any (·.hash == hash) := by
    intro slot member
    rw [entryAt?_push, if_neg (Nat.ne_of_lt (List.mem_range.mp member))]
  have size_eq : (table.push entry).slots.size = table.slots.size + 1 := by simp [push]
  rw [placesOf, size_eq, List.range_succ, List.filter_append, List.filter_congr older, placesOf]
  by_cases same : entry.hash = hash <;> simp [entryAt?_push, same]

theorem Indexed.push {table : Table κ ν} (indexed : table.Indexed) (entry : Entry κ ν) :
    (table.push entry).Indexed where
  bucket_eq hash := by
    rw [bucket_push, placesOf_push, indexed.bucket_eq]
  bucket_ne_nil hash := by
    rw [Table.push, Std.HashMap.getElem?_insert]
    split
    · simp
    · exact indexed.bucket_ne_nil hash
  size_eq := by
    rw [entries_push, List.length_append, ← indexed.size_eq]
    rfl

theorem Indexed.foldl_push {table : Table κ ν} (indexed : table.Indexed)
    (entries : List (Entry κ ν)) : (entries.foldl Table.push table).Indexed := by
  induction entries generalizing table with
  | nil => exact indexed
  | cons entry entries induction => exact induction (indexed.push entry)

theorem indexed_compact (table : Table κ ν) : table.compact.Indexed :=
  indexed_empty.foldl_push table.entries

theorem placesOf_setValue (table : Table κ ν) (slot : Nat) (value : ν) (hash : UInt64) :
    (table.setValue slot value).placesOf hash = table.placesOf hash := by
  have same_size : (table.setValue slot value).slots.size = table.slots.size := by
    simp [setValue]
  rw [placesOf, same_size, placesOf]
  apply List.filter_congr
  intro other _
  rw [entryAt?_setValue]
  split
  · cases table.entryAt? other <;> rfl
  · rfl

theorem Indexed.setValue {table : Table κ ν} (indexed : table.Indexed) {slot : Nat}
    {entry : Entry κ ν} (holds : table.entryAt? slot = some entry) (value : ν) :
    (table.setValue slot value).Indexed where
  bucket_eq hash := by
    rw [placesOf_setValue, ← indexed.bucket_eq]
    rfl
  bucket_ne_nil hash := indexed.bucket_ne_nil hash
  size_eq := by
    have size_eq : (table.setValue slot value).size = table.size := rfl
    rw [size_eq, entries_setValue holds, indexed.size_eq, entries_eq_of_entryAt? holds]
    simp

theorem getD_unindex (index : Std.HashMap UInt64 (List Nat)) (hash : UInt64) (slot : Nat)
    (other : UInt64) :
    (unindex index hash slot).getD other [] =
      if hash = other then (index.getD hash []).filter (· != slot) else index.getD other [] := by
  rw [unindex]
  cases left : (index.getD hash []).filter (· != slot) with
  | nil =>
      rw [Std.HashMap.getD_erase]
      by_cases same : hash = other <;> simp [same]
  | cons first slots =>
      rw [Std.HashMap.getD_insert]
      by_cases same : hash = other <;> simp [same]

theorem unindex_ne_nil {index : Std.HashMap UInt64 (List Nat)}
    (full : ∀ hash : UInt64, index[hash]? ≠ some []) (hash : UInt64) (slot : Nat)
    (other : UInt64) : (unindex index hash slot)[other]? ≠ some [] := by
  rw [unindex]
  cases (index.getD hash []).filter (· != slot) with
  | nil =>
      rw [Std.HashMap.getElem?_erase]
      split
      · simp
      · exact full other
  | cons first slots =>
      rw [Std.HashMap.getElem?_insert]
      split
      · simp
      · exact full other

theorem placesOf_vacate {table : Table κ ν} {slot : Nat} {entry : Entry κ ν}
    (holds : table.entryAt? slot = some entry) (hash : UInt64) :
    (table.vacate entry.hash slot).placesOf hash =
      if entry.hash = hash then (table.placesOf hash).filter (· != slot)
      else table.placesOf hash := by
  rw [placesOf, size_slots_vacate]
  split <;> rename_i same
  · rw [placesOf, List.filter_filter]
    apply List.filter_congr
    intro other _
    rw [entryAt?_vacate]
    by_cases here : other = slot <;> simp [here]
  · rw [placesOf]
    apply List.filter_congr
    intro other _
    rw [entryAt?_vacate]
    by_cases here : other = slot <;> simp [here, holds, same]

theorem Indexed.vacate {table : Table κ ν} (indexed : table.Indexed) {slot : Nat}
    {entry : Entry κ ν} (holds : table.entryAt? slot = some entry) :
    (table.vacate entry.hash slot).Indexed where
  bucket_eq hash := by
    have old := indexed.bucket_eq
    rw [placesOf_vacate holds, ← old, bucket, Table.vacate, getD_unindex]
    split <;> rename_i same
    · rw [same, bucket]
    · rfl
  bucket_ne_nil := unindex_ne_nil indexed.bucket_ne_nil entry.hash slot
  size_eq := by
    have size_eq : (table.vacate entry.hash slot).size = table.size - 1 := rfl
    rw [size_eq, indexed.size_eq, entries_vacate holds, entries_eq_of_entryAt? holds]
    simp

theorem Indexed.eraseSlot {table : Table κ ν} (indexed : table.Indexed) {slot : Nat}
    {entry : Entry κ ν} (holds : table.entryAt? slot = some entry) :
    (table.eraseSlot entry.hash slot).Indexed := by
  rw [Table.eraseSlot]
  split
  · exact indexed_compact _
  · exact indexed.vacate holds

/-! ## Searches -/

/-- What a search finds is an entry that matches, and no entry before it does. -/
theorem Indexed.find?_spec {table : Table κ ν} (indexed : table.Indexed) {hash : UInt64}
    {matchesKey : κ → Bool} {slot : Nat} (found : table.find? hash matchesKey = some slot) :
    ∃ entry, table.entryAt? slot = some entry ∧ entry.isMatch hash matchesKey ∧
      ∀ earlier ∈ table.behind slot, ¬ earlier.isMatch hash matchesKey := by
  rw [find?, indexed.bucket_eq, placesOf, List.find?_filter, List.find?_range_eq_some] at found
  obtain ⟨passes, -, first⟩ := found
  simp only [Option.any_eq_true, decide_eq_true_eq] at passes
  obtain ⟨⟨entry, holds, same⟩, other, holds_other, matching⟩ := passes
  obtain rfl : entry = other := Option.some.inj (holds.symm.trans holds_other)
  refine ⟨entry, holds, by simpa [Entry.isMatch] using ⟨by simpa using same, matching⟩, ?_⟩
  intro earlier member
  obtain ⟨place, lt, holds_earlier⟩ := mem_behind.mp member
  simpa [holds_earlier, Entry.isMatch, imp_iff_not_or] using first place lt

/-- A search that finds nothing leaves no entry that matches. -/
theorem Indexed.not_isMatch_of_find? {table : Table κ ν} (indexed : table.Indexed)
    {hash : UInt64} {matchesKey : κ → Bool} (missing : table.find? hash matchesKey = none) :
    ∀ entry ∈ table.entries, ¬ entry.isMatch hash matchesKey := by
  rw [find?, indexed.bucket_eq, placesOf, List.find?_filter, List.find?_range_eq_none] at missing
  intro entry member
  obtain ⟨slot, holds⟩ := mem_entries.mp member
  simpa [holds, Entry.isMatch, imp_iff_not_or] using missing slot (lt_size_of_entryAt? holds)

/-- Looking up is searching the entries in their order. -/
theorem Indexed.get?_eq {table : Table κ ν} (indexed : table.Indexed) (hash : UInt64)
    (matchesKey : κ → Bool) :
    table.get? hash matchesKey = table.entries.find? (Entry.isMatch hash matchesKey) := by
  rw [get?]
  cases search : table.find? hash matchesKey with
  | none =>
      rw [Option.bind_none, eq_comm, List.find?_eq_none]
      exact indexed.not_isMatch_of_find? search
  | some slot =>
      obtain ⟨entry, holds, matching, first⟩ := indexed.find?_spec search
      rw [Option.bind_some, holds, entries_eq_of_entryAt? holds, List.find?_append,
        List.find?_eq_none.mpr first, Option.none_or, List.find?_cons, matching]

end Table
end ObjectModel
