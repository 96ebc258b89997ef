import Std.Data.HashMap

/-!
# Insertion-ordered tables

A table maps keys to values and remembers the order in which keys came. Its entries stand in slots;
an index leads from the hash of a key to the slots of entries with that hash, and a test that the
caller supplies picks the entry among them. Removal leaves an empty slot, and as soon as empty slots
outnumber entries the table is rebuilt from its entries.

Slot numbers are visible only through `firstFrom?`, with which a cursor walks over a table that may
change between its steps.
-/

namespace ObjectModel

/-- A key with its value, and the hash it was stored under. -/
structure Entry (κ ν : Type) where
  /-- The hash that the key had when it came. -/
  hash : UInt64
  /-- The key that came first. -/
  key : κ
  /-- The value that came last. -/
  value : ν

/-- A map from keys to values in the order in which the keys came. -/
structure Table (κ ν : Type) where
  /-- The entries, with `none` where one has been removed. -/
  slots : Array (Option (Entry κ ν)) := #[]
  /-- For each hash the slots of the entries with that hash. -/
  index : Std.HashMap UInt64 (List Nat) := ∅
  /-- The number of entries. -/
  size : Nat := 0

namespace Table

variable {κ ν : Type}

instance : EmptyCollection (Table κ ν) where
  emptyCollection := {}

instance : Inhabited (Table κ ν) where
  default := ∅

/-- Whether there is no entry. -/
def isEmpty (table : Table κ ν) : Bool :=
  table.size == 0

/-- The entries in the order in which their keys came. -/
def entries (table : Table κ ν) : List (Entry κ ν) :=
  table.slots.toList.filterMap id

/-- The keys in the order in which they came. -/
def keys (table : Table κ ν) : List κ :=
  table.entries.map (·.key)

/-- The entry in a slot. -/
def entryAt? (table : Table κ ν) (slot : Nat) : Option (Entry κ ν) :=
  (table.slots[slot]?).join

/-- The slots of the entries with the given hash. -/
def bucket (table : Table κ ν) (hash : UInt64) : List Nat :=
  table.index.getD hash []

/-- The slot of the first entry with the given hash whose key passes the test. -/
def find? (table : Table κ ν) (hash : UInt64) (matchesKey : κ → Bool) : Option Nat :=
  (table.bucket hash).find? fun slot => (table.entryAt? slot).any (matchesKey ·.key)

/-- The first entry with the given hash whose key passes the test. -/
def get? (table : Table κ ν) (hash : UInt64) (matchesKey : κ → Bool) : Option (Entry κ ν) :=
  (table.find? hash matchesKey).bind table.entryAt?

/-- Adds an entry behind all others. -/
def push (table : Table κ ν) (entry : Entry κ ν) : Table κ ν where
  slots := table.slots.push (some entry)
  index := table.index.insert entry.hash (table.bucket entry.hash ++ [table.slots.size])
  size := table.size + 1

@[simp]
theorem entries_empty : (∅ : Table κ ν).entries = [] :=
  rfl

@[simp]
theorem entries_push (table : Table κ ν) (entry : Entry κ ν) :
    (table.push entry).entries = table.entries ++ [entry] := by
  simp [entries, push]

/-- Replaces the value of the entry that passes the test, whose key and place stay; without such an
entry, adds one. -/
def insert (table : Table κ ν) (hash : UInt64) (matchesKey : κ → Bool) (key : κ) (value : ν) :
    Table κ ν :=
  match table.find? hash matchesKey with
  | some slot => { table with slots := table.slots.modify slot (Option.map ({ · with value })) }
  | none => table.push { hash, key, value }

/-- The table without empty slots. -/
def compact (table : Table κ ν) : Table κ ν :=
  table.entries.foldl push ∅

/-- Takes a slot out of the bucket of a hash, and an empty bucket out of the index. -/
def unindex (index : Std.HashMap UInt64 (List Nat)) (hash : UInt64) (slot : Nat) :
    Std.HashMap UInt64 (List Nat) :=
  match (index.getD hash []).filter (· != slot) with
  | [] => index.erase hash
  | slots => index.insert hash slots

/-- Empties a slot that holds an entry with the given hash. -/
def vacate (table : Table κ ν) (hash : UInt64) (slot : Nat) : Table κ ν where
  slots := table.slots.setIfInBounds slot none
  index := unindex table.index hash slot
  size := table.size - 1

/-- Whether empty slots outnumber entries. -/
def isSparse (table : Table κ ν) : Bool :=
  table.size < table.slots.size - table.size

/-- Empties a slot that holds an entry with the given hash, and closes the gaps if there are too
many of them then. -/
def eraseSlot (table : Table κ ν) (hash : UInt64) (slot : Nat) : Table κ ν :=
  let rest := table.vacate hash slot
  if rest.isSparse then rest.compact else rest

/-- Removes the entry that passes the test, if there is one, and returns it with what is left. -/
def erase? (table : Table κ ν) (hash : UInt64) (matchesKey : κ → Bool) :
    Option (Entry κ ν × Table κ ν) := do
  let slot ← table.find? hash matchesKey
  let entry ← table.entryAt? slot
  return (entry, table.eraseSlot hash slot)

/-- The first entry at or behind a slot, with its slot. -/
def firstFrom? (table : Table κ ν) (slot : Nat) : Option (Nat × Entry κ ν) :=
  (List.range' slot (table.slots.size - slot)).findSome? fun place =>
    (table.entryAt? place).map (place, ·)

/-- The exclusive or of the stored hashes, which does not depend on the order of the entries. -/
def digest (table : Table κ ν) : UInt64 :=
  table.entries.foldl (fun acc entry => acc ^^^ entry.hash) 0

end Table
end ObjectModel
