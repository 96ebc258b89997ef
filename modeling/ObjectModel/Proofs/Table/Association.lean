import ObjectModel.Proofs.Table.Index
import ObjectModel.Store.Keys

/-!
# Tables as association lists

A list of entries, searched from its front, is the plainest map that keeps the order of its keys. A
table shows no difference to it: whatever is done to both in turn, they give the same answers. The
simulation relates an indexed table to the list of its entries.
-/

namespace ObjectModel

/-! ## Lists of entries -/

namespace AssociationList

variable {κ ν : Type}

/-- Stores a value for a key. The first entry that matches takes the value, and keeps its key and
its place; without one, an entry comes behind all others. -/
def insert (hash : UInt64) (matchesKey : κ → Bool) (key : κ) (value : ν) :
    List (Entry κ ν) → List (Entry κ ν)
  | [] => [⟨hash, key, value⟩]
  | entry :: entries =>
      if entry.isMatch hash matchesKey then { entry with value } :: entries
      else entry :: insert hash matchesKey key value entries

/-- Takes out the first entry that matches. -/
def erase? (hash : UInt64) (matchesKey : κ → Bool) :
    List (Entry κ ν) → Option (Entry κ ν × List (Entry κ ν))
  | [] => none
  | entry :: entries =>
      if entry.isMatch hash matchesKey then some (entry, entries)
      else (erase? hash matchesKey entries).map fun outcome => (outcome.1, entry :: outcome.2)

theorem insert_of_no_match {hash : UInt64} {matchesKey : κ → Bool} {entries : List (Entry κ ν)}
    (missing : ∀ entry ∈ entries, ¬ entry.isMatch hash matchesKey) (key : κ) (value : ν) :
    insert hash matchesKey key value entries = entries ++ [⟨hash, key, value⟩] := by
  induction entries with
  | nil => rfl
  | cons entry entries induction =>
      rw [List.forall_mem_cons] at missing
      rw [insert, if_neg missing.1, induction missing.2, List.cons_append]

theorem insert_of_first_match {hash : UInt64} {matchesKey : κ → Bool}
    {front : List (Entry κ ν)} {entry : Entry κ ν}
    (first : ∀ earlier ∈ front, ¬ earlier.isMatch hash matchesKey)
    (matching : entry.isMatch hash matchesKey) (back : List (Entry κ ν)) (key : κ) (value : ν) :
    insert hash matchesKey key value (front ++ entry :: back) =
      front ++ { entry with value } :: back := by
  induction front with
  | nil => rw [List.nil_append, insert, if_pos matching, List.nil_append]
  | cons earlier front induction =>
      rw [List.forall_mem_cons] at first
      rw [List.cons_append, insert, if_neg first.1, induction first.2, List.cons_append]

theorem erase?_of_no_match {hash : UInt64} {matchesKey : κ → Bool} {entries : List (Entry κ ν)}
    (missing : ∀ entry ∈ entries, ¬ entry.isMatch hash matchesKey) :
    erase? hash matchesKey entries = none := by
  induction entries with
  | nil => rfl
  | cons entry entries induction =>
      rw [List.forall_mem_cons] at missing
      rw [erase?, if_neg missing.1, induction missing.2, Option.map_none]

theorem erase?_of_first_match {hash : UInt64} {matchesKey : κ → Bool}
    {front : List (Entry κ ν)} {entry : Entry κ ν}
    (first : ∀ earlier ∈ front, ¬ earlier.isMatch hash matchesKey)
    (matching : entry.isMatch hash matchesKey) (back : List (Entry κ ν)) :
    erase? hash matchesKey (front ++ entry :: back) = some (entry, front ++ back) := by
  induction front with
  | nil => rw [List.nil_append, erase?, if_pos matching, List.nil_append]
  | cons earlier front induction =>
      rw [List.forall_mem_cons] at first
      rw [List.cons_append, erase?, if_neg first.1, induction first.2, Option.map_some,
        List.cons_append]

end AssociationList

/-! ## Operations of tables on the list of entries -/

namespace Table

variable {κ ν : Type} {table : Table κ ν}

theorem Indexed.insert (indexed : table.Indexed) (hash : UInt64) (matchesKey : κ → Bool)
    (key : κ) (value : ν) : (table.insert hash matchesKey key value).Indexed := by
  cases search : table.find? hash matchesKey with
  | none =>
      rw [insert_of_find?_eq_none search]
      exact indexed.push _
  | some slot =>
      obtain ⟨entry, holds, -⟩ := indexed.find?_spec search
      rw [insert_of_find?_eq_some search]
      exact indexed.setValue holds value

theorem Indexed.entries_insert (indexed : table.Indexed) (hash : UInt64) (matchesKey : κ → Bool)
    (key : κ) (value : ν) :
    (table.insert hash matchesKey key value).entries =
      AssociationList.insert hash matchesKey key value table.entries := by
  cases search : table.find? hash matchesKey with
  | none =>
      rw [insert_of_find?_eq_none search, entries_push,
        AssociationList.insert_of_no_match (indexed.not_isMatch_of_find? search)]
  | some slot =>
      obtain ⟨entry, holds, matching, first⟩ := indexed.find?_spec search
      rw [insert_of_find?_eq_some search, entries_setValue holds, entries_eq_of_entryAt? holds,
        AssociationList.insert_of_first_match first matching]

/-- What a removal returns and what it leaves. -/
theorem Indexed.erase?_eq (indexed : table.Indexed) (hash : UInt64) (matchesKey : κ → Bool) :
    (table.erase? hash matchesKey).map (fun outcome => (outcome.1, outcome.2.entries)) =
      AssociationList.erase? hash matchesKey table.entries := by
  cases search : table.find? hash matchesKey with
  | none =>
      rw [erase?_of_find?_eq_none search,
        AssociationList.erase?_of_no_match (indexed.not_isMatch_of_find? search), Option.map_none]
  | some slot =>
      obtain ⟨entry, holds, matching, first⟩ := indexed.find?_spec search
      rw [erase?_of_find?_eq_some search holds, entries_eq_of_entryAt? holds,
        AssociationList.erase?_of_first_match first matching, Option.map_some,
        entries_eraseSlot holds]

/-- A removal that succeeds empties the slot of the entry that it returns. -/
theorem Indexed.erase?_spec (indexed : table.Indexed) {hash : UInt64} {matchesKey : κ → Bool}
    {entry : Entry κ ν} {rest : Table κ ν}
    (erases : table.erase? hash matchesKey = some (entry, rest)) :
    ∃ slot, table.entryAt? slot = some entry ∧ rest = table.eraseSlot entry.hash slot := by
  obtain ⟨slot, found, holds, rest_eq⟩ := erase?_eq_some erases
  obtain ⟨other, holds_other, matching, -⟩ := indexed.find?_spec found
  obtain rfl : entry = other := Option.some.inj (holds.symm.trans holds_other)
  have same_hash : entry.hash = hash := Entry.hash_eq_of_isMatch matching
  exact ⟨slot, holds, same_hash ▸ rest_eq⟩

theorem Indexed.erase? (indexed : table.Indexed) {hash : UInt64} {matchesKey : κ → Bool}
    {entry : Entry κ ν} {rest : Table κ ν}
    (erases : table.erase? hash matchesKey = some (entry, rest)) : rest.Indexed := by
  obtain ⟨slot, holds, rfl⟩ := indexed.erase?_spec erases
  exact indexed.eraseSlot holds

end Table

/-! ## Histories -/

/-- What can be asked of a map with values as keys. -/
inductive KeyOperation where
  /-- Stores a value for a key. -/
  | insert (key value : Value)
  /-- Removes a key. -/
  | remove (key : Value)
  /-- Looks up the value of a key. -/
  | get (key : Value)
  /-- Asks whether there is a key. -/
  | contains (key : Value)
  /-- Counts the keys. -/
  | length
  /-- Asks whether there is no key. -/
  | isEmpty
  /-- Lists the keys. -/
  | keys
  /-- Lists the keys with their values. -/
  | entries
  /-- Combines the hashes of the keys. -/
  | digest

/-- What a map answers. -/
inductive KeyAnswer where
  | stored
  | removed (value : Value)
  | found (value : Option Value)
  | truth (holds : Bool)
  | count (number : Nat)
  | keys (keys : List Value)
  | entries (entries : List (Value × Value))
  | digest (word : UInt64)

namespace KeyOperation

/-- An operation on a table. -/
def onTable (store : Store) (table : Table Value Value) :
    KeyOperation → Except Fault (KeyAnswer × Table Value Value)
  | insert key value => do
      let after ← store.insertKey table key value
      return (.stored, after)
  | remove key => do
      let (value, after) ← store.eraseKey table key
      return (.removed value, after)
  | get key => do return (.found (← store.lookup? table key), table)
  | contains key => do return (.truth (← store.hasKey table key), table)
  | length => return (.count table.size, table)
  | isEmpty => return (.truth table.isEmpty, table)
  | keys => return (.keys table.keys, table)
  | entries => return (.entries (table.entries.map fun entry => (entry.key, entry.value)), table)
  | digest => return (.digest table.digest, table)

/-- The same operation on a list of entries. A key is searched from the front, by its hash and then
by loose equality. -/
def onList (store : Store) (entries : List (Entry Value Value)) :
    KeyOperation → Except Fault (KeyAnswer × List (Entry Value Value))
  | insert key value => do
      let hash ← store.hash key
      return (.stored, AssociationList.insert hash (store.equals · key) key value entries)
  | remove key => do
      let hash ← store.hash key
      match AssociationList.erase? hash (store.equals · key) entries with
      | some (entry, rest) => return (.removed entry.value, rest)
      | none => throw (.missingKey (store.repr key))
  | get key => do
      let hash ← store.hash key
      let entry := entries.find? (Entry.isMatch hash (store.equals · key))
      return (.found (entry.map (·.value)), entries)
  | contains key => do
      let hash ← store.hash key
      return (.truth (entries.any (Entry.isMatch hash (store.equals · key))), entries)
  | length => return (.count entries.length, entries)
  | isEmpty => return (.truth entries.isEmpty, entries)
  | keys => return (.keys (entries.map (·.key)), entries)
  | .entries => return (.entries (entries.map fun entry => (entry.key, entry.value)), entries)
  | digest => return (.digest (entries.foldl (fun acc entry => acc ^^^ entry.hash) 0), entries)

/-- The answers to a history of operations, each in the store of its time. An operation that fails
leaves the map as it was. -/
def answers {σ : Type} (step : Store → σ → KeyOperation → Except Fault (KeyAnswer × σ)) :
    σ → List (Store × KeyOperation) → List (Except Fault KeyAnswer)
  | _, [] => []
  | map, (store, operation) :: history =>
      match step store map operation with
      | .ok (answer, after) => .ok answer :: answers step after history
      | .error fault => .error fault :: answers step map history

/-- A table and the list of its entries agree on one operation, in the answer or the fault as well
as in what is left. -/
theorem onList_entries {table : Table Value Value} (indexed : table.Indexed) (store : Store)
    (operation : KeyOperation) :
    operation.onList store table.entries =
      (operation.onTable store table).map fun outcome => (outcome.1, outcome.2.entries) := by
  cases operation with
  | insert key value =>
      rw [onList, onTable, Store.insertKey]
      cases store.hash key with
      | error fault => rfl
      | ok hash =>
          have agree := indexed.entries_insert hash (store.equals · key) key value
          simp only [bind, Except.bind, ← agree]
          rfl
  | remove key =>
      rw [onList, onTable, Store.eraseKey]
      cases store.hash key with
      | error fault => rfl
      | ok hash =>
          have agree := indexed.erase?_eq hash (store.equals · key)
          simp only [bind, Except.bind, ← agree]
          cases table.erase? hash (store.equals · key) <;> rfl
  | get key =>
      rw [onList, onTable, Store.lookup?, Store.entryFor?]
      cases store.hash key with
      | error fault => rfl
      | ok hash =>
          have agree := indexed.get?_eq hash (store.equals · key)
          simp only [bind, Except.bind, ← agree]
          rfl
  | contains key =>
      rw [onList, onTable, Store.hasKey, Store.entryFor?]
      cases store.hash key with
      | error fault => rfl
      | ok hash =>
          have agree := indexed.get?_eq hash (store.equals · key)
          simp only [bind, Except.bind, ← List.isSome_find?, ← agree]
          rfl
  | length =>
      rw [onList, onTable, indexed.size_eq]
      rfl
  | isEmpty =>
      have agree : table.isEmpty = table.entries.isEmpty := by
        rw [Table.isEmpty, indexed.size_eq]
        cases table.entries <;> rfl
      rw [onList, onTable, agree]
      rfl
  | keys => rfl
  | entries => rfl
  | digest => rfl

theorem indexed_of_onTable {table after : Table Value Value} (indexed : table.Indexed)
    {store : Store} {operation : KeyOperation} {answer : KeyAnswer}
    (succeeds : operation.onTable store table = .ok (answer, after)) : after.Indexed := by
  cases operation with
  | insert key value =>
      rw [onTable] at succeeds
      cases inserts : store.insertKey table key value with
      | error fault => simp [inserts, bind, Except.bind] at succeeds
      | ok next =>
          obtain ⟨hash, -, rfl⟩ := Store.insertKey_eq_ok.mp inserts
          simp only [inserts, bind, Except.bind, pure, Except.pure, Except.ok.injEq,
            Prod.mk.injEq] at succeeds
          exact succeeds.2 ▸ indexed.insert _ _ _ _
  | remove key =>
      rw [onTable] at succeeds
      cases removes : store.eraseKey table key with
      | error fault => simp [removes, bind, Except.bind] at succeeds
      | ok outcome =>
          obtain ⟨hash, entry, -, erases, -⟩ := Store.eraseKey_eq_ok.mp removes
          simp only [removes, bind, Except.bind, pure, Except.pure, Except.ok.injEq,
            Prod.mk.injEq] at succeeds
          exact succeeds.2 ▸ indexed.erase? erases
  | get key =>
      rw [onTable] at succeeds
      cases looks : store.lookup? table key with
      | error fault => simp [looks, bind, Except.bind] at succeeds
      | ok found =>
          simp only [looks, bind, Except.bind, pure, Except.pure, Except.ok.injEq,
            Prod.mk.injEq] at succeeds
          exact succeeds.2 ▸ indexed
  | contains key =>
      rw [onTable] at succeeds
      cases looks : store.hasKey table key with
      | error fault => simp [looks, bind, Except.bind] at succeeds
      | ok found =>
          simp only [looks, bind, Except.bind, pure, Except.pure, Except.ok.injEq,
            Prod.mk.injEq] at succeeds
          exact succeeds.2 ▸ indexed
  | length | isEmpty | keys | entries | digest =>
      simp only [onTable, pure, Except.pure, Except.ok.injEq, Prod.mk.injEq] at succeeds
      exact succeeds.2 ▸ indexed

theorem answers_onTable_of_indexed (history : List (Store × KeyOperation))
    {table : Table Value Value} (indexed : table.Indexed) :
    answers (fun store table operation => operation.onTable store table) table history =
      answers (fun store entries operation => operation.onList store entries) table.entries
        history := by
  induction history generalizing table with
  | nil => rfl
  | cons step history induction =>
      obtain ⟨store, operation⟩ := step
      rw [answers, answers, onList_entries indexed]
      cases outcome : operation.onTable store table with
      | error fault => exact congrArg _ (induction indexed)
      | ok result => exact congrArg _ (induction (indexed_of_onTable indexed outcome))

/-- A history started from the empty table cannot be told from the same history started from the
empty list: neither emptied slots nor shared buckets nor rebuilding ever show. -/
theorem answers_onTable_eq_answers_onList (history : List (Store × KeyOperation)) :
    answers (fun store table operation => operation.onTable store table) ∅ history =
      answers (fun store entries operation => operation.onList store entries) [] history :=
  answers_onTable_of_indexed history Table.indexed_empty

end KeyOperation
end ObjectModel
