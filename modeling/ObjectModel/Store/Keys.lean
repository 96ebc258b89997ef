import ObjectModel.Store.Equality
import ObjectModel.Store.Text

/-!
# Values as keys

Tables whose keys are values: a key is found by its hash and then by loose equality. Every operation
begins with the hash of the key, so a value without one is refused whatever the table holds.
-/

namespace ObjectModel
namespace Store

/-- The value stored for a key. -/
def lookup? (store : Store) (table : Table Value Value) (key : Value) :
    Except Fault (Option Value) := do
  let entry ← store.entryFor? store.equals table key
  return entry.map (·.value)

/-- Whether the table has the key. -/
def hasKey (store : Store) (table : Table Value Value) (key : Value) : Except Fault Bool := do
  let entry ← store.entryFor? store.equals table key
  return entry.isSome

/-- The table with a value for a key. A key that is there already stays as it is. -/
def insertKey (store : Store) (table : Table Value Value) (key value : Value) :
    Except Fault (Table Value Value) := do
  let hash ← store.hash key
  return table.insert hash (store.equals · key) key value

/-- The value stored for a key, and the table without that key. -/
def eraseKey (store : Store) (table : Table Value Value) (key : Value) :
    Except Fault (Value × Table Value Value) := do
  let hash ← store.hash key
  match table.erase? hash (store.equals · key) with
  | some (entry, rest) => return (entry.value, rest)
  | none => throw (.missingKey (store.repr key))

theorem insertKey_eq_ok {store : Store} {table after : Table Value Value} {key value : Value} :
    store.insertKey table key value = .ok after ↔
      ∃ hash, store.hash key = .ok hash ∧
        table.insert hash (store.equals · key) key value = after := by
  rw [insertKey]
  cases store.hash key with
  | error fault => simp [bind, Except.bind]
  | ok hash => simp [bind, Except.bind, pure, Except.pure]

theorem eraseKey_eq_ok {store : Store} {table rest : Table Value Value} {key value : Value} :
    store.eraseKey table key = .ok (value, rest) ↔
      ∃ hash entry, store.hash key = .ok hash ∧
        table.erase? hash (store.equals · key) = some (entry, rest) ∧ entry.value = value := by
  rw [eraseKey]
  cases store.hash key with
  | error fault => simp [bind, Except.bind]
  | ok hash =>
      simp only [bind, Except.bind, Except.ok.injEq, exists_and_left, exists_eq_left']
      cases table.erase? hash (store.equals · key) with
      | none => simp [throw, throwThe, MonadExceptOf.throw]
      | some outcome =>
          obtain ⟨entry, left⟩ := outcome
          simp only [pure, Except.pure, Except.ok.injEq, Prod.mk.injEq, Option.some.injEq]
          constructor
          · rintro ⟨rfl, rfl⟩
            exact ⟨entry, ⟨rfl, rfl⟩, rfl⟩
          · rintro ⟨_, ⟨rfl, rfl⟩, rfl⟩
            exact ⟨rfl, rfl⟩

/-- The table in which each of the elements stands for itself, or the fault of the first one that
cannot be a key. -/
def tableOfElements (store : Store) (elements : List Value) : Except Fault (Table Value Value) :=
  elements.foldlM (fun table element => store.insertKey table element element) ∅

/-- The table of the given keys and values, in which a later value for a key replaces an earlier
one. -/
def tableOfPairs (store : Store) (pairs : List (Value × Value)) :
    Except Fault (Table Value Value) :=
  pairs.foldlM (fun table pair => store.insertKey table pair.1 pair.2) ∅

end Store
end ObjectModel
