import ObjectModel.Proofs.Outcome
import ObjectModel.Proofs.Store.Hash
import ObjectModel.Proofs.Store.Keyed

/-!
# Stores stay sound

Effects change the tables of a store by operations with values as keys, and by no others. So a store
stays sound through each of them that leaves the keys in all tables with the hashes and equalities
that they have.
-/

namespace ObjectModel

namespace Pool

variable {α : Type} [Inhabited α]

theorem get_set_eq_or (pool : Pool α) (ref : Ref) (contents : α) (other : Ref) :
    (pool.set ref contents).get other = contents ∨
      (pool.set ref contents).get other = pool.get other := by
  by_cases same : other = ref
  · subst same
    by_cases known : other.index < pool.size
    · exact .inl (get_set_self pool contents known)
    · right
      rw [size, Nat.not_lt] at known
      rw [set, Array.setIfInBounds_eq_of_size_le known]
  · exact .inr (get_set_of_ne pool contents same)

theorem get_push_eq_or (pool : Pool α) (contents : α) (other : Ref) :
    (pool.push contents).get other = contents ∨
      (pool.push contents).get other = pool.get other := by
  by_cases same : other = pool.next
  · exact .inl (same ▸ get_push_next pool contents)
  · exact .inr (get_push_of_ne pool contents same)

end Pool

namespace Store

/-- The keys in all tables of a later store have the same hashes and the same equalities as
before. -/
def KeepsAllKeys (store later : Store) : Prop :=
  ∀ ref, store.KeepsKeys later (later.table ref)

variable {store : Store} {table : Table Value Value}

theorem equals_of_number? (store : Store) {left right : Value} {m n : Number}
    (left_number : left.number? = some m) (right_number : right.number? = some n) :
    store.equals left right = m.equals n := by
  rw [equals, depth, equalWithin]
  unfold looseStep
  rw [left_number, right_number]

/-- Numbers have the same hashes and equalities in all stores. -/
theorem keepsAllKeys_of_numbers {later : Store}
    (numbers : ∀ ref, (later.elements ref).all (·.number?.isSome)) :
    store.KeepsAllKeys later := by
  intro ref
  have number_of_key : ∀ key ∈ later.elements ref, ∃ number, key.number? = some number :=
    fun key member => Option.isSome_iff_exists.mp (List.all_eq_true.mp (numbers ref) key member)
  constructor
  · intro key member
    obtain ⟨number, is_number⟩ := number_of_key key member
    rw [hash_of_number? later is_number, hash_of_number? store is_number]
  · intro key member other other_member
    obtain ⟨m, is_number⟩ := number_of_key key member
    obtain ⟨n, other_is_number⟩ := number_of_key other other_member
    rw [equals_of_number? later is_number other_is_number,
      equals_of_number? store is_number other_is_number]

theorem builds_of_pairs {pairs : List (Value × Value)} (builds : store.Builds table)
    {after : Table Value Value}
    (folds : pairs.foldlM (fun table pair => store.insertKey table pair.1 pair.2) table =
      .ok after) : store.Builds after := by
  induction pairs generalizing table with
  | nil => exact Except.ok.inj folds ▸ builds
  | cons pair pairs induction =>
      rw [List.foldlM_cons] at folds
      cases inserts : store.insertKey table pair.1 pair.2 with
      | error fault => simp [inserts, bind, Except.bind] at folds
      | ok next =>
          rw [inserts] at folds
          exact induction (builds.insertKey inserts) folds

theorem builds_of_tableOfPairs {pairs : List (Value × Value)}
    (makes : store.tableOfPairs pairs = .ok table) : store.Builds table :=
  builds_of_pairs .empty makes

/-- A set maps each element to itself. -/
theorem tableOfElements_eq (store : Store) (elements : List Value) :
    store.tableOfElements elements =
      store.tableOfPairs (elements.map fun element => (element, element)) := by
  rw [tableOfPairs, List.foldlM_map, tableOfElements]

theorem builds_of_tableOfElements {elements : List Value}
    (makes : store.tableOfElements elements = .ok table) : store.Builds table := by
  rw [tableOfElements_eq] at makes
  exact builds_of_tableOfPairs makes

theorem Sound.later {later : Store} (builds : ∀ ref, store.Builds (later.table ref))
    (keeps : store.KeepsAllKeys later) : later.Sound :=
  fun ref => (builds ref).later (keeps ref)

theorem Sound.setTable (sound : store.Sound) {ref : Ref} (builds : store.Builds table)
    (keeps : store.KeepsAllKeys { store with tables := store.tables.set ref table }) :
    Sound { store with tables := store.tables.set ref table } := by
  refine Sound.later (fun other => ?_) keeps
  rcases store.tables.get_set_eq_or ref table other with new | old
  · rw [Store.table, new]
    exact builds
  · rw [Store.table, old]
    exact sound other

theorem Sound.addTable (sound : store.Sound) (builds : store.Builds table)
    (keeps : store.KeepsAllKeys { store with tables := store.tables.push table }) :
    Sound { store with tables := store.tables.push table } := by
  refine Sound.later (fun other => ?_) keeps
  rcases store.tables.get_push_eq_or table other with new | old
  · rw [Store.table, new]
    exact builds
  · rw [Store.table, old]
    exact sound other

/-! ## Effects -/

open Effect

variable {world : World}

theorem Sound.outcome_setKey (sound : world.store.Sound) {ref : Ref} {key value : Value}
    (keeps : world.store.KeepsAllKeys (outcome (setKey ref key value) world).2.store) :
    (outcome (setKey ref key value) world).2.store.Sound := by
  rw [Effect.outcome_setKey] at keeps ⊢
  cases inserts : world.store.insertKey (world.store.table ref) key value with
  | error fault => exact sound
  | ok after =>
      rw [inserts] at keeps
      exact sound.setTable ((sound ref).insertKey inserts) keeps

theorem Sound.outcome_removeElement (sound : world.store.Sound) {ref : Ref} {element : Value}
    (keeps : world.store.KeepsAllKeys (outcome (removeElement ref element) world).2.store) :
    (outcome (removeElement ref element) world).2.store.Sound := by
  rw [Effect.outcome_removeElement] at keeps ⊢
  cases erases : world.store.eraseKey (world.store.table ref) element with
  | error fault => exact sound
  | ok result =>
      obtain ⟨value, after⟩ := result
      rw [erases] at keeps
      exact sound.setTable ((sound ref).erase erases) keeps

theorem Sound.outcome_newSet (sound : world.store.Sound) {sort : SetKind} {elements : List Value}
    (keeps : world.store.KeepsAllKeys (outcome (newSet sort elements) world).2.store) :
    (outcome (newSet sort elements) world).2.store.Sound := by
  rw [Effect.outcome_newSet] at keeps ⊢
  cases makes : world.store.tableOfElements elements with
  | error fault => exact sound
  | ok after =>
      rw [makes] at keeps
      exact sound.addTable (builds_of_tableOfElements makes) keeps

end Store
end ObjectModel
