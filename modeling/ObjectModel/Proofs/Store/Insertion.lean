import ObjectModel.Proofs.Store.Stability
import ObjectModel.Proofs.Table.Traversal

/-!
# Additions to a set

Elements are added to a set one by one, and each addition changes the store in which the next one
searches. A set takes up an element if it does not contain it at that moment, and keeps those that
it has. If its table is inside none of the elements, these have the same hashes and the same
equalities all along, and the additions do what they would do to the table in the store of the
beginning.
-/

namespace ObjectModel

open Effect

namespace Pool

variable {α : Type}

theorem set_get [Inhabited α] (pool : Pool α) (ref : Ref) : pool.set ref (pool.get ref) = pool := by
  obtain ⟨cells⟩ := pool
  rw [set, Pool.mk.injEq]
  by_cases made : ref.index < cells.size
  · simp [get, made, Array.setIfInBounds]
  · exact Array.setIfInBounds_eq_of_size_le (Nat.not_lt.mp made)

theorem set_set (pool : Pool α) (ref : Ref) (first second : α) :
    (pool.set ref first).set ref second = pool.set ref second := by
  rw [set, set, set, Array.setIfInBounds_setIfInBounds]

theorem next_set (pool : Pool α) (ref : Ref) (contents : α) :
    (pool.set ref contents).next = pool.next :=
  congrArg Ref.mk (pool.size_set ref contents)

end Pool

theorem Table.insert_congr {κ ν : Type} {table : Table κ ν} {f g : κ → Bool} (hash : UInt64)
    (agree : ∀ entry ∈ table.entries, f entry.key = g entry.key) (key : κ) (value : ν) :
    table.insert hash f key value = table.insert hash g key value := by
  have same_test : ∀ slot, (table.entryAt? slot).any (f ·.key) =
      (table.entryAt? slot).any (g ·.key) := by
    intro slot
    cases holds : table.entryAt? slot with
    | none => rfl
    | some entry => exact agree entry (mem_entries.mpr ⟨slot, holds⟩)
  rw [insert, find?, funext same_test, insert, find?]

namespace Store

variable {store later : Store} {table after : Table Value Value} {item value : Value}
  {receiver : Ref} {items : List Value}

theorem withTable_table (store : Store) (ref : Ref) :
    store.withTable ref (store.table ref) = store := by
  rw [withTable, Store.table, Pool.set_get]

theorem withTable_withTable (store : Store) (ref : Ref) (first second : Table Value Value) :
    (store.withTable ref first).withTable ref second = store.withTable ref second := by
  rw [withTable, withTable, withTable, Pool.set_set]

theorem table_withTable (known : receiver.index < store.tables.size) (table : Table Value Value) :
    (store.withTable receiver table).table receiver = table :=
  Pool.get_set_self store.tables table known

/-- An insertion adds the key if and only if the table does not have it. -/
theorem keys_of_insertKey (inserts : store.insertKey table item value = .ok after) :
    after.keys = if store.includes table item then table.keys else table.keys ++ [item] := by
  obtain ⟨hash, hashes, rfl⟩ := insertKey_eq_ok.mp inserts
  have lookup : store.includes table item =
      (table.get? hash (store.equals · item)).isSome := by
    rw [includes, hasKey, entryFor?, hashes]
    rfl
  rw [lookup, Table.get?]
  cases search : table.find? hash (store.equals · item) with
  | none =>
      rw [Table.insert_of_find?_eq_none search, Table.keys, Table.entries_push, List.map_append]
      rfl
  | some slot =>
      obtain ⟨entry, holds⟩ := Table.entryAt?_of_find? search
      rw [Table.insert_of_find?_eq_some search, Table.keys_setValue holds, Option.bind_some, holds]
      rfl

theorem keys_subset_of_insertKey (inserts : store.insertKey table item value = .ok after) :
    after.keys ⊆ item :: table.keys := by
  rw [keys_of_insertKey inserts]
  split
  · exact List.subset_cons_self item table.keys
  · exact List.append_subset.mpr ⟨List.subset_cons_self item table.keys, by simp⟩

theorem keys_subset_of_insertPairs {pairs : List (Value × Value)}
    (inserts : pairs.foldlM (fun table pair => store.insertKey table pair.1 pair.2) table =
      .ok after) : after.keys ⊆ pairs.map (·.1) ++ table.keys := by
  induction pairs generalizing table with
  | nil => exact Except.ok.inj inserts ▸ List.Subset.refl _
  | cons pair pairs induction =>
      rw [List.foldlM_cons, bind_eq_ok_iff] at inserts
      obtain ⟨next, inserts, folds⟩ := inserts
      intro key member
      rcases List.mem_append.mp (induction folds member) with of_pair | old
      · exact List.mem_append_left _ (List.mem_cons_of_mem pair.1 of_pair)
      · rcases List.mem_cons.mp (keys_subset_of_insertKey inserts old) with rfl | older
        · exact List.mem_append_left _ List.mem_cons_self
        · exact List.mem_append_right _ older

theorem keys_subset_of_tableOfPairs {pairs : List (Value × Value)}
    (makes : store.tableOfPairs pairs = .ok table) : table.keys ⊆ pairs.map (·.1) := by
  have subset := keys_subset_of_insertPairs makes
  rwa [show (∅ : Table Value Value).keys = [] from rfl, List.append_nil] at subset

theorem keys_subset_of_tableOfElements (makes : store.tableOfElements items = .ok table) :
    table.keys ⊆ items := by
  rw [tableOfElements_eq] at makes
  have subset := keys_subset_of_tableOfPairs makes
  rwa [List.map_map, show Prod.fst ∘ (fun element : Value => (element, element)) = id from rfl,
    List.map_id] at subset

/-! ## Keys in a store that has changed -/

theorem insertKey_congr (same_hash : later.hash item = store.hash item)
    (same_equals : store.IsKey item →
      ∀ key ∈ table.keys, later.equals key item = store.equals key item) (value : Value) :
    later.insertKey table item value = store.insertKey table item value := by
  rw [insertKey, insertKey, same_hash]
  cases hashes : store.hash item with
  | error fault => rfl
  | ok hash =>
      exact congrArg Except.ok (Table.insert_congr hash (fun entry member =>
        same_equals ⟨hash, hashes⟩ entry.key (List.mem_map_of_mem member)) item value)

theorem insertKeys_congr (same_hash : ∀ item ∈ items, later.hash item = store.hash item)
    (same_equals : ∀ key, key ∈ table.keys ∨ key ∈ items ∧ store.IsKey key →
      ∀ item ∈ items, store.IsKey item → later.equals key item = store.equals key item) :
    items.foldlM (fun table item => later.insertKey table item item) table =
      items.foldlM (fun table item => store.insertKey table item item) table := by
  induction items generalizing table with
  | nil => rfl
  | cons item items induction =>
      have same_insertion : later.insertKey table item item = store.insertKey table item item :=
        insertKey_congr (same_hash item List.mem_cons_self) (fun is_key key member =>
          same_equals key (.inl member) item List.mem_cons_self is_key) item
      rw [List.foldlM_cons, List.foldlM_cons, same_insertion]
      cases inserts : store.insertKey table item item with
      | error fault => rfl
      | ok next =>
          obtain ⟨hash, hashes, -⟩ := insertKey_eq_ok.mp inserts
          refine induction (fun other member => same_hash other (List.mem_cons_of_mem item member))
            fun key stored other member => ?_
          refine same_equals key ?_ other (List.mem_cons_of_mem item member)
          rcases stored with stored | ⟨later_item, is_key⟩
          · rcases List.mem_cons.mp (keys_subset_of_insertKey inserts stored) with rfl | old
            · exact .inr ⟨List.mem_cons_self, hash, hashes⟩
            · exact .inl old
          · exact .inr ⟨List.mem_cons_of_mem item later_item, is_key⟩

/-- Elements make up the same table in stores where they have the same hashes, and those that are
keys the same equalities. -/
theorem tableOfElements_congr (same_hash : ∀ item ∈ items, later.hash item = store.hash item)
    (same_equals : ∀ key ∈ items, store.IsKey key → ∀ item ∈ items, store.IsKey item →
      later.equals key item = store.equals key item) :
    later.tableOfElements items = store.tableOfElements items :=
  insertKeys_congr same_hash fun key stored =>
    stored.elim (fun of_empty => nomatch of_empty) fun ⟨member, is_key⟩ =>
      same_equals key member is_key

section Unchanged

variable (unchanged_keys : ∀ key ∈ table.keys, store.Unchanged later key)
  (depth_le : store.depth ≤ later.depth)

include unchanged_keys depth_le

theorem equals_key_eq_of_unchanged (unchanged : store.Unchanged later item) :
    ∀ entry ∈ table.entries, later.equals entry.key item = store.equals entry.key item :=
  fun _ member => equals_eq_of_unchanged (unchanged_keys _ (List.mem_map_of_mem member)) unchanged
    depth_le

theorem hasKey_eq_of_unchanged (unchanged : store.Unchanged later item) :
    later.hasKey table item = store.hasKey table item := by
  rw [hasKey, entryFor?_congr (hash_eq_of_unchanged unchanged depth_le)
    (equals_key_eq_of_unchanged unchanged_keys depth_le unchanged), hasKey]

theorem insertKey_eq_of_unchanged (unchanged : store.Unchanged later item) (value : Value) :
    later.insertKey table item value = store.insertKey table item value :=
  insertKey_congr (hash_eq_of_unchanged unchanged depth_le)
    (fun _ key member => equals_eq_of_unchanged (unchanged_keys key member) unchanged depth_le)
    value

end Unchanged

theorem Fits.unchanged_of_extends (fits : store.Fits receiver value)
    (extends_to : (store.withTable receiver table).Extends later) :
    store.Unchanged later value where
  acyclic := fits.grounded.acyclic
  keeps inner reaches := keeps_of_tables extends_to.rest_eq fun other of_inner => by
    have made := index_lt_of_knows (fits.grounded.known inner reaches) of_inner
    have elsewhere : other ≠ receiver := by
      rintro rfl
      exact fits.avoids inner reaches of_inner
    rw [extends_to.table_eq other (made.trans_eq (store.tables.size_set receiver table).symm)]
    exact store.tables.get_set_of_ne table elsewhere

theorem depth_le_of_extends_withTable
    (extends_to : (store.withTable receiver table).Extends later) : store.depth ≤ later.depth :=
  (store.depth_withTable receiver table).ge.trans extends_to.depth_le

end Store

/-! ## What the receiver takes up -/

namespace Effect

/-- Those of some elements that a set does not contain when it is their turn to be added. -/
def newcomers (receiver : Ref) : List Value → World → List Value
  | [], _ => []
  | item :: items, world =>
      let rest := newcomers receiver items (outcome (addElement receiver item) world).2
      if world.store.includes (world.store.table receiver) item then rest else item :: rest

variable {receiver : Ref} {items : List Value} {world later : World}

/-- A set that elements are added to keeps its own and takes up those that it lacks. -/
theorem elements_addElements (known : receiver.index < world.store.tables.size)
    (adds : outcome (addElements receiver items) world = (.ok (), later)) :
    later.store.elements receiver =
      world.store.elements receiver ++ newcomers receiver items world := by
  induction items generalizing world with
  | nil =>
      obtain rfl := (Prod.mk.inj adds).2
      exact (List.append_nil _).symm
  | cons item items induction =>
      rw [addElements_cons, outcome_bind] at adds
      have steps := outcome_setKey receiver item item world
      cases inserts : world.store.insertKey (world.store.table receiver) item item with
      | error fault =>
          rw [steps, inserts] at adds
          cases adds
      | ok after =>
          rw [inserts] at steps
          rw [steps] at adds
          have still_known : receiver.index < (world.store.tables.set receiver after).size := by
            rwa [Pool.size_set]
          have elements_next : (world.store.withTable receiver after).elements receiver =
              if world.store.includes (world.store.table receiver) item then
                world.store.elements receiver
              else world.store.elements receiver ++ [item] := by
            rw [Store.elements, Store.table_withTable known, Store.keys_of_insertKey inserts]
            rfl
          rw [induction still_known adds, newcomers, addElement_eq_setKey, steps]
          change (world.store.withTable receiver after).elements receiver ++ _ = _
          rw [elements_next]
          split <;> simp

/-- Keys that fit can be added one by one, as if all of them were added to the table at first. -/
theorem outcome_addElements {start : Store} {table after : Table Value Value}
    (known : receiver.index < start.tables.size)
    (same : world.store = start.withTable receiver table)
    (fits_keys : ∀ key ∈ table.keys, start.Fits receiver key)
    (fits : ∀ item ∈ items, start.Fits receiver item)
    (inserts : items.foldlM (fun table item => start.insertKey table item item) table =
      .ok after) :
    outcome (addElements receiver items) world =
      (.ok (), { world with store := start.withTable receiver after }) := by
  induction items generalizing world table with
  | nil =>
      obtain rfl := Except.ok.inj inserts
      rw [← same]
      rfl
  | cons item items induction =>
      rw [List.forall_mem_cons] at fits
      rw [List.foldlM_cons, bind_eq_ok_iff] at inserts
      obtain ⟨next, inserts, folds⟩ := inserts
      have fits_next : ∀ key ∈ next.keys, start.Fits receiver key := by
        intro key member
        rcases List.mem_cons.mp (Store.keys_subset_of_insertKey inserts member) with rfl | old
        · exact fits.1
        · exact fits_keys key old
      have inserts_now : world.store.insertKey (world.store.table receiver) item item =
          .ok next := by
        rw [same, Store.table_withTable known, Store.insertKey_eq_of_unchanged
          (fun key member => (fits_keys key member).unchanged table)
          (start.depth_withTable receiver table).ge (fits.1.unchanged table), inserts]
      have store_next : { world.store with tables := world.store.tables.set receiver next } =
          start.withTable receiver next := by
        rw [same]
        exact start.withTable_withTable receiver table next
      rw [addElements_cons, outcome_bind, outcome_setKey, inserts_now]
      exact induction store_next fits_next fits.2 folds

end Effect

end ObjectModel
