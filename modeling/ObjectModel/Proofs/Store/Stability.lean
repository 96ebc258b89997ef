import ObjectModel.Proofs.Store.Frame
import ObjectModel.Proofs.Store.Members
import ObjectModel.Proofs.Store.Soundness

/-!
# Stable keys

A store is stable if its tables have been built with keys that are acyclic and made of known
objects. Such keys keep their hashes and equalities in a store that gets more tables, for nothing
that is inside them changes. So a stable store stays stable when a table of such keys is added, and
the set operators do nothing else to a store.

Sets and maps that change are another matter: a key changes along with a table that is inside. It
stays as it is if it fits into the table, which is then inside no part of it.
-/

namespace ObjectModel

theorem Pool.size_push {α : Type} (pool : Pool α) (contents : α) :
    (pool.push contents).size = pool.size + 1 :=
  Array.size_push _

theorem Pool.index_next_lt_size_push {α : Type} (pool : Pool α) (contents : α) :
    pool.next.index < (pool.push contents).size := by
  rw [size_push]
  exact Nat.lt_succ_self _

theorem Pool.size_set {α : Type} (pool : Pool α) (ref : Ref) (contents : α) :
    (pool.set ref contents).size = pool.size :=
  Array.size_setIfInBounds

/-- The table of a set or a map. -/
def Value.table? : Value → Option Ref
  | .set ref | .frozenset ref | .dict ref => some ref
  | _ => .none

namespace Store

open Value

/-- A later store with more tables and nothing else changed. -/
structure Extends (store later : Store) : Prop where
  /-- All objects but tables are the same. -/
  rest_eq : later = { store with tables := later.tables }
  /-- Tables keep their entries. -/
  table_eq : ∀ ref, ref.index < store.tables.size → later.table ref = store.table ref
  /-- No table is lost. -/
  tables_le : store.tables.size ≤ later.tables.size

/-- Whether the object that a container or a sequence refers to has been made. -/
def knows (store : Store) : Value → Bool
  | .bytearray ref => ref.index < store.buffers.size
  | .tuple ref => ref.index < store.tuples.size
  | .list ref => ref.index < store.lists.size
  | .set ref | .frozenset ref | .dict ref => ref.index < store.tables.size
  | .hostObject ref => ref.index < store.records.size
  | _ => true

/-- An acyclic value that is made of known objects alone. -/
structure Grounded (store : Store) (value : Value) : Prop where
  acyclic : Acyclic store.contents value
  known : ∀ inner, Reaches store.contents value inner → store.knows inner

/-- A store whose tables have been built with keys that are acyclic and made of known objects. -/
structure Stable (store : Store) : Prop where
  sound : store.Sound
  grounded : ∀ ref, ∀ key ∈ store.elements ref, store.Grounded key

/-- A key that a table can take up without getting inside itself. -/
structure Fits (store : Store) (ref : Ref) (key : Value) : Prop where
  grounded : store.Grounded key
  avoids : ∀ inner, Reaches store.contents key inner → inner.table? ≠ some ref

variable {store later : Store} {value left right : Value} {depth : Nat}

theorem index_lt_of_knows (known : store.knows value) {ref : Ref}
    (of_value : value.table? = some ref) : ref.index < store.tables.size := by
  cases value <;> first | contradiction | skip
  all_goals
    obtain rfl := Option.some.inj of_value
    exact of_decide_eq_true known

/-- A value stays the same if only tables change and not its own. -/
theorem keeps_of_tables (rest_eq : later = { store with tables := later.tables })
    (same_table : ∀ ref, value.table? = some ref → later.table ref = store.table ref) :
    store.Keeps later value := by
  cases value with
  | set ref => exact same_table ref rfl
  | frozenset ref => exact same_table ref rfl
  | dict ref => exact same_table ref rfl
  | bytearray ref => exact congrArg (·.buffer ref) rest_eq
  | tuple ref => exact congrArg (·.tuple ref) rest_eq
  | list ref => exact congrArg (·.list ref) rest_eq
  | hostObject ref => exact congrArg (·.record ref) rest_eq
  | _ => exact trivial

/-- Values whose parts are among them are grounded if they are known and nest to some depth. -/
theorem grounded_of_closed {values : List Value} (known : ∀ value ∈ values, store.knows value)
    (closed : ∀ value ∈ values, store.contents value ⊆ values)
    (nests : ∀ value ∈ values, Value.nestsWithin store.contents depth value) :
    ∀ value ∈ values, store.Grounded value := fun value member =>
  { acyclic := acyclic_of_nestsWithin (nests value member)
    known := fun inner reaches => known inner (reaches.mem_of_closed member closed) }

theorem Grounded.of_unchanged (grounded : store.Grounded value)
    (unchanged : store.Unchanged later value)
    (knows : ∀ inner, store.knows inner → later.knows inner) : later.Grounded value where
  acyclic := unchanged.acyclic_later
  known inner reaches := knows inner (grounded.known inner (unchanged.reaches reaches))

/-! ## Growing stores -/

theorem Extends.refl (store : Store) : store.Extends store where
  rest_eq := rfl
  table_eq _ _ := rfl
  tables_le := le_rfl

theorem Extends.trans {last : Store} (first : store.Extends later) (second : later.Extends last) :
    store.Extends last where
  rest_eq := by rw [second.rest_eq, first.rest_eq]
  table_eq ref known := by
    rw [second.table_eq ref (known.trans_le first.tables_le), first.table_eq ref known]
  tables_le := first.tables_le.trans second.tables_le

theorem Extends.depth_le (extends_to : store.Extends later) : store.depth ≤ later.depth := by
  have tables_le := extends_to.tables_le
  rw [extends_to.rest_eq, depth, depth, size, size]
  simp only
  omega

theorem Extends.knows (extends_to : store.Extends later) (known : store.knows value) :
    later.knows value := by
  have tables_le := extends_to.tables_le
  rw [extends_to.rest_eq]
  cases value <;> simp only [Store.knows, decide_eq_true_eq] at known ⊢ <;> omega

theorem Extends.keeps (extends_to : store.Extends later) (known : store.knows value) :
    store.Keeps later value :=
  keeps_of_tables extends_to.rest_eq fun ref of_value =>
    extends_to.table_eq ref (index_lt_of_knows known of_value)

theorem Extends.unchanged (extends_to : store.Extends later) (grounded : store.Grounded value) :
    store.Unchanged later value where
  acyclic := grounded.acyclic
  keeps inner reaches := extends_to.keeps (grounded.known inner reaches)

/-- A value that is made of known objects keeps its hash when the store grows. -/
theorem hash_eq_of_extends (extends_to : store.Extends later) (grounded : store.Grounded value) :
    later.hash value = store.hash value :=
  hash_eq_of_unchanged (extends_to.unchanged grounded) extends_to.depth_le

/-- Values that are made of known objects stay equal or different when the store grows. -/
theorem equals_eq_of_extends (extends_to : store.Extends later) (grounded : store.Grounded left)
    (grounded_right : store.Grounded right) :
    later.equals left right = store.equals left right :=
  equals_eq_of_unchanged (extends_to.unchanged grounded) (extends_to.unchanged grounded_right)
    extends_to.depth_le

theorem extends_addTable (store : Store) (table : Table Value Value) :
    store.Extends { store with tables := store.tables.push table } where
  rest_eq := rfl
  table_eq ref known := by
    apply store.tables.get_push_of_ne
    rintro rfl
    exact Nat.lt_irrefl _ known
  tables_le := by
    rw [Pool.size_push]
    exact Nat.le_succ _

/-! ## Changing tables -/

/-- The store with another table in the place of one. -/
def withTable (store : Store) (ref : Ref) (table : Table Value Value) : Store :=
  { store with tables := store.tables.set ref table }

theorem depth_withTable (store : Store) (ref : Ref) (table : Table Value Value) :
    (store.withTable ref table).depth = store.depth := by
  rw [Store.depth, withTable, size, Pool.size_set]
  rfl

/-- A value does not change along with a table that is not inside. -/
theorem Fits.unchanged {ref : Ref} (fits : store.Fits ref value) (table : Table Value Value) :
    store.Unchanged (store.withTable ref table) value where
  acyclic := fits.grounded.acyclic
  keeps inner reaches := keeps_of_tables rfl fun other of_inner => by
    apply store.tables.get_set_of_ne table
    rintro rfl
    exact fits.avoids inner reaches of_inner

/-! ## Stable stores -/

/-- A stable store stays stable when a table of known keys is added. -/
theorem Stable.addTable (stable : store.Stable) {table : Table Value Value}
    (builds : store.Builds table) (grounded : ∀ key ∈ table.keys, store.Grounded key) :
    Stable { store with tables := store.tables.push table } := by
  have extends_to := store.extends_addTable table
  have grounded_keys : ∀ ref, ∀ key ∈ (store.tables.push table).get ref |>.keys,
      store.Grounded key := by
    intro ref key member
    rcases store.tables.get_push_eq_or table ref with new | old
    · rw [new] at member
      exact grounded key member
    · rw [old] at member
      exact stable.grounded ref key member
  have unchanged : ∀ ref, ∀ key ∈ (store.tables.push table).get ref |>.keys,
      store.Unchanged { store with tables := store.tables.push table } key :=
    fun ref key member => extends_to.unchanged (grounded_keys ref key member)
  exact
    { sound := stable.sound.addTable builds fun ref =>
        keepsKeys_of_unchanged (unchanged ref) extends_to.depth_le
      grounded := fun ref key member => (grounded_keys ref key member).of_unchanged
        (unchanged ref key member) fun _ => extends_to.knows }

end Store
end ObjectModel
