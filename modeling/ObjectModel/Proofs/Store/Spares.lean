import ObjectModel.Proofs.Store.Stability

/-!
# What a change of the store spares

A change spares a value if the object that the value refers to is still there with the same
contents. Adding an object spares every value, and so does moving a cursor. Replacing the contents
of an object spares the values that do not refer to it.
-/

namespace ObjectModel

namespace Pool

variable {α : Type} [Inhabited α]

/-- No object is lost, and those that are kept have the same contents. -/
structure Retains (kept : Ref → Prop) (pool later : Pool α) : Prop where
  size_le : pool.size ≤ later.size
  get_eq : ∀ ref, ref.index < pool.size → kept ref → later.get ref = pool.get ref

variable {kept : Ref → Prop} {pool later last : Pool α}

theorem Retains.refl (pool : Pool α) : pool.Retains kept pool where
  size_le := le_rfl
  get_eq _ _ _ := rfl

theorem Retains.trans (first : pool.Retains kept later) (second : later.Retains kept last) :
    pool.Retains kept last where
  size_le := first.size_le.trans second.size_le
  get_eq ref known is_kept := by
    rw [second.get_eq ref (known.trans_le first.size_le) is_kept, first.get_eq ref known is_kept]

theorem retains_push (pool : Pool α) (contents : α) : pool.Retains kept (pool.push contents) where
  size_le := by
    rw [size_push]
    exact Nat.le_succ _
  get_eq ref known _ := by
    apply pool.get_push_of_ne
    rintro rfl
    exact Nat.lt_irrefl _ known

theorem retains_set (pool : Pool α) {ref : Ref} (contents : α) (not_kept : ¬kept ref) :
    pool.Retains kept (pool.set ref contents) where
  size_le := (pool.size_set ref contents).ge
  get_eq other _ is_kept := by
    apply pool.get_set_of_ne
    rintro rfl
    exact not_kept is_kept

end Pool

/-- Two values that refer to one object: they are the same, or sets or maps with one table. -/
def Value.SharesObject (left right : Value) : Prop :=
  left = right ∨ ∃ ref, left.table? = some ref ∧ right.table? = some ref

@[simp]
theorem SetKind.table?_toValue (sort : SetKind) (table : Ref) :
    (sort.toValue table).table? = some table := by
  cases sort <;> rfl

@[simp]
theorem SetKind.kind_toValue (sort : SetKind) (table : Ref) :
    (sort.toValue table).kind = sort.kind := by
  cases sort <;> rfl

namespace Store

/-- Every object is still there in a later store, and those that the spared values refer to have
the same contents. Iterators have none. -/
structure Spares (spared : Value → Prop) (store later : Store) : Prop where
  buffers : store.buffers.Retains (spared <| .bytearray ·) later.buffers
  tuples : store.tuples.Retains (spared <| .tuple ·) later.tuples
  lists : store.lists.Retains (spared <| .list ·) later.lists
  tables : store.tables.Retains (fun ref => ∃ value, value.table? = some ref ∧ spared value)
    later.tables
  records : store.records.Retains (spared <| .hostObject ·) later.records
  depth_le : store.depth ≤ later.depth

variable {spared : Value → Prop} {store later last : Store} {value : Value}

theorem Spares.knows (spares : store.Spares spared later) (known : store.knows value) :
    later.knows value := by
  cases value <;> simp only [Store.knows, decide_eq_true_eq] at known ⊢
  case bytearray => exact known.trans_le spares.buffers.size_le
  case tuple => exact known.trans_le spares.tuples.size_le
  case list => exact known.trans_le spares.lists.size_le
  case hostObject => exact known.trans_le spares.records.size_le
  all_goals exact known.trans_le spares.tables.size_le

theorem Spares.keeps (spares : store.Spares spared later) (known : store.knows value)
    (is_spared : spared value) : store.Keeps later value := by
  cases value with
  | bytearray ref => exact spares.buffers.get_eq ref (of_decide_eq_true known) is_spared
  | tuple ref => exact spares.tuples.get_eq ref (of_decide_eq_true known) is_spared
  | list ref => exact spares.lists.get_eq ref (of_decide_eq_true known) is_spared
  | hostObject ref => exact spares.records.get_eq ref (of_decide_eq_true known) is_spared
  | set ref | frozenset ref | dict ref =>
      exact spares.tables.get_eq ref (of_decide_eq_true known) ⟨_, rfl, is_spared⟩
  | _ => exact trivial

theorem Spares.refl (store : Store) : store.Spares spared store where
  buffers := .refl _
  tuples := .refl _
  lists := .refl _
  tables := .refl _
  records := .refl _
  depth_le := le_rfl

theorem Spares.trans (first : store.Spares spared later) (second : later.Spares spared last) :
    store.Spares spared last where
  buffers := first.buffers.trans second.buffers
  tuples := first.tuples.trans second.tuples
  lists := first.lists.trans second.lists
  tables := first.tables.trans second.tables
  records := first.records.trans second.records
  depth_le := first.depth_le.trans second.depth_le

/-! ## Changes of one object -/

theorem spares_addBuffer (store : Store) (bytes : List UInt8) :
    store.Spares spared { store with buffers := store.buffers.push bytes } :=
  { Spares.refl store with
    buffers := store.buffers.retains_push bytes
    depth_le := by simp only [depth, size, Pool.size_push]; omega }

theorem spares_addTuple (store : Store) (items : List Value) :
    store.Spares spared { store with tuples := store.tuples.push items } :=
  { Spares.refl store with
    tuples := store.tuples.retains_push items
    depth_le := by simp only [depth, size, Pool.size_push]; omega }

theorem spares_addList (store : Store) (items : List Value) :
    store.Spares spared { store with lists := store.lists.push items } :=
  { Spares.refl store with
    lists := store.lists.retains_push items
    depth_le := by simp only [depth, size, Pool.size_push]; omega }

theorem spares_addTable (store : Store) (table : Table Value Value) :
    store.Spares spared { store with tables := store.tables.push table } :=
  { Spares.refl store with
    tables := store.tables.retains_push table
    depth_le := by simp only [depth, size, Pool.size_push]; omega }

theorem spares_addRecord (store : Store) (fields : List (String × Value)) :
    store.Spares spared { store with records := store.records.push fields } :=
  { Spares.refl store with
    records := store.records.retains_push fields
    depth_le := by simp only [depth, size, Pool.size_push]; omega }

/-- Iterators hold no contents that a value refers to. -/
theorem spares_iterators (store : Store) {listCursors keyCursors : Pool Cursor}
    {sequenceCursors : Pool (List Value)} {mappings : Pool Mapping}
    (size_le : store.listCursors.size + store.keyCursors.size + store.sequenceCursors.size +
      store.mappings.size ≤
        listCursors.size + keyCursors.size + sequenceCursors.size + mappings.size) :
    store.Spares spared { store with listCursors, keyCursors, sequenceCursors, mappings } :=
  { Spares.refl store with
    depth_le := by simp only [depth, size]; omega }

theorem spares_addListCursor (store : Store) (cursor : Cursor) :
    store.Spares spared { store with listCursors := store.listCursors.push cursor } :=
  store.spares_iterators (by simp only [Pool.size_push]; omega)

theorem spares_addKeyCursor (store : Store) (cursor : Cursor) :
    store.Spares spared { store with keyCursors := store.keyCursors.push cursor } :=
  store.spares_iterators (by simp only [Pool.size_push]; omega)

theorem spares_addSequenceCursor (store : Store) (items : List Value) :
    store.Spares spared { store with sequenceCursors := store.sequenceCursors.push items } :=
  store.spares_iterators (by simp only [Pool.size_push]; omega)

theorem spares_addMapping (store : Store) (mapping : Mapping) :
    store.Spares spared { store with mappings := store.mappings.push mapping } :=
  store.spares_iterators (by simp only [Pool.size_push]; omega)

theorem spares_setListCursor (store : Store) (ref : Ref) (cursor : Cursor) :
    store.Spares spared { store with listCursors := store.listCursors.set ref cursor } :=
  store.spares_iterators (by rw [Pool.size_set])

theorem spares_setKeyCursor (store : Store) (ref : Ref) (cursor : Cursor) :
    store.Spares spared { store with keyCursors := store.keyCursors.set ref cursor } :=
  store.spares_iterators (by rw [Pool.size_set])

theorem spares_setSequenceCursor (store : Store) (ref : Ref) (items : List Value) :
    store.Spares spared { store with sequenceCursors := store.sequenceCursors.set ref items } :=
  store.spares_iterators (by rw [Pool.size_set])

theorem spares_setMapping (store : Store) (ref : Ref) (mapping : Mapping) :
    store.Spares spared { store with mappings := store.mappings.set ref mapping } :=
  store.spares_iterators (by rw [Pool.size_set])

theorem spares_setBuffer (store : Store) {ref : Ref} (bytes : List UInt8)
    (not_spared : ¬spared (.bytearray ref)) :
    store.Spares spared { store with buffers := store.buffers.set ref bytes } :=
  { Spares.refl store with
    buffers := store.buffers.retains_set bytes not_spared
    depth_le := by simp only [depth, size, Pool.size_set, le_refl] }

theorem spares_setList (store : Store) {ref : Ref} (items : List Value)
    (not_spared : ¬spared (.list ref)) :
    store.Spares spared { store with lists := store.lists.set ref items } :=
  { Spares.refl store with
    lists := store.lists.retains_set items not_spared
    depth_le := by simp only [depth, size, Pool.size_set, le_refl] }

theorem spares_withTable (store : Store) {ref : Ref} (table : Table Value Value)
    (not_spared : ∀ value, value.table? = some ref → ¬spared value) :
    store.Spares spared (store.withTable ref table) :=
  { Spares.refl store with
    tables := store.tables.retains_set table fun ⟨value, of_value, is_spared⟩ =>
      not_spared value of_value is_spared
    depth_le := (store.depth_withTable ref table).ge }

end Store
end ObjectModel
