import ObjectModel.Table
import ObjectModel.Value

/-!
# The store

The store holds the contents of everything that has an identity, one pool for each sort of object.
Objects are only ever added; a reference that has been given out keeps its meaning. Reading a
reference that was never given out yields empty contents.
-/

namespace ObjectModel

/-- The objects of one sort. -/
structure Pool (α : Type) where
  /-- The contents of the objects, in the order of their creation. -/
  cells : Array α := #[]

namespace Pool

variable {α : Type}

/-- The number of objects. -/
def size (pool : Pool α) : Nat :=
  pool.cells.size

/-- The contents of an object. -/
def get [Inhabited α] (pool : Pool α) (ref : Ref) : α :=
  pool.cells.getD ref.index default

/-- Replaces the contents of an object. -/
def set (pool : Pool α) (ref : Ref) (contents : α) : Pool α :=
  ⟨pool.cells.setIfInBounds ref.index contents⟩

/-- Adds an object. -/
def push (pool : Pool α) (contents : α) : Pool α :=
  ⟨pool.cells.push contents⟩

/-- The reference of the next object. -/
def next (pool : Pool α) : Ref :=
  ⟨pool.size⟩

@[simp]
theorem get_push_next [Inhabited α] (pool : Pool α) (contents : α) :
    (pool.push contents).get pool.next = contents := by
  simp [get, push, next, size]

theorem get_push_of_ne [Inhabited α] (pool : Pool α) (contents : α) {ref : Ref}
    (old : ref ≠ pool.next) : (pool.push contents).get ref = pool.get ref := by
  have index_ne : ref.index ≠ pool.cells.size := fun same =>
    old (by cases ref; simp_all [next, size])
  simp [get, push, Array.getElem?_push, index_ne]

@[simp]
theorem get_set_self [Inhabited α] (pool : Pool α) (contents : α) {ref : Ref}
    (known : ref.index < pool.size) : (pool.set ref contents).get ref = contents := by
  rw [size] at known
  simp [get, set, known]

theorem get_set_of_ne [Inhabited α] (pool : Pool α) (contents : α) {ref other : Ref}
    (ne : other ≠ ref) : (pool.set ref contents).get other = pool.get other := by
  have index_ne : ref.index ≠ other.index := fun same =>
    ne (by cases ref; cases other; simp_all)
  simp [get, set, Array.getElem?_setIfInBounds_ne index_ne]

end Pool

/-- A place in a container that can change. -/
structure Cursor where
  /-- The container. -/
  target : Ref
  /-- The next place to look at. -/
  place : Nat := 0
  deriving DecidableEq, Repr, Inhabited

/-- A function and the source of its arguments. -/
structure Mapping where
  /-- What each element passes through. -/
  function : Value
  /-- Where the elements come from. -/
  source : Value
  /-- The iterator over the source, once it has been asked for. -/
  iterator : Option Value := none
  deriving DecidableEq, Repr, Inhabited

/-- The memory that contents are kept in. -/
structure Memory where
  /-- The size of a value inside a sequence, in bytes. -/
  valueSize : Nat := 48
  /-- The greatest number of bytes that can be reserved at once. -/
  available : Nat := 1 <<< 32
  deriving DecidableEq, Repr

/-- The contents of all objects. -/
structure Store where
  /-- Mutable strings of bytes. -/
  buffers : Pool (List UInt8) := {}
  /-- Immutable sequences. -/
  tuples : Pool (List Value) := {}
  /-- Mutable sequences. -/
  lists : Pool (List Value) := {}
  /-- The entries of sets and maps; a set maps each element to itself. -/
  tables : Pool (Table Value Value) := {}
  /-- The fields of host objects. -/
  records : Pool (List (String × Value)) := {}
  /-- Cursors over lists; a place is a position. -/
  listCursors : Pool Cursor := {}
  /-- Cursors over the keys of tables; a place is a slot. -/
  keyCursors : Pool Cursor := {}
  /-- Cursors over sequences that cannot change, each with the elements still ahead. -/
  sequenceCursors : Pool (List Value) := {}
  /-- Sources with a function. -/
  mappings : Pool Mapping := {}
  /-- The memory for all of them. -/
  memory : Memory := {}

namespace Store

/-- The number of objects. -/
def size (store : Store) : Nat :=
  store.buffers.size + store.tuples.size + store.lists.size + store.tables.size +
    store.records.size + store.listCursors.size + store.keyCursors.size +
    store.sequenceCursors.size + store.mappings.size

/-- How deep values can nest: a chain of values, each inside the one before, passes through every
object once at most and ends with a scalar. -/
def depth (store : Store) : Nat :=
  store.size + 1

/-- The bytes of a buffer. -/
def buffer (store : Store) (ref : Ref) : List UInt8 := store.buffers.get ref

/-- The items of a tuple. -/
def tuple (store : Store) (ref : Ref) : List Value := store.tuples.get ref

/-- The items of a list. -/
def list (store : Store) (ref : Ref) : List Value := store.lists.get ref

/-- The entries of a set or a map. -/
def table (store : Store) (ref : Ref) : Table Value Value := store.tables.get ref

/-- The fields of a host object. -/
def record (store : Store) (ref : Ref) : List (String × Value) := store.records.get ref

/-- The elements of a set. -/
def elements (store : Store) (ref : Ref) : List Value := (store.table ref).keys

/-- The bytes of a value that is a string of bytes of either sort. -/
def bytes? (store : Store) : Value → Option (List UInt8)
  | .bytes bytes => some bytes
  | .bytearray ref => some (store.buffer ref)
  | _ => none

/-- The number of elements that a value holds, if it holds any at all. -/
def length? (store : Store) : Value → Option Nat
  | .str text => some text.length
  | .bytes bytes => some bytes.length
  | .bytearray ref => some (store.buffer ref).length
  | .tuple ref => some (store.tuple ref).length
  | .list ref => some (store.list ref).length
  | .set ref | .frozenset ref | .dict ref => some (store.table ref).size
  | .hostObject ref => some (store.record ref).length
  | _ => none

/-- The truth of a value: zero and what holds no elements is false. -/
def isTruthy (store : Store) : Value → Bool
  | .none => false
  | .bool b => b
  | .int n => n != 0
  | .float x => !x.isZero
  | .complex re im => !re.isZero || !im.isZero
  | value => (store.length? value).all (· != 0)

end Store
end ObjectModel
