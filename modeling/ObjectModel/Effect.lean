import ObjectModel.Console
import ObjectModel.Store

/-!
# Effects

An effect reads and changes a world, and ends with a result or a fault. What it changed before a
fault stays changed.
-/

namespace ObjectModel

/-- Everything that effects can change. -/
structure World where
  /-- The contents of all objects. -/
  store : Store := {}
  /-- The console that prompts are shown on. -/
  console : Console := {}

/-- A computation that can change the world and can fail. -/
abbrev Effect (α : Type) : Type :=
  ExceptT Fault (StateM World) α

/-- A function of the host. It gets the positional arguments, and the protocol step `next` for
arguments that are iterators. -/
abbrev HostFunction : Type :=
  (Value → Effect Value) → List Value → Effect Value

/-- What operations need to know and cannot change. -/
structure Context where
  /-- The settings. -/
  config : Config := {}
  /-- The functions of the host, by name. -/
  function? : String → Option HostFunction := fun _ => none

/-! ## Effects that need not end -/

namespace World

/-- Repeats a turn, which goes on with another state or comes to a result. The ending of the last
turn is that of the loop. -/
def loop? {σ α : Type} (turn : σ → Effect (σ ⊕ α)) (world : World) (state : σ) :
    Option (Except Fault α × World) :=
  match (turn state).run.run world with
  | (.ok (.inl after), later) => later |>.loop? turn after
  | (.ok (.inr result), later) => some (.ok result, later)
  | (.error fault, later) => some (.error fault, later)
partial_fixpoint

/-- The ending of the first attempt that ends, from the given one on. -/
def attempt? {α : Type} (attempts : Nat → Effect α) (world : World) (depth : Nat) :
    Option (Except Fault α × World) :=
  match (attempts depth).run.run world with
  | (.error .endless, _) => world |>.attempt? attempts (depth + 1)
  | ending => some ending
partial_fixpoint

end World

namespace Effect

/-- Repeats a turn until it comes to a result. -/
def loop {σ α : Type} (turn : σ → Effect (σ ⊕ α)) (state : σ) : Effect α := fun world =>
  (world.loop? turn state).getD (.error .endless, world)

/-- Does what the first attempt does that ends. -/
def unbounded {α : Type} (attempts : Nat → Effect α) : Effect α := fun world =>
  (world.attempt? attempts 0).getD (.error .endless, world)

/-! ## The store -/

/-- The present store. -/
def getStore : Effect Store := do
  return (← get).store

/-- Changes the store. -/
def modifyStore (change : Store → Store) : Effect Unit :=
  modify fun world => { world with store := change world.store }

/-- Ends with what can be read off the store. -/
def read {α : Type} (query : Store → Except Fault α) : Effect α := do
  ofExcept (query (← getStore))

/-- Adds a buffer of bytes. -/
def newBytearray (bytes : List UInt8) : Effect Value := do
  let ref := (← getStore).buffers.next
  modifyStore fun store => { store with buffers := store.buffers.push bytes }
  return .bytearray ref

/-- Adds a tuple. -/
def newTuple (items : List Value) : Effect Value := do
  let ref := (← getStore).tuples.next
  modifyStore fun store => { store with tuples := store.tuples.push items }
  return .tuple ref

/-- Adds a list. -/
def newList (items : List Value) : Effect Value := do
  let ref := (← getStore).lists.next
  modifyStore fun store => { store with lists := store.lists.push items }
  return .list ref

/-- Adds a table. -/
def newTable (table : Table Value Value) : Effect Ref := do
  let ref := (← getStore).tables.next
  modifyStore fun store => { store with tables := store.tables.push table }
  return ref

/-- Adds a host object. -/
def newHostObject (fields : List (String × Value)) : Effect Value := do
  let ref := (← getStore).records.next
  modifyStore fun store => { store with records := store.records.push fields }
  return .hostObject ref

/-- Adds a cursor at the beginning of a list. -/
def newListIterator (list : Ref) : Effect Value := do
  let ref := (← getStore).listCursors.next
  modifyStore fun store => { store with listCursors := store.listCursors.push { target := list } }
  return .listIterator ref

/-- Adds a cursor at the first slot of a table. -/
def newKeyCursor (table : Ref) : Effect Ref := do
  let ref := (← getStore).keyCursors.next
  modifyStore fun store => { store with keyCursors := store.keyCursors.push { target := table } }
  return ref

/-- Adds a cursor over items that cannot change. -/
def newSeqIterator (items : List Value) : Effect Value := do
  let ref := (← getStore).sequenceCursors.next
  modifyStore fun store => { store with sequenceCursors := store.sequenceCursors.push items }
  return .seqIterator ref

/-- Adds a mapping. Its source is asked for an iterator when its first element is. -/
def newMap (function source : Value) : Effect Value := do
  let ref := (← getStore).mappings.next
  modifyStore fun store => { store with mappings := store.mappings.push { function, source } }
  return .map ref

/-- Replaces the bytes of a buffer. -/
def setBuffer (ref : Ref) (bytes : List UInt8) : Effect Unit :=
  modifyStore fun store => { store with buffers := store.buffers.set ref bytes }

/-- Replaces the items of a list. -/
def setList (ref : Ref) (items : List Value) : Effect Unit :=
  modifyStore fun store => { store with lists := store.lists.set ref items }

/-- Replaces a table. -/
def setTable (ref : Ref) (table : Table Value Value) : Effect Unit :=
  modifyStore fun store => { store with tables := store.tables.set ref table }

end Effect
end ObjectModel
