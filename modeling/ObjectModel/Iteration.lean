import ObjectModel.SetAlgebra

/-!
# Iteration

An iterator is a cursor or a mapping. Cursors over lists, sets and maps look at their container at
each step, so they see what has been added meanwhile. Loops over an iterator take the step `next` as
a parameter, for a mapping can only be advanced by whoever can call functions.
-/

namespace ObjectModel

open Effect

namespace Value

/-- An iterator over a value. An iterator is its own. -/
def iter (value : Value) : Effect Value := do
  let store ← getStore
  match value with
  | .list ref => newListIterator ref
  | .set ref | .frozenset ref => return .setIterator (← newKeyCursor ref)
  | .dict ref => return .dictKeyIterator (← newKeyCursor ref)
  | .tuple ref => newSeqIterator (store.tuple ref)
  | .str text => newSeqIterator (text.toList.map Value.char)
  | .bytes contents => newSeqIterator (contents.map Value.byte)
  | .bytearray ref => newSeqIterator ((store.buffer ref).map Value.byte)
  | .listIterator _ | .setIterator _ | .dictKeyIterator _ | .seqIterator _ | .map _ => return value
  | _ => throw (.notIterable value.kind)

end Value

namespace Effect

/-- The next item under a cursor over a list. -/
def nextInList (ref : Ref) : Effect Value := do
  let store ← getStore
  let cursor := store.listCursors.get ref
  match (store.list cursor.target)[cursor.place]? with
  | some item =>
    let moved := { cursor with place := cursor.place + 1 }
    modifyStore fun store => { store with listCursors := store.listCursors.set ref moved }
    return item
  | none => throw .endOfSequence

/-- The next key under a cursor over a table. -/
def nextInTable (ref : Ref) : Effect Value := do
  let store ← getStore
  let cursor := store.keyCursors.get ref
  match (store.table cursor.target).firstFrom? cursor.place with
  | some (slot, entry) =>
    let moved := { cursor with place := slot + 1 }
    modifyStore fun store => { store with keyCursors := store.keyCursors.set ref moved }
    return entry.key
  | none => throw .endOfSequence

/-- The next item under a cursor over a sequence that cannot change. -/
def nextInSequence (ref : Ref) : Effect Value := do
  match (← getStore).sequenceCursors.get ref with
  | item :: rest =>
    modifyStore fun store => { store with sequenceCursors := store.sequenceCursors.set ref rest }
    return item
  | [] => throw .endOfSequence

/-- The iterator over the source of a mapping, which is asked for when it is first needed. -/
def sourceIterator (ref : Ref) : Effect Value := do
  let mapping := (← getStore).mappings.get ref
  match mapping.iterator with
  | some iterator => return iterator
  | none =>
    let iterator ← mapping.source.iter
    let resolved := { mapping with iterator := some iterator }
    modifyStore fun store => { store with mappings := store.mappings.set ref resolved }
    return iterator

end Effect

/-- The next element of an iterator, or `none` at its end. -/
def nextItemBy (next : Value → Effect Value) (iterator : Value) : Effect (Option Value) :=
  tryCatch (do return some (← next iterator)) fun fault =>
    if fault.isEndOfSequence then return none else throw fault

/-- Takes the next element of an iterator into a state, or comes to the state at the end. -/
def foldTurn {σ : Type} (next : Value → Effect Value) (iterator : Value)
    (step : σ → Value → Effect σ) (state : σ) : Effect (σ ⊕ σ) := do
  match ← nextItemBy next iterator with
  | some item => return .inl (← step state item)
  | none => return .inr state

/-- Steps through an iterator and combines its elements with a state from left to right. -/
def foldLoop {σ : Type} (next : Value → Effect Value) (iterator : Value)
    (step : σ → Value → Effect σ) : σ → Effect σ :=
  loop (foldTurn next iterator step)

/-- Steps through the elements of a source and combines them with a state from left to right. -/
def foldItems {σ : Type} (next : Value → Effect Value) (source : Value)
    (step : σ → Value → Effect σ) (initial : σ) : Effect σ := do
  foldLoop next (← source.iter) step initial

/-- The elements of a source. -/
def collectItems (next : Value → Effect Value) (source : Value) : Effect (List Value) := do
  let items ← foldItems next source (fun items item => return item :: items) []
  return items.reverse

end ObjectModel
