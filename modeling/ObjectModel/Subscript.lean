import ObjectModel.SetAlgebra

/-!
# Subscripts

Sequences take integers, truth values and slices as subscripts, maps take keys and host objects the
names of fields. Sets take none, and say so in different words for different subscripts.
-/

namespace ObjectModel

open Effect

/-- A subscript of a sequence: `one` makes a value of the selected item, and `many` one of the items
that a slice selects. -/
def subscriptSequence {α : Type} (edition : Edition) (sequence : String) (items : List α)
    (one : α → Value) (many : List α → Effect Value) (index : Value) : Effect Value := do
  match index with
  | .slice slice => many (← ofExcept (slice.apply items))
  | _ =>
    match index.integer? with
    | some n => return one (← ofExcept (itemAt sequence items n))
    | none => throw (.badIndex sequence edition index.kind)

/-- Why a set has no element at a subscript. -/
def SetKind.subscriptFault (sort : SetKind) (index : Value) : Fault :=
  match index with
  | .bool _ => .noIndexing sort.kind
  | .int n => if Word.fits n then .noIndexing sort.kind else .indexTooLarge
  | _ => .notSubscriptable sort.kind

namespace Value

/-- The value of `container[index]`. Messages about texts follow the older wording in every
edition. -/
def subscript (config : Config) (container index : Value) : Effect Value := do
  let store ← getStore
  match container with
  | .list ref => subscriptSequence config.edition "list" (store.list ref) id newList index
  | .tuple ref => subscriptSequence config.edition "tuple" (store.tuple ref) id newTuple index
  | .str text =>
    let ofChars (cs : List Char) : Effect Value := return .str (String.ofList cs)
    subscriptSequence .v34 "string" text.toList Value.char ofChars index
  | .bytes contents =>
    let ofBytes (bs : List UInt8) : Effect Value := return .bytes bs
    subscriptSequence config.edition "bytes" contents Value.byte ofBytes index
  | .bytearray ref =>
    subscriptSequence config.edition "bytearray" (store.buffer ref) Value.byte newBytearray index
  | .set _ => throw (SetKind.mutable.subscriptFault index)
  | .frozenset _ => throw (SetKind.frozen.subscriptFault index)
  | .dict ref =>
    match ← ofExcept (store.lookup? (store.table ref) index) with
    | .some value => return value
    | .none => throw (.missingKey (store.repr index))
  | .hostObject ref =>
    match (store.record ref).find? fun field => index.text? == some field.1 with
    | .some field => return field.2
    | .none => throw (.missingKey (store.repr index))
  | _ => throw (.notSubscriptable container.kind)

end Value
end ObjectModel
