import ObjectModel.Sequence
import ObjectModel.Store.Keys

/-!
# Membership

The test whether an item is in a value. Lists search with strict equality, tuples with loose
equality, sets and maps by key, texts and byte strings for a part of themselves, and host objects
for the name of a field.
-/

namespace ObjectModel
namespace Store

/-- Whether an item is in a string of bytes: as one byte if it is an integer, and otherwise as a
string of bytes. -/
def bytesContain (store : Store) (bytes : List UInt8) (item : Value) : Except Fault Bool :=
  match item with
  | .int _ | .bool _ => do
    let byte ← Sequence.byte? item
    return bytes.contains byte
  | _ =>
    match store.bytes? item with
    | some part => .ok (Sequence.isInfix part bytes)
    | none => .error (.bytesRequired item.kind)

/-- Whether `item` is in `container`. -/
def contains (store : Store) (container item : Value) : Except Fault Bool :=
  match container with
  | .list ref => .ok ((store.list ref).any (store.strictEquals · item))
  | .set ref | .frozenset ref | .dict ref => store.hasKey (store.table ref) item
  | .tuple ref => .ok ((store.tuple ref).any (store.equals · item))
  | .str text =>
    match item with
    | .str part => .ok (Sequence.isInfix part.toList text.toList)
    | _ => .error (.soughtInText item.kind)
  | .bytes bytes => store.bytesContain bytes item
  | .bytearray ref => store.bytesContain (store.buffer ref) item
  | .hostObject ref =>
    .ok ((store.record ref).any fun field => item.text? == some field.1)
  | _ => .error (.notSearchable container.kind)

end Store
end ObjectModel
