import ObjectModel.Digest
import ObjectModel.Number
import ObjectModel.Store

/-!
# Hashes of values

Numbers hash by their value and not by their kind, a tuple by the hashes of its items, a frozenset
by the hashes that its elements were stored under, and an iterator by its identity. What can change
has no hash, and neither has a tuple with such an item at any depth.
-/

namespace ObjectModel

open Digest

/-- The hash of a floating-point number: that of the integer it is equal to, or that of its
pattern. -/
def Float64.hash (x : Float64) : UInt64 :=
  match x.toInt? with
  | some n => tagged .number (wordsOfInt n)
  | none => tagged .number [x.bits]

namespace Store

/-- The hash of a value whose tuples nest to less than the given depth. -/
def hashWithin (store : Store) : Nat → Value → Except Fault UInt64
  | 0, _ => .error .endless
  | depth + 1, value =>
    match value with
    | .none => .ok (tagged .none [])
    | .bool b => .ok (tagged .number (wordsOfInt b.toInt))
    | .int n => .ok (tagged .number (wordsOfInt n))
    | .float x => .ok x.hash
    | .complex re im =>
      .ok (if im.isZero then re.hash else tagged .complex [re.bits, im.bits])
    | .str text => .ok (tagged .text (wordsOfText text))
    | .bytes bytes => .ok (tagged .bytes (wordsOfBytes bytes))
    | .tuple ref => do
      let words ← (store.tuple ref).mapM (hashWithin store depth)
      return tagged .tuple words
    | .frozenset ref => .ok (tagged .frozenset [(store.table ref).digest])
    | .builtin name => .ok (tagged .function (wordsOfText name))
    | .listIterator ref | .setIterator ref | .dictKeyIterator ref | .seqIterator ref | .map ref =>
      .ok (tagged .identity [UInt64.ofNat value.kind.bit, UInt64.ofNat ref.index])
    | .bytearray _ | .list _ | .set _ | .dict _ | .slice _ | .hostObject _ =>
      .error (.unhashable value.kind)

/-- The hash of a value, or the fault that the first value without one causes. -/
def hash (store : Store) (value : Value) : Except Fault UInt64 :=
  store.hashWithin store.depth value

end Store
end ObjectModel
