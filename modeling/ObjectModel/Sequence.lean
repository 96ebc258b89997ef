import ObjectModel.Store

/-!
# Sequences

Repetition of sequences and search for one sequence inside another, for items of any type.
-/

namespace ObjectModel
namespace Sequence

/-- The greatest number of bytes that a sequence may take up. -/
def maxBytes : Nat := (1 <<< 63) - 1

/-- Whether a sequence can be repeated `count` times, where its length is counted in parts of the
given size: the result is no longer than a sequence may be, and memory for it can be reserved. There
is always memory for what is no longer than the sequence itself. -/
def fits (memory : Memory) (size length count : Nat) : Bool :=
  count ≤ 1 ||
    (length * count ≤ maxBytes / max size 1 && length * count * size ≤ memory.available)

/-- How often to repeat: a truth value counts as 0 or 1, and what is negative as 0. -/
def repeatCount : Value → Except Fault Nat
  | .bool b => .ok b.toNat
  | .int n =>
    if n ≤ 0 then .ok 0
    else if n < (1 <<< 64 : Nat) then .ok n.toNat
    else .error .indexTooLarge
  | count => .error (.repeatedByNonInt count.kind)

/-- Repeats something as often as a value says. -/
def times {α : Type} (replicate : Nat → Except Fault α) (count : Value) : Except Fault α := do
  replicate (← repeatCount count)

/-- The items, `count` times over. They are kept in parts of the given size, as many as the length
says. -/
def replicate {α : Type} (memory : Memory) (size length : Nat) (items : List α) (count : Nat) :
    Except Fault (List α) :=
  if items.isEmpty || count == 0 then .ok []
  else if fits memory size length count then .ok (List.replicate count items).flatten
  else .error .sequenceTooLarge

/-- Whether the items of `part` stand next to each other somewhere in `whole`. -/
def isInfix {α : Type} [BEq α] (part whole : List α) : Bool :=
  match whole with
  | [] => part.isEmpty
  | item :: rest => part.isPrefixOf (item :: rest) || isInfix part rest

/-- The byte that an integer or a truth value is. -/
def byte? : Value → Except Fault UInt8
  | .int n => if 0 ≤ n ∧ n < 256 then .ok (UInt8.ofNat n.toNat) else .error .byteOutOfRange
  | .bool b => .ok (if b then 1 else 0)
  | item => .error (.byteNotInt item.kind)

end Sequence

namespace Store

/-- The values of a sequence, `count` times over. -/
def replicateValues (store : Store) (items : List Value) (count : Nat) :
    Except Fault (List Value) :=
  Sequence.replicate store.memory store.memory.valueSize items.length items count

/-- The bytes of a sequence, `count` times over. -/
def replicateBytes (store : Store) (bytes : List UInt8) (count : Nat) : Except Fault (List UInt8) :=
  Sequence.replicate store.memory 1 bytes.length bytes count

/-- The characters of a text, `count` times over. A text is kept in the bytes of its encoding. -/
def replicateText (store : Store) (text : String) (count : Nat) : Except Fault (List Char) :=
  Sequence.replicate store.memory 1 text.utf8ByteSize text.toList count

end Store

end ObjectModel
