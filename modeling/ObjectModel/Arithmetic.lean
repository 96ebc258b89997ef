import ObjectModel.Sequence
import ObjectModel.SetAlgebra

/-!
# Arithmetic

The binary, in-place and unary operators. Numbers add, subtract and multiply; sequences of one kind
join by `+`, and repeat by `*` with an integer on either side; sets have set algebra. An in-place
operator changes a list or a byte array and yields that same object, with few exceptions, and
elsewhere does what the plain operator does.
-/

namespace ObjectModel

open Effect

/-- Joins two sequences. -/
def concatenate (inplace : Bool) (left right : Value) : Effect Value := do
  let store ← getStore
  let unsupported := Fault.unsupportedOperands .add inplace left.kind right.kind
  match left with
  | .str a =>
    match right with
    | .str b => return .str (a ++ b)
    | _ => throw unsupported
  | .bytes a =>
    match store.bytes? right with
    | some b => return .bytes (a ++ b)
    | none => throw unsupported
  | .bytearray a =>
    match store.bytes? right with
    | some b => newBytearray (store.buffer a ++ b)
    | none => throw unsupported
  | .tuple a =>
    match right with
    | .tuple b => newTuple (store.tuple a ++ store.tuple b)
    | _ => throw (.joinedToOther .tuple right.kind)
  | _ => throw unsupported

/-- Repeats a sequence; what is none fails with the given fault. -/
def repeatSequence (notSequence : Fault) (sequence count : Value) : Effect Value := do
  let store ← getStore
  let times {α : Type} (replicate : Nat → Except Fault α) : Effect α :=
    ofExcept (Sequence.times replicate count)
  match sequence with
  | .str text => return .str (String.ofList (← times (store.replicateText text)))
  | .bytes bytes => return .bytes (← times (store.replicateBytes bytes))
  | .bytearray ref => newBytearray (← times (store.replicateBytes (store.buffer ref)))
  | .tuple ref => newTuple (← times (store.replicateValues (store.tuple ref)))
  | .list ref => newList (← times (store.replicateValues (store.list ref)))
  | _ => throw notSequence

/-- Repeats a sequence by an integer on either side. -/
def repetition (inplace : Bool) (left right : Value) : Effect Value :=
  let notSequence := Fault.unsupportedOperands .mul inplace left.kind right.kind
  if left.integer?.isSome ∧ right.isOneOf KindSet.sequences then
    repeatSequence notSequence right left
  else repeatSequence notSequence left right

/-- An operator between values other than lists and sets on the left; `inplace` has an effect on
messages only. -/
def binaryScalar (op : BinaryOperator) (inplace : Bool) (left right : Value) : Effect Value :=
  let unsupported := Fault.unsupportedOperands op inplace left.kind right.kind
  match left.number?, right.number? with
  | some x, some y =>
    match Number.Operation.ofOp? op with
    | some operation => return (x.combine operation y).toValue
    | none => throw unsupported
  | _, _ =>
    match op with
    | .add => concatenate inplace left right
    | .mul => repetition inplace left right
    | _ => throw unsupported

namespace Effect

/-- An operator with a list on the left. -/
def binaryList (ref : Ref) (op : BinaryOperator) (other : Value) : Effect Value := do
  let unsupported := Fault.unsupportedOperands op false .list other.kind
  match op with
  | .add =>
    match other with
    | .list right => newList ((← getStore).list ref ++ (← getStore).list right)
    | _ => throw (.joinedToOther .list other.kind)
  | .mul => repeatSequence unsupported (.list ref) other
  | _ => throw unsupported

/-- Puts items behind those of a list. -/
def extendList (ref : Ref) (items : List Value) : Effect Unit := do
  setList ref ((← getStore).list ref ++ items)

/-- An in-place operator with a list on the left. Addition takes lists, tuples and texts.
Multiplication by a positive integer or by truth repeats the list itself, and otherwise yields a new
empty list and leaves the old one alone. -/
def inplaceList (ref : Ref) (op : BinaryOperator) (other : Value) : Effect Value := do
  let store ← getStore
  match op with
  | .add =>
    match other with
    | .list right => extendList ref (store.list right)
    | .tuple right => extendList ref (store.tuple right)
    | .str text => extendList ref (text.toList.map Value.char)
    | _ => throw (.notIterable other.kind)
    return .list ref
  | .mul =>
    match other with
    | .bool true => return .list ref
    | .bool false => newList []
    | _ =>
      let count ← ofExcept (Sequence.repeatCount other)
      if count = 0 then newList []
      else
        setList ref (← ofExcept (store.replicateValues (store.list ref) count))
        return .list ref
  | _ => throw (.unsupportedOperands op true .list other.kind)

/-- An in-place operator with a byte array on the left. -/
def inplaceBytearray (ref : Ref) (op : BinaryOperator) (other : Value) : Effect Value := do
  let store ← getStore
  match op, store.bytes? other with
  | .add, some tail =>
    setBuffer ref (store.buffer ref ++ tail)
    return .bytearray ref
  | .mul, _ =>
    if other.isOneOf KindSet.sequences then binaryScalar op true (.bytearray ref) other
    else
      let bytes ← ofExcept (Sequence.times (store.replicateBytes (store.buffer ref)) other)
      setBuffer ref bytes
      return .bytearray ref
  | _, _ => binaryScalar op true (.bytearray ref) other

end Effect

namespace Value

/-- The value of `left op right`. -/
def binary (op : BinaryOperator) (left right : Value) : Effect Value :=
  match left with
  | .list ref => binaryList ref op right
  | .set ref => SetKind.mutable.binary ref op right
  | .frozenset ref => SetKind.frozen.binary ref op right
  | _ => binaryScalar op false left right

/-- The value of `left op= right`. -/
def inplace (op : BinaryOperator) (left right : Value) : Effect Value :=
  match left with
  | .list ref => inplaceList ref op right
  | .set ref => SetKind.mutable.inplace ref op right
  | .frozenset ref => SetKind.frozen.inplace ref op right
  | .bytearray ref => inplaceBytearray ref op right
  | _ => binaryScalar op true left right

/-- The value of `op operand`. Every value has a negation as a truth value; the other operators are
for numbers, and the complement for integers alone. -/
def unary (op : UnaryOperator) (operand : Value) : Effect Value := do
  let unsupported := Fault.unsupportedOperand op operand.kind
  match op, operand.number? with
  | .not, _ => return .bool (!(← getStore).isTruthy operand)
  | .pos, some x => return x.toValue
  | .neg, some (.int n) => return .int (-n)
  | .neg, some (.float x) => return .float x.neg
  | .neg, some (.complex re im) => return .complex re.neg im.neg
  | .invert, some (.int n) => return .int (-n - 1)
  | _, _ => throw unsupported

end Value
end ObjectModel
