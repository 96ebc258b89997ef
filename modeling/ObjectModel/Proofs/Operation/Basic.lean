import ObjectModel.Method
import ObjectModel.Store.Membership
import ObjectModel.Store.Order
import ObjectModel.Subscript

/-!
# Operations

Everything that can be asked of values, as data: the operations of the value protocol, the ways to
make values, and the operations that a host has on maps and sets. An operation has a target if there
is a value whose contents it can change, and this is always one of its operands.
-/

namespace ObjectModel

open Effect

namespace Kind

/-- The operators that change a value of the kind in place. -/
def inplaceOperators : Kind → List BinaryOperator
  | list | bytearray => [.add, .mul]
  | set => [.sub, .xor, .or]
  | _ => []

/-- The methods that change a value of the kind. -/
def changingMethods : Kind → List String
  | list => ["append", "extend", "pop", "remove"]
  | set => ["add", "remove", "update"]
  | bytearray => ["append"]
  | _ => []

end Kind

/-- An operation on values. -/
inductive Operation where
  /-- Compares two values. -/
  | compare (op : Comparison) (left right : Value)
  /-- Tests whether an item is in a container. -/
  | contains (container item : Value)
  /-- Reads off the store what it tells about values: lengths, truth, texts, hashes, elements. -/
  | observe (query : Store → Except Fault (List Value))
  /-- Applies an operator to two values. -/
  | binary (op : BinaryOperator) (left right : Value)
  /-- Applies an in-place operator. -/
  | inplace (op : BinaryOperator) (left right : Value)
  /-- Applies an operator to one value. -/
  | unary (op : UnaryOperator) (operand : Value)
  /-- Takes what a subscript selects. -/
  | subscript (container index : Value)
  /-- Asks for an iterator. -/
  | iter (source : Value)
  /-- Asks an iterator for its next element. -/
  | next (iterator : Value)
  /-- Asks an iterator for its next element, if there is one. -/
  | nextItem (iterator : Value)
  /-- Takes all elements of a source. -/
  | collect (source : Value)
  /-- Does something with each element of a source. -/
  | forEach (source : Value) (body : Context → Value → Effect Unit)
  /-- Calls a function. -/
  | call (function : Value) (frame : Frame)
  /-- Calls a method. -/
  | callMethod (receiver : Value) (name : String) (arguments : List Value)
  /-- Makes a byte array. -/
  | newBytearray (bytes : List UInt8)
  /-- Makes a tuple. -/
  | newTuple (items : List Value)
  /-- Makes a list. -/
  | newList (items : List Value)
  /-- Makes a set. -/
  | newSet (sort : SetKind) (elements : List Value)
  /-- Makes a map. -/
  | newDict (pairs : List (Value × Value))
  /-- Makes a host object. -/
  | newHostObject (fields : List (String × Value))
  /-- Makes a mapping. -/
  | newMap (function source : Value)
  /-- Makes a map of the fields of a host object. -/
  | dictOfHost (fields : List (String × Value))
  /-- Makes a list as a call of the function for lists does. -/
  | listFrom (arguments : List Value)
  /-- Makes a set as a call of the function for sets does. -/
  | setFrom (sort : SetKind) (arguments : List Value)
  /-- Stores a value for a key of a map. -/
  | setKey (table : Ref) (key value : Value)
  /-- Puts an element into a set of either kind. -/
  | addElement (sort : SetKind) (table : Ref) (element : Value)
  /-- Takes an element out of a set of either kind. -/
  | removeElement (sort : SetKind) (table : Ref) (element : Value)
  /-- Puts the elements of a source into a set of either kind. -/
  | updateSet (sort : SetKind) (table : Ref) (source : Value)

namespace Operation

/-- The value whose contents the operation can change. -/
def target? : Operation → Option Value
  | inplace op left _ => if op ∈ left.kind.inplaceOperators then some left else none
  | callMethod receiver name _ =>
    if name ∈ receiver.kind.changingMethods then some receiver else none
  | setKey table .. => some (.dict table)
  | addElement sort table _ | removeElement sort table _ | updateSet sort table _ =>
    some (sort.toValue table)
  | _ => none

/-- The values that an operation is asked about. -/
@[simp]
def operands : Operation → List Value
  | compare _ left right | binary _ left right | inplace _ left right => [left, right]
  | contains container item => [container, item]
  | observe _ | newBytearray _ => []
  | unary _ operand => [operand]
  | subscript container index => [container, index]
  | iter source | collect source | forEach source _ => [source]
  | next iterator | nextItem iterator => [iterator]
  | call function frame =>
    function :: (frame.positional.getD [] ++ frame.keywords.map (·.2))
  | callMethod receiver _ arguments => receiver :: arguments
  | newTuple items | newList items | newSet _ items => items
  | newDict pairs => pairs.flatMap fun pair => [pair.1, pair.2]
  | newHostObject fields | dictOfHost fields => fields.map (·.2)
  | newMap function source => [function, source]
  | listFrom arguments | setFrom _ arguments => arguments
  | setKey table key value => [.dict table, key, value]
  | addElement sort table element | removeElement sort table element =>
    [sort.toValue table, element]
  | updateSet sort table source => [sort.toValue table, source]

theorem target_mem_operands {operation : Operation} {target : Value}
    (targets : operation.target? = some target) : target ∈ operation.operands := by
  cases operation with
  | inplace op left right =>
      obtain ⟨-, same⟩ := Option.ite_none_right_eq_some.mp targets
      simp [Option.some.inj same]
  | callMethod receiver name arguments =>
      obtain ⟨-, same⟩ := Option.ite_none_right_eq_some.mp targets
      simp [Option.some.inj same]
  | setKey | addElement | removeElement | updateSet => simp [← Option.some.inj targets]
  | _ => contradiction

/-- Performs an operation and yields the values that it hands out. -/
def perform (context : Context) : Operation → Effect (List Value)
  | compare op left right => return [.bool (← read (·.compare op left right))]
  | contains container item => return [.bool (← read (·.contains container item))]
  | observe query => read query
  | binary op left right => return [← left.binary op right]
  | inplace op left right => return [← left.inplace op right]
  | unary op operand => return [← operand.unary op]
  | subscript container index => return [← container.subscript context.config index]
  | iter source => return [← source.iter]
  | next iterator => return [← iterator.next context]
  | nextItem iterator => return (← iterator.nextItem context).toList
  | collect source => source.collect context
  | forEach source body => do
    source.forEach context (body context)
    return []
  | call function frame => return [← function.call context frame]
  | callMethod receiver name arguments => return [← receiver.callMethod context name arguments]
  | newBytearray bytes => return [← Effect.newBytearray bytes]
  | newTuple items => return [← Effect.newTuple items]
  | newList items => return [← Effect.newList items]
  | newSet sort elements => return [← Effect.newSet sort elements]
  | newDict pairs => return [.dict (← newTable (← read (·.tableOfPairs pairs)))]
  | newHostObject fields => return [← Effect.newHostObject fields]
  | newMap function source => return [← Effect.newMap function source]
  | dictOfHost fields => return [← Effect.dictOfHost fields]
  | listFrom arguments => return [← Value.listFrom context arguments]
  | setFrom sort arguments => return [← Value.setFrom context sort arguments]
  | setKey table key value => do
    Effect.setKey table key value
    return []
  | addElement _ table element => do
    Effect.addElement table element
    return []
  | removeElement _ table element => do
    Effect.removeElement table element
    return []
  | updateSet _ table source => do
    Effect.updateSet table source
    return []

end Operation
end ObjectModel
