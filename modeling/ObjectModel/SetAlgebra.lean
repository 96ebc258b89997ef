import ObjectModel.Effect
import ObjectModel.Store.Keys

/-!
# Set algebra

Difference, intersection, symmetric difference and union of sets. The elements of a result keep the
order of the left operand, and those of the right operand that are new come behind them.
-/

namespace ObjectModel

/-- The operations of set algebra. -/
inductive SetOperation where
  | difference
  | intersection
  | symmetricDifference
  | union
  deriving DecidableEq, Repr

namespace SetOperation

/-- The set operation that an operator asks for. -/
def ofOp? : BinaryOperator → Option SetOperation
  | .sub => some difference
  | .and => some intersection
  | .xor => some symmetricDifference
  | .or => some union
  | _ => none

end SetOperation

namespace Store

/-- The elements of one set whose presence in the other is as wanted. -/
def elementsWhere (store : Store) (wanted : Bool) (left right : Ref) : Except Fault (List Value) :=
  (store.elements left).filterM fun item => do
    let present ← store.hasKey (store.table right) item
    return present == wanted

/-- The elements that an operation selects from two sets; a union lists common ones twice. -/
def combineSets (store : Store) (operation : SetOperation) (left right : Ref) :
    Except Fault (List Value) :=
  match operation with
  | .difference => store.elementsWhere false left right
  | .intersection => store.elementsWhere true left right
  | .symmetricDifference => do
    let fromLeft ← store.elementsWhere false left right
    let fromRight ← store.elementsWhere false right left
    return fromLeft ++ fromRight
  | .union => return store.elements left ++ store.elements right

end Store

/-- The two kinds of set. -/
inductive SetKind where
  /-- Sets that can change. -/
  | mutable
  /-- Sets that cannot. -/
  | frozen
  deriving DecidableEq, Repr

namespace SetKind

/-- The kind of the values of this kind of set. -/
def kind : SetKind → Kind
  | mutable => .set
  | frozen => .frozenset

/-- The set of this kind with the given table. -/
def toValue : SetKind → Ref → Value
  | mutable, table => .set table
  | frozen, table => .frozenset table

end SetKind

namespace Effect

/-- Adds a set with the given elements, of which equal ones collapse into the first. -/
def newSet (sort : SetKind) (elements : List Value) : Effect Value := do
  let table ← read (·.tableOfElements elements)
  return sort.toValue (← newTable table)

/-- Puts an element into a set. -/
def addElement (ref : Ref) (element : Value) : Effect Unit := do
  let table ← read fun store => store.insertKey (store.table ref) element element
  setTable ref table

/-- Puts elements into a set one by one. The first one that cannot be an element ends this, and
those before it are in the set then. -/
def addElements (ref : Ref) (elements : List Value) : Effect Unit :=
  elements.forM (addElement ref)

/-- Takes an element out of a set. -/
def removeElement (ref : Ref) (element : Value) : Effect Unit := do
  let (_, table) ← read fun store => store.eraseKey (store.table ref) element
  setTable ref table

/-- Stores a value for a key of a map. -/
def setKey (ref : Ref) (key value : Value) : Effect Unit := do
  let table ← read fun store => store.insertKey (store.table ref) key value
  setTable ref table

end Effect

/-- The elements of a source that a set takes over, of the kinds where that needs no iterator. -/
def Store.setSource? (store : Store) : Value → Option (List Value)
  | .set ref | .frozenset ref => some (store.elements ref)
  | .list ref => some (store.list ref)
  | .tuple ref => some (store.tuple ref)
  | .str text => some (text.toList.map Value.char)
  | _ => none

/-- Puts the elements of a source into a set. -/
def Effect.updateSet (ref : Ref) (source : Value) : Effect Unit := do
  match (← Effect.getStore).setSource? source with
  | some elements => Effect.addElements ref elements
  | none => throw (.notIterable source.kind)

namespace SetKind

/-- Why an operator has no meaning between a set of this kind and another value. -/
def rejection (sort : SetKind) (op : BinaryOperator) (inplace : Bool) (other : Value) : Fault :=
  if op = .floorDiv ∧ other.kind = .complex then .floorOfComplex
  else if op = .mod ∧ other.kind = .complex then .modOfComplex
  else if op = .mul ∧ !inplace ∧ other.isOneOf KindSet.sequences then
    .repeatedByNonInt sort.kind
  else .unsupportedOperands op inplace sort.kind other.kind

/-- An operator between a set and a value: a new set of the kind of the left operand. -/
def binary (sort : SetKind) (left : Ref) (op : BinaryOperator) (other : Value) : Effect Value := do
  match other.setTable?, SetOperation.ofOp? op with
  | some right, some operation =>
    Effect.newSet sort (← Effect.read (·.combineSets operation left right))
  | _, _ => throw (sort.rejection op false other)

/-- An in-place operator between a set and a value. It yields a new set like the plain operator; a
set that can change takes up the elements of that set as well, except by an intersection. -/
def inplace (sort : SetKind) (left : Ref) (op : BinaryOperator) (other : Value) : Effect Value := do
  match other.setTable?, SetOperation.ofOp? op with
  | some right, some operation =>
    let elements ← Effect.read (·.combineSets operation left right)
    if sort = mutable ∧ operation ≠ .intersection then
      Effect.addElements left elements
    Effect.newSet sort elements
  | _, _ => throw (sort.rejection op true other)

end SetKind
end ObjectModel
