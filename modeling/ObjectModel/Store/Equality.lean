import ObjectModel.Store.Hash

/-!
# Equality of values

There are two equalities. Loose equality relates numbers of all kinds, and the two sorts of byte
strings; keys of tables are matched by it. Strict equality relates values of the same kind only, and
treats two references to the same object as equal without looking inside; items of lists are matched
by it. Both relate sets that have the same elements and maps that have the same entries, where
elements and keys are looked up.
-/

namespace ObjectModel

/-- The two equalities. -/
inductive Equality where
  /-- Relates numbers across kinds. -/
  | loose
  /-- Relates values of one kind. -/
  | strict
  deriving DecidableEq, Repr

/-- Whether two lists have the same length and related items at each position. -/
def pointwise {α : Type} (related : α → α → Bool) : List α → List α → Bool
  | [], [] => true
  | a :: as, b :: bs => related a b && pointwise related as bs
  | _, _ => false

namespace Store

/-- The entry of a table for a key, where `equal` matches a stored key with the key sought. -/
def entryFor? (store : Store) (equal : Value → Value → Bool) (table : Table Value Value)
    (key : Value) : Except Fault (Option (Entry Value Value)) := do
  let hash ← store.hash key
  return table.get? hash (equal · key)

/-- Whether two sets have the same number of elements, and the second has every element of the
first. -/
def sameElements (store : Store) (equal : Value → Value → Bool) (left right : Ref) : Bool :=
  left == right ||
    ((store.table left).size == (store.table right).size &&
      (store.elements left).all fun item =>
        match store.entryFor? equal (store.table right) item with
        | .ok (some _) => true
        | _ => false)

/-- Whether two maps have the same number of entries, and the second has an equal value for every
key of the first. -/
def sameEntries (store : Store) (equal : Value → Value → Bool) (left right : Ref) : Bool :=
  left == right ||
    ((store.table left).size == (store.table right).size &&
      (store.table left).entries.all fun entry =>
        match store.entryFor? equal (store.table right) entry.key with
        | .ok (some found) => equal entry.value found.value
        | _ => false)

/-- Strict equality, given both equalities of the values inside. -/
def strictStep (store : Store) (equal : Equality → Value → Value → Bool) : Value → Value → Bool
  | .float x, .float y => x.equals y
  | .complex a b, .complex c d => a.equals c && b.equals d
  | .bytearray a, .bytearray b => a == b || store.buffer a == store.buffer b
  | .tuple a, .tuple b => a == b || pointwise (equal .strict) (store.tuple a) (store.tuple b)
  | .list a, .list b => a == b || pointwise (equal .strict) (store.list a) (store.list b)
  | .set a, .set b | .set a, .frozenset b | .frozenset a, .set b | .frozenset a, .frozenset b =>
    store.sameElements (equal .loose) a b
  | .dict a, .dict b => store.sameEntries (equal .loose) a b
  | .hostObject a, .hostObject b =>
    a == b || pointwise (fun x y => x.1 == y.1 && equal .strict x.2 y.2) (store.record a)
      (store.record b)
  | left, right => left == right

/-- Loose equality, given both equalities of the values inside. -/
def looseStep (store : Store) (equal : Equality → Value → Value → Bool) (left right : Value) :
    Bool :=
  match left.number?, right.number? with
  | some x, some y => x.equals y
  | _, _ =>
    match store.bytes? left, store.bytes? right with
    | some a, some b => a == b
    | _, _ =>
      match left, right with
      | .tuple a, .tuple b => pointwise (equal .loose) (store.tuple a) (store.tuple b)
      | _, _ => store.strictStep equal left right

/-- Equality of values that nest to less than the given depth. -/
def equalWithin (store : Store) : Nat → Equality → Value → Value → Bool
  | 0, _, _, _ => false
  | depth + 1, .loose, left, right => store.looseStep (equalWithin store depth) left right
  | depth + 1, .strict, left, right => store.strictStep (equalWithin store depth) left right

/-- Loose equality. -/
def equals (store : Store) (left right : Value) : Bool :=
  store.equalWithin store.depth .loose left right

/-- Strict equality. -/
def strictEquals (store : Store) (left right : Value) : Bool :=
  store.equalWithin store.depth .strict left right

end Store
end ObjectModel
