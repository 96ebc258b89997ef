import ObjectModel.Store.Equality

/-!
# Comparison

Equality and order through the comparison operators. Numbers are ordered by value, texts and byte
strings lexicographically, sets by their number of elements, and lists and tuples by the first items
that differ, or else by length. All other pairs of values have no order.
-/

namespace ObjectModel

/-- The first pair of items at the same position of two lists that differ. -/
def firstDifference? {α : Type} (differ : α → α → Bool) : List α → List α → Option (α × α)
  | a :: as, b :: bs => if differ a b then some (a, b) else firstDifference? differ as bs
  | _, _ => none

namespace Store

/-- Whether the equality operator holds. It is strict between lists and loose otherwise, and a list
or a set equals nothing of another sort. -/
def operatorEquals (store : Store) (left right : Value) : Bool :=
  match left with
  | .list _ =>
    match right with
    | .list _ => store.strictEquals right left
    | _ => false
  | .set a | .frozenset a =>
    match right.setTable? with
    | some b => store.sameElements store.equals a b
    | none => false
  | _ => store.equals left right

/-- Orders two sequences by the first items that differ, or else by length. -/
def compareItems (compareItem : Value → Value → Except Fault Bool) (differ : Value → Value → Bool)
    (op : Comparison) (left right : List Value) : Except Fault Bool :=
  match firstDifference? differ left right with
  | some (a, b) => compareItem a b
  | none => .ok (op.accepts (compare left.length right.length))

/-- Whether an ordering operator holds between values that nest to less than the given depth. -/
def orderWithin (store : Store) : Nat → Comparison → Value → Value → Except Fault Bool
  | 0, _, _, _ => .error .endless
  | depth + 1, op, left, right =>
    let unorderable := Except.error (Fault.unorderable op left.kind right.kind)
    match left, right with
    | .list a, .list b =>
      compareItems (orderWithin store depth op) (fun x y => !store.operatorEquals x y) op
        (store.list a) (store.list b)
    | .tuple a, .tuple b =>
      compareItems (orderWithin store depth op) (fun x y => !store.equals x y) op
        (store.tuple a) (store.tuple b)
    | .str a, .str b => .ok (op.accepts (compare a b))
    | _, _ =>
      match left.setTable?, right.setTable? with
      | some a, some b => .ok (op.accepts (compare (store.table a).size (store.table b).size))
      | _, _ =>
        match left.number?, right.number? with
        | some x, some y =>
          if x.isComplex || y.isComplex then unorderable
          else .ok ((x.compare? y).any op.accepts)
        | _, _ =>
          match store.bytes? left, store.bytes? right with
          | some a, some b => .ok (op.accepts (compare a b))
          | _, _ => unorderable

/-- Whether a comparison operator holds. Only the ordering operators can fail. -/
def compare (store : Store) (op : Comparison) (left right : Value) : Except Fault Bool :=
  match op with
  | .eq => .ok (store.operatorEquals left right)
  | .ne => .ok (!store.operatorEquals left right)
  | _ => store.orderWithin store.depth op left right

end Store
end ObjectModel
