import ObjectModel.Proofs.Order
import ObjectModel.Proofs.Store.Copies
import ObjectModel.Proofs.Store.Frame

/-!
# Comparisons with swapped operands

Less and greater, and at most and at least, are the same operators with the operands swapped: they
fail for the same pairs of values and hold for the same pairs. The operators look at the kind of
their left operand only and have several notions of equality, which find the first items that
differ. These agree among acyclic values, so that both directions find the same items.
-/

namespace ObjectModel

/-- Swapped lists have the same first difference, swapped. -/
theorem firstDifference?_swap {α : Type} {differ : α → α → Bool} {left right : List α}
    (symm : ∀ x ∈ left, ∀ y ∈ right, differ y x = differ x y) :
    firstDifference? differ right left = (firstDifference? differ left right).map Prod.swap := by
  induction left generalizing right with
  | nil => cases right <;> rfl
  | cons a as induction =>
      cases right with
      | nil => rfl
      | cons b bs =>
          have rest : ∀ x ∈ as, ∀ y ∈ bs, differ y x = differ x y := fun x member y member_right =>
            symm x (List.mem_cons_of_mem a member) y (List.mem_cons_of_mem b member_right)
          rw [firstDifference?, firstDifference?,
            symm a List.mem_cons_self b List.mem_cons_self, induction rest]
          cases differ a b <;> rfl

theorem mem_of_firstDifference? {α : Type} {differ : α → α → Bool} {left right : List α} {a b : α}
    (found : firstDifference? differ left right = some (a, b)) : a ∈ left ∧ b ∈ right := by
  induction left generalizing right with
  | nil => cases right <;> contradiction
  | cons x xs induction =>
      cases right with
      | nil => contradiction
      | cons y ys =>
          rw [firstDifference?] at found
          split at found
          · obtain ⟨rfl, rfl⟩ := Prod.mk.inj (Option.some.inj found)
            exact ⟨List.mem_cons_self, List.mem_cons_self⟩
          · obtain ⟨member, member_right⟩ := induction found
            exact ⟨List.mem_cons_of_mem x member, List.mem_cons_of_mem y member_right⟩

namespace Number

/-- The order of swapped numbers is swapped. -/
theorem compare?_swap (left right : Number) :
    right.compare? left = (left.compare? right).map Ordering.swap := by
  have of_floats : ∀ x y : Float64, y.compare? x = (x.compare? y).map Ordering.swap := by
    intro x y
    rw [Float64.compare?, Float64.compare?, Bool.or_comm]
    split
    · rfl
    · exact congrArg some Std.OrientedOrd.eq_swap
  cases left with
  | int m =>
      cases right with
      | int n => exact congrArg some Std.OrientedOrd.eq_swap
      | _ => exact of_floats _ _
  | _ => cases right <;> exact of_floats _ _

end Number

namespace Store

open Value

variable {store : Store} {left right : Value}

/-! ## One equality among acyclic values -/

theorem equals_comm (sound : store.Sound) (left right : Value) :
    store.equals left right = store.equals right left :=
  have symm := (lawfulEquality_of_sound sound).symm
  Bool.eq_iff_iff.mpr ⟨symm left right, symm right left⟩

/-- The equality operator holds of two acyclic values if they are equal. -/
theorem operatorEquals_eq_equals (sound : store.Sound) (acyclic : Acyclic store.contents left)
    (acyclic_right : Acyclic store.contents right) :
    store.operatorEquals left right = store.equals left right := by
  -- the operator allows the elements of sets one level more, which acyclic ones do not need
  have sets : ∀ a b, tableContents (store.table a) = store.contents left →
      tableContents (store.table b) = store.contents right →
      store.sameElements store.equals a b =
        store.sameElements (store.equalWithin store.size .loose) a b := by
    intro a b same same_right
    have nests := nestsWithin_succ_iff.mp (nestsWithin_depth acyclic)
    have nests_right := nestsWithin_succ_iff.mp (nestsWithin_depth acyclic_right)
    apply sameElements_congr rfl rfl fun _ _ => rfl
    intro x of_left y of_right
    have member : x ∈ store.contents left := same ▸ List.mem_append_left _ of_left
    have member_right : y ∈ store.contents right := same_right ▸ List.mem_append_left _ of_right
    have x_same := Unchanged.refl (acyclic.of_reaches (.single member))
    have y_same := Unchanged.refl (acyclic_right.of_reaches (.single member_right))
    have size_le : store.size ≤ store.depth := Nat.le_succ _
    exact equalWithin_eq_of_unchanged y_same x_same le_rfl (nests_right y member_right)
      (nests x member) le_rfl size_le .loose
  cases left with
  | list a =>
      cases right with
      | list b => exact equals_comm sound (.list b) (.list a)
      | _ => rfl
  | set a => cases right <;> first | rfl | exact sets a _ rfl rfl
  | frozenset a => cases right <;> first | rfl | exact sets a _ rfl rfl
  | _ => rfl

theorem operatorEquals_comm (sound : store.Sound) (acyclic : Acyclic store.contents left)
    (acyclic_right : Acyclic store.contents right) :
    store.operatorEquals left right = store.operatorEquals right left := by
  rw [operatorEquals_eq_equals sound acyclic acyclic_right, equals_comm sound,
    operatorEquals_eq_equals sound acyclic_right acyclic]

/-! ## Orders -/

/-- Two comparisons that hold together, and fail together with any faults. -/
def Mirrors (result mirrored : Except Fault Bool) : Prop :=
  ∀ holds, result = .ok holds ↔ mirrored = .ok holds

theorem mirrors_ok {holds mirrored : Bool} (same : mirrored = holds) :
    Mirrors (.ok holds) (.ok mirrored) := by
  intro result
  rw [same]

theorem mirrors_error (fault mirrored : Fault) : Mirrors (.error fault) (.error mirrored) :=
  fun _ => iff_of_false nofun nofun

theorem mirrors_compare {α : Type} [Ord α] [Std.OrientedOrd α] (op : Comparison) (a b : α) :
    Mirrors (.ok (op.accepts (Ord.compare a b))) (.ok (op.swap.accepts (Ord.compare b a))) := by
  apply mirrors_ok
  rw [Std.OrientedOrd.eq_swap, Comparison.accepts_swap]

theorem mirrors_numbers {x y : Number} {depth : Nat} (op : Comparison)
    (is_number : left.number? = some x) (other_number : right.number? = some y) :
    Mirrors (store.orderWithin (depth + 1) op left right)
      (store.orderWithin (depth + 1) op.swap right left) := by
  rw [orderWithin_of_number? is_number other_number, orderWithin_of_number? other_number is_number,
    Bool.or_comm y.isComplex]
  split
  · exact mirrors_error _ _
  · apply mirrors_ok
    rw [Number.compare?_swap, Option.any_map]
    congr 1
    exact funext op.accepts_swap

theorem mirrors_compareItems {orders mirrored : Value → Value → Except Fault Bool}
    {differ : Value → Value → Bool} (op : Comparison) {left right : List Value}
    (items : ∀ x ∈ left, ∀ y ∈ right, Mirrors (orders x y) (mirrored y x))
    (symm : ∀ x ∈ left, ∀ y ∈ right, differ y x = differ x y) :
    Mirrors (compareItems orders differ op left right)
      (compareItems mirrored differ op.swap right left) := by
  rw [compareItems, compareItems, firstDifference?_swap symm]
  cases found : firstDifference? differ left right with
  | none => exact mirrors_compare op left.length right.length
  | some pair =>
      obtain ⟨member, member_right⟩ := mem_of_firstDifference? found
      exact items pair.1 member pair.2 member_right

theorem mirrors_orderWithin (sound : store.Sound) (depth : Nat) (op : Comparison)
    (acyclic : Acyclic store.contents left) (acyclic_right : Acyclic store.contents right) :
    Mirrors (store.orderWithin depth op left right)
      (store.orderWithin depth op.swap right left) := by
  induction depth generalizing left right with
  | zero => exact mirrors_error _ _
  | succ depth induction =>
      have items : ∀ x ∈ store.contents left, ∀ y ∈ store.contents right,
          Mirrors (store.orderWithin depth op x y) (store.orderWithin depth op.swap y x) :=
        fun x member y member_right => induction (acyclic.of_reaches (.single member))
          (acyclic_right.of_reaches (.single member_right))
      cases left <;> cases right <;> try exact mirrors_error _ _
      case list.list a b =>
        refine mirrors_compareItems op items fun x member y member_right => ?_
        rw [operatorEquals_comm sound (acyclic_right.of_reaches (.single member_right))
          (acyclic.of_reaches (.single member))]
      case tuple.tuple a b =>
        refine mirrors_compareItems op items fun x member y member_right => ?_
        rw [equals_comm sound]
      all_goals first | exact mirrors_compare op _ _ | exact mirrors_numbers op rfl rfl

/-- What the comparison operators owe to each other on two values, in both directions. -/
structure ComparesDually (store : Store) (left right : Value) : Prop where
  /-- Less is greater of the swapped operands. -/
  lt_iff_gt : ∀ holds, store.compare .lt left right = .ok holds ↔
    store.compare .gt right left = .ok holds
  /-- At most is at least of the swapped operands. -/
  le_iff_ge : ∀ holds, store.compare .le left right = .ok holds ↔
    store.compare .ge right left = .ok holds
  /-- The equality operator never fails and is loose equality. -/
  eq_eq : store.compare .eq left right = .ok (store.equals left right)
  /-- The inequality operator never fails and is its negation. -/
  ne_eq : store.compare .ne left right = .ok !store.equals left right

/-- In a store of tables with stable keys the operators are dual among all acyclic values. -/
theorem comparesDually_of_acyclic (sound : store.Sound) (acyclic : Acyclic store.contents left)
    (acyclic_right : Acyclic store.contents right) : store.ComparesDually left right where
  lt_iff_gt := mirrors_orderWithin sound store.depth .lt acyclic acyclic_right
  le_iff_ge := mirrors_orderWithin sound store.depth .le acyclic acyclic_right
  eq_eq := by rw [compare, operatorEquals_eq_equals sound acyclic acyclic_right]
  ne_eq := by rw [compare, operatorEquals_eq_equals sound acyclic acyclic_right]

/-- Two lists that share no object. Their first items are tuples of equal sets, in different orders,
and of byte arrays, the first items that differ. Their second items have no order. -/
def ranked : Store where
  buffers := ⟨#[[7], [8]]⟩
  tuples := ⟨#[[.frozenset ⟨0⟩, .bytearray ⟨0⟩], [.frozenset ⟨1⟩, .bytearray ⟨1⟩]]⟩
  lists := ⟨#[[.tuple ⟨0⟩, .none], [.tuple ⟨1⟩, .int 3]]⟩
  tables := ⟨#[
    ((∅ : Table Value Value).push ⟨hashOfInt 1, .int 1, .int 1⟩).push ⟨hashOfInt 2, .int 2, .int 2⟩,
    ((∅ : Table Value Value).push ⟨hashOfInt 2, .int 2, .int 2⟩).push
      ⟨hashOfInt 1, .int 1, .int 1⟩]⟩

theorem sound_ranked : ranked.Sound := by
  rintro ⟨index⟩
  match index with
  | 0 => exact (Builds.empty.push rfl (by cbv) _).push rfl (by cbv) _
  | 1 => exact (Builds.empty.push rfl (by cbv) _).push rfl (by cbv) _
  | index + 2 => exact .empty

theorem comparesDually_of_acyclic_ranked :
    ranked.Sound ∧ Acyclic ranked.contents (.list ⟨0⟩) ∧ Acyclic ranked.contents (.list ⟨1⟩) ∧
      ranked.compare .lt (.list ⟨0⟩) (.list ⟨1⟩) = .ok true ∧
        ranked.compare .gt (.list ⟨1⟩) (.list ⟨0⟩) = .ok true := by
  have nests : nestsWithin ranked.contents 4 (.list ⟨0⟩) := by decide
  have nests_right : nestsWithin ranked.contents 4 (.list ⟨1⟩) := by decide
  have acyclic := acyclic_of_nestsWithin nests
  have acyclic_right := acyclic_of_nestsWithin nests_right
  have dual := comparesDually_of_acyclic sound_ranked acyclic acyclic_right
  have less : ranked.compare .lt (.list ⟨0⟩) (.list ⟨1⟩) = .ok true := by cbv
  exact ⟨sound_ranked, acyclic, acyclic_right, less, (dual.lt_iff_gt true).mp less⟩

end Store
end ObjectModel
