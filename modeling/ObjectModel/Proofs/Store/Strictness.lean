import ObjectModel.Proofs.Store.Copies

/-!
# Strict equality as a refinement

Values that are strictly equal are loosely equal, except that strict equality does not look into a
tuple that both sides have at one place. Loose equality does, and finds the NaN if there is one. In
a list, a set, a map or a host object both equalities ask the same of what is inside, so the tuple
matters only where nothing but tuples is around it.
-/

namespace ObjectModel

theorem Number.isNaN_eq_false_of_equals_self {number : Number} (equal : number.equals number) :
    number.isNaN = false := by
  cases number with
  | int n => rfl
  | float x => exact (Float64.equals_iff.mp equal).1
  | complex re im =>
      rw [equals, Bool.and_eq_true, Float64.equals_iff, Float64.equals_iff] at equal
      rw [isNaN, equal.1.1, equal.2.1, Bool.or_self]

namespace Store

open Value

variable {store : Store} {equal : Equality → Value → Value → Bool} {a b value nan : Value}
  {limit : Nat}

/-- At some place inside nested tuples both values have the same tuple, and that has a NaN inside
nested tuples. -/
inductive SharesNaN (store : Store) : Value → Value → Prop
  | tuple {ref : Ref} {nan : Value} (reaches : Reaches store.tupleItems (.tuple ref) nan)
      (is_nan : nan.isNaN) : SharesNaN store (.tuple ref) (.tuple ref)
  | items {a b : Ref} {x y : Value} (pair : (x, y) ∈ (store.tuple a).zip (store.tuple b))
      (shares : SharesNaN store x y) : SharesNaN store (.tuple a) (.tuple b)

/-! ## A shared NaN -/

theorem not_equalWithin_of_isNaN (is_nan : value.isNaN) :
    ¬ store.equalWithin limit .loose value value := by
  intro equals
  obtain ⟨number, is_number, number_nan⟩ := (Option.any_eq_true _ _).mp is_nan
  cases limit with
  | zero => contradiction
  | succ limit =>
      simp only [equalWithin, looseStep, is_number] at equals
      rw [Number.isNaN_eq_false_of_equals_self equals] at number_nan
      contradiction

theorem exists_items_of_tuples {a b : Ref}
    (equals : store.equalWithin limit .loose (.tuple a) (.tuple b)) :
    ∃ limit, List.Forall₂ (fun x y => store.equalWithin limit .loose x y) (store.tuple a)
      (store.tuple b) := by
  cases limit with
  | zero => contradiction
  | succ limit =>
      rw [equalWithin_succ_iff_corresponds] at equals
      cases equals with
      | tuple items => exact ⟨limit, items⟩
      | same self_equal => contradiction

theorem not_equalWithin_of_reaches (reaches : Reaches store.tupleItems value nan)
    (is_nan : nan.isNaN) : ¬ store.equalWithin limit .loose value value := by
  induction reaches using Relation.ReflTransGen.head_induction_on generalizing limit with
  | refl => exact not_equalWithin_of_isNaN is_nan
  | @head outer item member _ induction =>
      intro equals
      cases outer with
      | tuple ref =>
          obtain ⟨limit, items⟩ := exists_items_of_tuples equals
          exact induction (List.forall₂_same.mp items item member)
      | _ => contradiction

theorem not_equalWithin_of_sharesNaN (shares : store.SharesNaN a b) :
    ¬ store.equalWithin limit .loose a b := by
  induction shares generalizing limit with
  | tuple reaches is_nan => exact not_equalWithin_of_reaches reaches is_nan
  | items pair _ induction =>
      intro equals
      obtain ⟨limit, items⟩ := exists_items_of_tuples equals
      exact induction ((List.forall₂_iff_zip.mp items).2 pair)

/-! ## Values without a shared NaN -/

theorem eq_tuple_of_shape {ref : Ref} (is_tuple : store.shape value = .tuple ref) :
    value = .tuple ref := by
  cases value <;> cases is_tuple
  rfl

theorem freeOfNaN_of_not_sharesNaN {ref : Ref}
    (clear : ¬ store.SharesNaN (.tuple ref) (.tuple ref)) :
    FreeOfNaN store.tupleItems (.tuple ref) :=
  fun _ reaches => Bool.eq_false_iff.mpr fun is_nan => clear (.tuple reaches is_nan)

/-- Shapes that correspond strictly correspond loosely if the items of tuples do. -/
theorem Corresponds.loosen {left right : Shape}
    (corresponds : store.Corresponds equal .strict left right)
    (items : ∀ a b, left = .tuple a → right = .tuple b →
      ∀ x y, (x, y) ∈ (store.tuple a).zip (store.tuple b) → equal .strict x y → equal .loose x y)
    (same_items : ∀ ref, left = .tuple ref → right = .tuple ref →
      ∀ item ∈ store.tuple ref, equal .loose item item) :
    store.Corresponds equal .loose left right := by
  cases corresponds with
  | number kinds same => exact .number (by nofun) same
  | bytes kinds bytes => exact .bytes (by nofun) bytes
  | tuple strict_items =>
      obtain ⟨same_length, strict_items⟩ := List.forall₂_iff_zip.mp strict_items
      exact .tuple (List.forall₂_iff_zip.mpr
        ⟨same_length, fun pair => items _ _ rfl rfl _ _ pair (strict_items pair)⟩)
  | list same => exact .list same
  | set elements => exact .set elements
  | dict entries => exact .dict entries
  | record fields => exact .record fields
  | same self_equal =>
      cases left with
      | tuple ref => exact .tuple (List.forall₂_same.mpr (same_items ref rfl rfl))
      | _ => exact .same self_equal

theorem equalWithin_loose_of_strict (nests : nestsWithin store.tupleItems limit a)
    (strict : store.equalWithin limit .strict a b) (clear : ¬ store.SharesNaN a b) :
    store.equalWithin limit .loose a b := by
  induction limit generalizing a b with
  | zero => contradiction
  | succ limit induction =>
      rw [nestsWithin_succ_iff] at nests
      rw [equalWithin_succ_iff_corresponds] at strict ⊢
      apply strict.loosen
      · intro left right is_left is_right x y pair item_strict
        obtain rfl := eq_tuple_of_shape is_left
        obtain rfl := eq_tuple_of_shape is_right
        exact induction (nests x (List.of_mem_zip pair).1) item_strict
          fun shares => clear (.items pair shares)
      · intro ref is_left is_right item member
        obtain rfl := eq_tuple_of_shape is_left
        obtain rfl := eq_tuple_of_shape is_right
        exact equalWithin_self (nests item member)
          ((freeOfNaN_of_not_sharesNaN clear).of_mem member) le_rfl

/-- Strictly equal values are loosely equal unless they share a NaN. No tuple may be inside
itself. -/
theorem equals_iff_of_strictEquals (acyclic : Acyclic store.tupleItems a)
    (strict : store.strictEquals a b) : store.equals a b ↔ ¬ store.SharesNaN a b :=
  ⟨fun equals shares => not_equalWithin_of_sharesNaN shares equals,
    equalWithin_loose_of_strict (nestsWithin_depth_of_tupleItems acyclic) strict⟩

/-- A tuple of a NaN, and two tuples with lists that have this tuple. -/
def wrapped : Store where
  tuples := ⟨#[[.float ⟨0x7ff8000000000000⟩], [.list ⟨0⟩, .int 1], [.list ⟨1⟩, .int 1]]⟩
  lists := ⟨#[[.tuple ⟨0⟩], [.tuple ⟨0⟩]]⟩

theorem equals_iff_of_strictEquals_wrapped :
    Acyclic wrapped.tupleItems (.tuple ⟨1⟩) ∧ wrapped.strictEquals (.tuple ⟨1⟩) (.tuple ⟨2⟩) ∧
      wrapped.equals (.tuple ⟨1⟩) (.tuple ⟨2⟩) ∧ ¬ wrapped.SharesNaN (.tuple ⟨1⟩) (.tuple ⟨2⟩) := by
  have nests : nestsWithin wrapped.tupleItems 3 (.tuple ⟨1⟩) := by decide
  have acyclic : Acyclic wrapped.tupleItems (.tuple ⟨1⟩) := acyclic_of_nestsWithin nests
  have strict : wrapped.strictEquals (.tuple ⟨1⟩) (.tuple ⟨2⟩) := by decide
  have clear : ¬ wrapped.SharesNaN (.tuple ⟨1⟩) (.tuple ⟨2⟩) := by
    intro shares
    cases shares with
    | items pair shares =>
        -- there is a list and a number at the two places, and no tuple
        cases shares <;> simp [wrapped, tuple, Pool.get] at pair
  exact ⟨acyclic, strict, (equals_iff_of_strictEquals acyclic strict).mpr clear, clear⟩

/-- Values that share a NaN can be acyclic and strictly equal. -/
theorem not_forall_equals_of_strictEquals : ¬ ∀ (store : Store) (a b : Value),
    Acyclic store.contents a → Acyclic store.contents b → store.strictEquals a b →
      store.equals a b := by
  intro refines
  have nests : nestsWithin wrapped.contents 2 (.tuple ⟨0⟩) := by decide
  have acyclic : Acyclic wrapped.contents (.tuple ⟨0⟩) := acyclic_of_nestsWithin nests
  have equals := refines wrapped _ _ acyclic acyclic (by decide)
  revert equals
  decide

end Store
end ObjectModel
