import ObjectModel.Proofs.Float64.Place
import ObjectModel.Proofs.Number
import ObjectModel.Proofs.Store.Soundness
import ObjectModel.Store.Order

/-!
# The order of numbers

Equality of numbers is exact, and their order rounds integers. They agree on all pairs but those of
an integer and a floating-point number that it rounds to without being equal to it: there neither
less nor equal nor greater holds, while both at most and at least do. Among numbers without such a
pair the order is total, transitive and consistent with equality.
-/

namespace ObjectModel

namespace Number

/-- Whether the number has a place in the order. -/
def isReal : Number → Bool
  | int _ => true
  | float x => !x.isNaN
  | complex .. => false

/-- The place of a number in the order of exact values. -/
def place : Number → WithBot (WithTop Int)
  | int n => Float64.placeOfInt n
  | float x | complex x _ => x.place

/-- Whether one of two numbers is an integer that rounds to the other one and differs from it. -/
def confuses : Number → Number → Bool
  | int n, float x | float x, int n => (Float64.ofInt n).equals x && x.toInt? != some n
  | _, _ => false

theorem confuses_comm (left right : Number) : left.confuses right = right.confuses left := by
  cases left <;> cases right <;> rfl

theorem confuses_int_float {n : Int} {x : Float64} (number : x.isNaN = false) :
    (int n).confuses (float x) ↔
      (Float64.ofInt n).key = x.key ∧ Float64.placeOfInt n ≠ x.place := by
  rw [confuses, Bool.and_eq_true, Float64.equals_iff, bne_iff_ne, Ne, ← Float64.placeOfInt_eq_iff]
  simp [Float64.isNaN_ofInt, number]

/-- Real numbers are equal if they have the same place. -/
theorem equals_iff_place {left right : Number} (real : left.isReal) (real_right : right.isReal) :
    left.equals right ↔ left.place = right.place := by
  cases left with
  | complex a b => contradiction
  | int m =>
      cases right with
      | complex c d => contradiction
      | int n => simp [equals, realEquals, place, Float64.placeOfInt_strictMono.injective.eq_iff]
      | float y => simp [equals, realEquals, place, Float64.placeOfInt_eq_iff]
  | float x =>
      cases right with
      | complex c d => contradiction
      | int n =>
          simp [equals, realEquals, place, eq_comm (a := Float64.place x),
            Float64.placeOfInt_eq_iff]
      | float y =>
          rw [isReal, Bool.not_eq_true'] at real real_right
          have order := Float64.cmp_place real real_right
          rw [← cmp_eq_compare] at order
          change x.equals y ↔ x.place = y.place
          rw [Float64.equals_iff, ← cmp_eq_eq_iff x.place, order, cmp_eq_eq_iff]
          simp [real, real_right]

theorem place_ne_of_confuses {left right : Number} (real : left.isReal) (real_right : right.isReal)
    (confused : left.confuses right) : left.place ≠ right.place := by
  cases left with
  | complex a b => contradiction
  | int m =>
      cases right with
      | complex c d => contradiction
      | int n => contradiction
      | float y =>
          rw [isReal, Bool.not_eq_true'] at real_right
          exact ((confuses_int_float real_right).mp confused).2
  | float x =>
      rw [isReal, Bool.not_eq_true'] at real
      cases right with
      | complex c d => contradiction
      | int n =>
          rw [confuses_comm] at confused
          exact ((confuses_int_float real).mp confused).2.symm
      | float y => contradiction

/-- The order of two real numbers is the order of their places, except that it takes an integer for
the number that it rounds to. -/
theorem compare?_eq {left right : Number} (real : left.isReal) (real_right : right.isReal) :
    left.compare? right =
      some (if left.confuses right then .eq else cmp left.place right.place) := by
  have mixed : ∀ {n : Int} {x : Float64}, x.isNaN = false →
      Ord.compare (Float64.ofInt n).key x.key =
        if (int n).confuses (float x) then .eq else cmp (Float64.placeOfInt n) x.place := by
    intro n x number
    split <;> rename_i confused
    · rw [((confuses_int_float number).mp confused).1, ← cmp_eq_compare, cmp_self_eq_eq]
    · have not_rounded := mt (confuses_int_float number).mpr confused
      exact (Float64.compare_ofInt number).resolve_right not_rounded
  cases left with
  | complex a b => contradiction
  | int m =>
      cases right with
      | complex c d => contradiction
      | int n =>
          change some (Ord.compare m n) = some (cmp (Float64.placeOfInt m) (Float64.placeOfInt n))
          rw [Float64.placeOfInt_strictMono.cmp_map_eq, cmp_eq_compare]
      | float y =>
          rw [isReal, Bool.not_eq_true'] at real_right
          change (Float64.ofInt m).compare? y = _
          rw [Float64.compare?_eq (Float64.isNaN_ofInt m) real_right, mixed real_right]
          rfl
  | float x =>
      rw [isReal, Bool.not_eq_true'] at real
      cases right with
      | complex c d => contradiction
      | int n =>
          change x.compare? (Float64.ofInt n) = _
          rw [Float64.compare?_eq real (Float64.isNaN_ofInt n), Std.OrientedOrd.eq_swap, mixed real,
            confuses_comm, place, place]
          split
          · rfl
          · rw [cmp_swap]
      | float y =>
          rw [isReal, Bool.not_eq_true'] at real_right
          change x.compare? y = some (cmp x.place y.place)
          rw [Float64.compare?_eq real real_right, Float64.cmp_place real real_right]

end Number

namespace Comparison

/-- Of less, equal and greater an order satisfies exactly one. -/
theorem existsUnique_accepts (order : Ordering) :
    ∃! op, op ∈ [Comparison.lt, .eq, .gt] ∧ op.accepts order := by
  cases order with
  | lt => exact ⟨.lt, by decide, fun op => by cases op <;> decide⟩
  | eq => exact ⟨.eq, by decide, fun op => by cases op <;> decide⟩
  | gt => exact ⟨.gt, by decide, fun op => by cases op <;> decide⟩

theorem accepts_le_cmp {α : Type} [LinearOrder α] (left right : α) :
    Comparison.le.accepts (cmp left right) ↔ left ≤ right := by
  rw [accepts, bne_iff_ne, Ne, cmp_eq_gt_iff, not_lt]

end Comparison

namespace Value

/-- Whether the value is a number with a place in the order: a truth value, an integer, or a
floating-point number other than those that are no number. -/
def isReal (value : Value) : Bool :=
  value.number?.any Number.isReal

/-- Whether one of two values is an integer that rounds to the other one and differs from it. -/
def confuses (left right : Value) : Bool :=
  match left.number?, right.number? with
  | some x, some y => x.confuses y
  | _, _ => false

end Value

namespace Store

/-- What the comparison operators owe to each other on three numbers. -/
structure OrdersConsistently (store : Store) (a b c : Value) : Prop where
  /-- Exactly one of less, equal and greater holds. -/
  trichotomy : ∃! op, op ∈ [Comparison.lt, .eq, .gt] ∧ store.compare op a b = .ok true
  /-- At most is less or equal. -/
  le_iff : store.compare .le a b = .ok true ↔
    store.compare .lt a b = .ok true ∨ store.compare .eq a b = .ok true
  /-- At least is greater or equal. -/
  ge_iff : store.compare .ge a b = .ok true ↔
    store.compare .gt a b = .ok true ∨ store.compare .eq a b = .ok true
  /-- At most is transitive. -/
  trans : store.compare .le a b = .ok true → store.compare .le b c = .ok true →
    store.compare .le a c = .ok true

variable {store : Store} {a b c : Value} {x y : Number}

theorem exists_number_of_isReal (real : a.isReal) : ∃ x, a.number? = some x ∧ x.isReal := by
  rwa [Value.isReal, Option.any_eq_true] at real

theorem operatorEquals_of_number? (is_number : a.number? = some x)
    (other_number : b.number? = some y) : store.operatorEquals a b = x.equals y := by
  rw [← equals_of_number? store is_number other_number]
  cases a <;> first | rfl | contradiction

theorem orderWithin_of_number? {depth : Nat} {op : Comparison} (is_number : a.number? = some x)
    (other_number : b.number? = some y) :
    store.orderWithin (depth + 1) op a b =
      if x.isComplex || y.isComplex then .error (.unorderable op a.kind b.kind)
      else .ok ((x.compare? y).any op.accepts) := by
  cases a <;> first | contradiction | (cases b <;> first | contradiction | skip)
  all_goals
    obtain rfl := Option.some.inj is_number
    obtain rfl := Option.some.inj other_number
    rfl

theorem orderWithin_of_isReal {depth : Nat} {op : Comparison} (is_number : a.number? = some x)
    (other_number : b.number? = some y) (real : x.isReal) (real_right : y.isReal) :
    store.orderWithin (depth + 1) op a b = .ok ((x.compare? y).any op.accepts) := by
  have not_complex : (x.isComplex || y.isComplex) = false := by
    cases x <;> cases y <;> first | rfl | contradiction
  rw [orderWithin_of_number? is_number other_number, not_complex]
  rfl

theorem ordering_of_isReal {op : Comparison} (needs_order : op.needsOrder)
    (is_number : a.number? = some x) (other_number : b.number? = some y) (real : x.isReal)
    (real_right : y.isReal) :
    store.compare op a b =
      .ok (op.accepts (if x.confuses y then .eq else cmp x.place y.place)) := by
  have step : store.compare op a b = store.orderWithin store.depth op a b := by
    cases op <;> first | rfl | contradiction
  rw [step, depth, orderWithin_of_isReal is_number other_number real real_right,
    Number.compare?_eq real real_right]
  rfl

theorem equality_of_isReal (is_number : a.number? = some x) (other_number : b.number? = some y)
    (real : x.isReal) (real_right : y.isReal) :
    store.compare .eq a b = .ok (decide (x.place = y.place)) := by
  have same : x.equals y = decide (x.place = y.place) := by
    rw [Bool.eq_iff_iff, Number.equals_iff_place real real_right, decide_eq_true_eq]
  rw [compare, operatorEquals_of_number? is_number other_number, same]

/-- Without a confusion the operators test the order of the places. -/
theorem compare_iff_accepts (is_number : a.number? = some x) (other_number : b.number? = some y)
    (real : x.isReal) (real_right : y.isReal) (clear : x.confuses y = false) {op : Comparison}
    (not_ne : op ≠ .ne) :
    store.compare op a b = .ok true ↔ op.accepts (cmp x.place y.place) := by
  by_cases needs_order : op.needsOrder
  · rw [ordering_of_isReal needs_order is_number other_number real real_right, clear,
      if_neg Bool.false_ne_true, Except.ok.injEq]
  · obtain rfl : op = .eq := by cases op <;> first | rfl | contradiction
    rw [equality_of_isReal is_number other_number real real_right, Except.ok.injEq,
      decide_eq_true_eq, Comparison.accepts, beq_iff_eq, cmp_eq_eq_iff]

/-- With a confusion none of less, equal and greater holds. -/
theorem compare_ne_true_of_confuses (is_number : a.number? = some x)
    (other_number : b.number? = some y) (real : x.isReal) (real_right : y.isReal)
    (confused : x.confuses y) {op : Comparison} (member : op ∈ [Comparison.lt, .eq, .gt]) :
    store.compare op a b ≠ .ok true := by
  have apart : x.place ≠ y.place := Number.place_ne_of_confuses real real_right confused
  have ordering : ∀ {op : Comparison}, op.needsOrder →
      store.compare op a b = .ok (op.accepts .eq) := by
    intro op needs_order
    rw [ordering_of_isReal needs_order is_number other_number real real_right, if_pos confused]
  simp only [List.mem_cons, List.not_mem_nil, or_false] at member
  rcases member with rfl | rfl | rfl
  · rw [ordering rfl]
    decide
  · rw [equality_of_isReal is_number other_number real real_right, decide_eq_false apart]
    decide
  · rw [ordering rfl]
    decide

theorem ordersConsistently_of_clear (real : a.isReal) (real_middle : b.isReal)
    (real_right : c.isReal) (clear : a.confuses b = false) (clear_right : b.confuses c = false)
    (clear_ends : a.confuses c = false) : store.OrdersConsistently a b c := by
  obtain ⟨x, a_number, x_real⟩ := exists_number_of_isReal real
  obtain ⟨y, b_number, y_real⟩ := exists_number_of_isReal real_middle
  obtain ⟨z, c_number, z_real⟩ := exists_number_of_isReal real_right
  rw [Value.confuses, a_number, b_number] at clear
  rw [Value.confuses, b_number, c_number] at clear_right
  rw [Value.confuses, a_number, c_number] at clear_ends
  have first : ∀ {op : Comparison}, op ≠ .ne →
      (store.compare op a b = .ok true ↔ op.accepts (cmp x.place y.place)) :=
    compare_iff_accepts a_number b_number x_real y_real clear
  constructor
  · obtain ⟨op, ⟨member, accepted⟩, unique⟩ :=
      Comparison.existsUnique_accepts (cmp x.place y.place)
    have not_ne : ∀ op ∈ [Comparison.lt, .eq, .gt], op ≠ .ne := by decide
    refine ⟨op, ⟨member, (first (not_ne op member)).mpr accepted⟩, ?_⟩
    rintro other ⟨other_member, holds⟩
    exact unique other ⟨other_member, (first (not_ne other other_member)).mp holds⟩
  · rw [first (by decide), first (by decide), first (by decide)]
    cases cmp x.place y.place <;> decide
  · rw [first (by decide), first (by decide), first (by decide)]
    cases cmp x.place y.place <;> decide
  · rw [first (by decide),
      compare_iff_accepts b_number c_number y_real z_real clear_right (by decide),
      compare_iff_accepts a_number c_number x_real z_real clear_ends (by decide),
      Comparison.accepts_le_cmp, Comparison.accepts_le_cmp, Comparison.accepts_le_cmp]
    exact le_trans

/-- The comparison operators are consistent among some numbers if and only if none of these is an
integer that rounds to another one and differs from it. -/
theorem ordersConsistently_iff_clear (store : Store) {values : Set Value}
    (real : ∀ value ∈ values, value.isReal) :
    (∀ a ∈ values, ∀ b ∈ values, ∀ c ∈ values, store.OrdersConsistently a b c) ↔
      ∀ a ∈ values, ∀ b ∈ values, a.confuses b = false := by
  constructor
  · intro consistent a a_member b b_member
    by_contra confused
    obtain ⟨x, a_number, x_real⟩ := exists_number_of_isReal (real a a_member)
    obtain ⟨y, b_number, y_real⟩ := exists_number_of_isReal (real b b_member)
    rw [Bool.not_eq_false, Value.confuses, a_number, b_number] at confused
    obtain ⟨op, ⟨member, holds⟩, -⟩ := (consistent a a_member b b_member b b_member).trichotomy
    exact compare_ne_true_of_confuses a_number b_number x_real y_real confused member holds
  · intro clear a a_member b b_member c c_member
    exact ordersConsistently_of_clear (real a a_member) (real b b_member) (real c c_member)
      (clear a a_member b b_member) (clear b b_member c c_member) (clear a a_member c c_member)

/-- Above 2 ^ 53 an integer that is a floating-point number keeps its place beside that number. -/
theorem ordersConsistently_iff_clear_three :
    (∀ value ∈ ({.bool true, .int (2 ^ 53), .float ⟨0x4340000000000000⟩} : Set Value),
      value.isReal) ∧
    ∀ a ∈ ({.bool true, .int (2 ^ 53), .float ⟨0x4340000000000000⟩} : Set Value),
    ∀ b ∈ ({.bool true, .int (2 ^ 53), .float ⟨0x4340000000000000⟩} : Set Value),
    ∀ c ∈ ({.bool true, .int (2 ^ 53), .float ⟨0x4340000000000000⟩} : Set Value),
      ({} : Store).OrdersConsistently a b c := by
  have real : ∀ value ∈ ({.bool true, .int (2 ^ 53), .float ⟨0x4340000000000000⟩} : Set Value),
      value.isReal := by
    rintro value (rfl | rfl | rfl) <;> decide
  refine ⟨real, (ordersConsistently_iff_clear {} real).mpr ?_⟩
  rintro a (rfl | rfl | rfl) b (rfl | rfl | rfl) <;> decide

/-- The first integer after 2 ^ 53 is no floating-point number and rounds to 2 ^ 53. It is neither
less than that number nor equal to it nor greater. -/
theorem not_ordersConsistently_of_rounding :
    ¬ ∀ (store : Store) (a b c : Value), a.isReal → b.isReal → c.isReal →
      store.OrdersConsistently a b c := by
  intro consistent
  obtain ⟨op, ⟨member, holds⟩, -⟩ := (consistent {} (.int (2 ^ 53 + 1))
    (.float ⟨0x4340000000000000⟩) (.bool true) (by decide) (by decide) (by decide)).trichotomy
  simp only [List.mem_cons, List.not_mem_nil, or_false] at member
  rcases member with rfl | rfl | rfl
  · revert holds
    decide
  · revert holds
    decide
  · revert holds
    decide

end Store
end ObjectModel
