import ObjectModel.Arithmetic
import ObjectModel.Proofs.Outcome
import ObjectModel.Proofs.Store.Members
import ObjectModel.Proofs.Store.Stability
import ObjectModel.Store.Membership
import Mathlib

/-!
# Set algebra

An operator between two sets, of whatever kinds, adds one set to the store and changes nothing else.
What the new set has as elements is told twice: as a list, by the elements of the left operand in
their order and those of the right one that are not in the left, and as a membership test, which is
a truth table of the tests for the operands. The second follows from the first because matching keys
are in the same sets.
-/

namespace ObjectModel

theorem filterM_eq_ok {α ε : Type} {test : α → Except ε Bool} {passes : α → Bool} {items : List α}
    (agree : ∀ item ∈ items, test item = .ok (passes item)) :
    items.filterM test = .ok (items.filter passes) := by
  have collects : ∀ (items front : List α), (∀ item ∈ items, test item = .ok (passes item)) →
      List.filterAuxM test items front = .ok ((items.filter passes).reverse ++ front) := by
    intro items
    induction items with
    | nil => exact fun _ _ => rfl
    | cons item items induction =>
        intro front agree
        rw [List.forall_mem_cons] at agree
        rw [List.filterAuxM, agree.1, List.filter_cons]
        cases passed : passes item with
        | true =>
            refine (induction (item :: front) agree.2).trans ?_
            simp
        | false => exact induction front agree.2
  rw [List.filterM, collects items [] agree]
  simp [bind, Except.bind, pure, Except.pure]

/-- A value with the table of a set is a set of one of the two kinds. -/
theorem Value.exists_toValue_of_setTable? {value : Value} {ref : Ref}
    (holds : value.setTable? = some ref) : ∃ sort : SetKind, value = sort.toValue ref := by
  cases value with
  | set table => exact ⟨.mutable, congrArg Value.set (Option.some.inj holds)⟩
  | frozenset table => exact ⟨.frozen, congrArg Value.frozenset (Option.some.inj holds)⟩
  | _ => contradiction

/-- Whether an element belongs to the result, given whether it belongs to the operands. -/
def SetOperation.admits : SetOperation → Bool → Bool → Bool
  | difference, inLeft, inRight => inLeft && !inRight
  | intersection, inLeft, inRight => inLeft && inRight
  | symmetricDifference, inLeft, inRight => inLeft != inRight
  | union, inLeft, inRight => inLeft || inRight

namespace Store

/-- The elements of the result of an operation: those of the left operand that belong to it, and
those of the right operand that do and are not in the left one. -/
def selected (store : Store) (operation : SetOperation) (left right : Ref) : List Value :=
  (store.elements left).filter (fun item =>
      operation.admits true (store.includes (store.table right) item)) ++
    (store.elements right).filter fun item =>
      !store.includes (store.table left) item && operation.admits false true

variable {store : Store} {a b : Ref} {operation : SetOperation}

/-! ## Elements of the result -/

theorem elementsWhere_eq_of_isKey {left : Ref}
    (keys : ∀ item ∈ store.elements left, store.IsKey item) (wanted : Bool) (right : Ref) :
    store.elementsWhere wanted left right = .ok ((store.elements left).filter fun item =>
      store.includes (store.table right) item == wanted) := by
  apply filterM_eq_ok
  intro item member
  rw [hasKey_eq (keys item member)]
  rfl

theorem elementsWhere_eq (sound : store.Sound) (wanted : Bool) (left right : Ref) :
    store.elementsWhere wanted left right = .ok ((store.elements left).filter fun item =>
      store.includes (store.table right) item == wanted) :=
  elementsWhere_eq_of_isKey (fun _ => (sound.keyed left).isKey_of_mem) wanted right

/-- Items of one set and then items of another one make a table in which those of the second that
are matched in the first are left out. -/
theorem exists_tableOfElements (sound : store.Sound) {front back : List Value}
    (from_left : front.Sublist (store.elements a)) (from_right : back.Sublist (store.elements b)) :
    ∃ start table, store.tableOfElements (front ++ back) = .ok table ∧
      store.Keyed start ∧ start.keys = front ∧ store.Keyed table ∧
        table.keys = front ++ back.filter fun item => !store.includes start item := by
  have left_keyed := sound.keyed a
  have right_keyed := sound.keyed b
  have nothing_included : ∀ item, store.includes ∅ item = false := by
    intro item
    rw [Bool.eq_false_iff, Ne, (keyed_empty store).includes_iff]
    rintro ⟨stored, member, -⟩
    contradiction
  obtain ⟨start, folds, start_keyed, start_keys⟩ := (keyed_empty store).exists_insertKeys
    (fun item member => left_keyed.isKey_of_mem (from_left.subset member))
    (left_keyed.keys_apart.sublist from_left)
  obtain ⟨table, folds_on, table_keyed, table_keys⟩ := start_keyed.exists_insertKeys
    (fun item member => right_keyed.isKey_of_mem (from_right.subset member))
    (right_keyed.keys_apart.sublist from_right)
  have start_keys : start.keys = front := by
    rw [start_keys]
    simp [nothing_included, Table.keys]
  refine ⟨start, table, ?_, start_keyed, start_keys, table_keyed, by rw [table_keys, start_keys]⟩
  rw [tableOfElements, List.foldlM_append, folds]
  exact folds_on

/-- What an operation selects are items of the left operand and then items of the right one, of
which those that the left operand has are left out in the end. There are such items only if all of
the left operand is selected. -/
theorem exists_parts (sound : store.Sound) (operation : SetOperation) (a b : Ref) :
    ∃ front back, front.Sublist (store.elements a) ∧ back.Sublist (store.elements b) ∧
      (front = store.elements a ∨
        ∀ item ∈ back, store.includes (store.table a) item = false) ∧
      store.combineSets operation a b = .ok (front ++ back) ∧
      store.selected operation a b =
        front ++ back.filter fun item => !store.includes (store.table a) item := by
  have whole : ∀ ref, (store.elements ref).Sublist (store.elements ref) :=
    fun ref => List.Sublist.refl _
  have nothing : [].Sublist (store.elements b) := List.nil_sublist _
  have part : ∀ (wanted : Bool) (left right : Ref), ((store.elements left).filter fun item =>
      store.includes (store.table right) item == wanted).Sublist (store.elements left) :=
    fun _ _ _ => List.filter_sublist
  cases operation with
  | difference =>
      refine ⟨_, [], part false a b, nothing, .inr (List.forall_mem_nil _), ?_, ?_⟩
      · rw [List.append_nil]
        exact elementsWhere_eq sound false a b
      · simp [selected, SetOperation.admits]
  | intersection =>
      refine ⟨_, [], part true a b, nothing, .inr (List.forall_mem_nil _), ?_, ?_⟩
      · rw [List.append_nil]
        exact elementsWhere_eq sound true a b
      · simp [selected, SetOperation.admits]
  | symmetricDifference =>
      refine ⟨_, _, part false a b, part false b a, .inr fun item member => ?_, ?_, ?_⟩
      · exact beq_iff_eq.mp (List.mem_filter.mp member).2
      · rw [combineSets, elementsWhere_eq sound, elementsWhere_eq sound]
        rfl
      · simp [selected, SetOperation.admits, List.filter_filter]
  | union =>
      refine ⟨_, _, whole a, whole b, .inl rfl, rfl, ?_⟩
      simp [selected, SetOperation.admits]

/-- What an operation selects makes a table with the elements of the result. -/
theorem exists_combination (sound : store.Sound) (operation : SetOperation) (a b : Ref) :
    ∃ items table, store.combineSets operation a b = .ok items ∧
      store.tableOfElements items = .ok table ∧ table.keys = store.selected operation a b := by
  obtain ⟨front, back, from_left, from_right, apart, combines, selected_eq⟩ :=
    exists_parts sound operation a b
  obtain ⟨start, table, makes, start_keyed, start_keys, -, keys⟩ :=
    exists_tableOfElements sound from_left from_right
  refine ⟨_, table, combines, makes, ?_⟩
  have same_included : ∀ item ∈ back,
      store.includes start item = store.includes (store.table a) item := by
    intro item member
    rcases apart with whole | apart
    · exact start_keyed.includes_eq_of_keys_eq (sound.keyed a) (start_keys.trans whole) item
    · have subset : start.keys ⊆ (store.table a).keys := start_keys ▸ from_left.subset
      have absent := apart item member
      rw [absent, Bool.eq_false_iff]
      exact mt (start_keyed.includes_of_subset (sound.keyed a) subset)
        (Bool.eq_false_iff.mp absent)
  rw [keys, selected_eq]
  exact congrArg (front ++ ·)
    (List.filter_congr fun item member => by rw [same_included item member])

/-! ## Members of the result -/

/-- A set with the elements of the result has the members of the result. -/
theorem includes_of_selected (sound : store.Sound) {table : Table Value Value}
    (keyed : store.Keyed table) (keys_eq : table.keys = store.selected operation a b)
    (item : Value) :
    store.includes table item = operation.admits (store.includes (store.table a) item)
      (store.includes (store.table b) item) := by
  have left_keyed := sound.keyed a
  have right_keyed := sound.keyed b
  have admits_nothing : operation.admits false false = false := by cases operation <;> rfl
  rw [Bool.eq_iff_iff, keyed.includes_iff, keys_eq, selected]
  simp only [List.mem_append, List.mem_filter, Bool.and_eq_true, Bool.not_eq_true']
  constructor
  · rintro ⟨stored, ⟨member, admitted⟩ | ⟨member, absent, admitted⟩, matching⟩
    · have in_left : store.includes (store.table a) item :=
        left_keyed.includes_iff.mpr ⟨stored, member, matching⟩
      rwa [in_left, ← right_keyed.includes_congr sound matching]
    · have in_right : store.includes (store.table b) item :=
        right_keyed.includes_iff.mpr ⟨stored, member, matching⟩
      rwa [in_right, ← left_keyed.includes_congr sound matching, absent]
  · intro admitted
    cases in_left : store.includes (store.table a) item with
    | true =>
        obtain ⟨stored, member, matching⟩ := left_keyed.includes_iff.mp in_left
        rw [in_left, ← right_keyed.includes_congr sound matching] at admitted
        exact ⟨stored, .inl ⟨member, admitted⟩, matching⟩
    | false =>
        cases in_right : store.includes (store.table b) item with
        | false =>
            rw [in_left, in_right, admits_nothing] at admitted
            contradiction
        | true =>
            obtain ⟨stored, member, matching⟩ := right_keyed.includes_iff.mp in_right
            have absent := (left_keyed.includes_congr sound matching).trans in_left
            rw [in_left, in_right] at admitted
            exact ⟨stored, .inr ⟨member, absent, admitted⟩, matching⟩

theorem mem_of_mem_selected {item : Value} (member : item ∈ store.selected operation a b) :
    item ∈ store.elements a ∨ item ∈ store.elements b := by
  rw [selected, List.mem_append] at member
  exact member.imp List.mem_of_mem_filter List.mem_of_mem_filter

/-! ## Growing stores -/

section Growing

variable {later : Store}

theorem Extends.elements_eq (extends_to : store.Extends later)
    (known : a.index < store.tables.size) :
    later.elements a = store.elements a :=
  congrArg Table.keys (extends_to.table_eq a known)

theorem Extends.includes_eq (extends_to : store.Extends later) (stable : store.Stable)
    (later_sound : later.Sound) (known : a.index < store.tables.size) {item : Value}
    (grounded : store.Grounded item) :
    later.includes (later.table a) item = store.includes (store.table a) item := by
  rw [Bool.eq_iff_iff, (later_sound.keyed a).includes_iff, (stable.sound.keyed a).includes_iff,
    extends_to.table_eq a known]
  refine exists_congr fun stored => and_congr_right fun member => ?_
  have stored_grounded := stable.grounded a stored member
  rw [Matches, Matches, hash_eq_of_extends extends_to stored_grounded,
    hash_eq_of_extends extends_to grounded,
    equals_eq_of_extends extends_to stored_grounded grounded]

/-- A larger store selects the same elements. -/
theorem Extends.selected_eq (extends_to : store.Extends later) (stable : store.Stable)
    (later_sound : later.Sound) (known : a.index < store.tables.size)
    (known_right : b.index < store.tables.size) (operation : SetOperation) :
    later.selected operation a b = store.selected operation a b := by
  have in_right : ∀ item ∈ store.elements a,
      later.includes (later.table b) item = store.includes (store.table b) item :=
    fun item member => extends_to.includes_eq stable later_sound known_right
      (stable.grounded a item member)
  have in_left : ∀ item ∈ store.elements b,
      later.includes (later.table a) item = store.includes (store.table a) item :=
    fun item member => extends_to.includes_eq stable later_sound known
      (stable.grounded b item member)
  rw [selected, selected, extends_to.elements_eq known, extends_to.elements_eq known_right]
  congr 1
  · exact List.filter_congr fun item member => by rw [in_right item member]
  · exact List.filter_congr fun item member => by rw [in_left item member]

end Growing

theorem contains_eq {container item : Value} (holds : container.setTable? = some a)
    (key : store.IsKey item) :
    store.contains container item = .ok (store.includes (store.table a) item) := by
  obtain ⟨sort, rfl⟩ := Value.exists_toValue_of_setTable? holds
  cases sort <;> exact hasKey_eq key _

theorem knows_iff_of_setTable? {value : Value} (holds : value.setTable? = some a) :
    store.knows value ↔ a.index < store.tables.size := by
  obtain ⟨sort, rfl⟩ := Value.exists_toValue_of_setTable? holds
  cases sort <;> exact decide_eq_true_iff

end Store

/-! ## The operators -/

open Effect

/-- The operator that asks for an operation. -/
def SetOperation.op : SetOperation → BinaryOperator
  | difference => .sub
  | intersection => .and
  | symmetricDifference => .xor
  | union => .or

theorem SetOperation.ofOp?_eq_some_iff {operation : SetOperation} {op : BinaryOperator} :
    ofOp? op = some operation ↔ op = operation.op := by
  cases operation <;> cases op <;> simp [ofOp?, SetOperation.op]

/-- A new set, and the world with it. -/
structure AddsSet (world : World) (kind : Kind) (elements : List Value) (result : Value)
    (later : World) : Prop where
  /-- The result is of the given kind. -/
  kind_eq : result.kind = kind
  /-- The result is a set of its own, which was not there before. -/
  fresh : result.setTable? = some world.store.tables.next
  /-- The result is there now. -/
  known : world.store.tables.next.index < later.store.tables.size
  /-- The result has the given elements, in this order. -/
  elements_eq : later.store.elements world.store.tables.next = elements
  /-- Nothing else has changed in the store. -/
  extends_to : world.store.Extends later.store
  /-- Nothing has changed outside of the store. -/
  console_eq : later.console = world.console
  /-- The store is ready for the next operation. -/
  stable : later.store.Stable

variable {world : World} {left right : Value} {a b : Ref}

theorem exists_newSet (stable : world.store.Stable) (sort : SetKind) {items : List Value}
    {table : Table Value Value} (makes : world.store.tableOfElements items = .ok table)
    (grounded : ∀ key ∈ table.keys, world.store.Grounded key) :
    ∃ result later, outcome (newSet sort items) world = (.ok result, later) ∧
      AddsSet world sort.kind table.keys result later := by
  have runs := outcome_newSet sort items world
  rw [makes] at runs
  refine ⟨_, _, runs,
    { kind_eq := by cases sort <;> rfl
      fresh := by cases sort <;> rfl
      known := ?_
      elements_eq := congrArg Table.keys (world.store.tables.get_push_next table)
      extends_to := world.store.extends_addTable table
      console_eq := rfl
      stable := stable.addTable (Store.builds_of_tableOfElements makes) grounded }⟩
  change world.store.tables.size < (world.store.tables.push table).size
  rw [Pool.size_push]
  exact Nat.lt_succ_self _

/-- An operator between sets succeeds. -/
theorem exists_binary (stable : world.store.Stable) (operation : SetOperation)
    (left_table : left.setTable? = some a) (right_table : right.setTable? = some b) :
    ∃ result later, outcome (Value.binary operation.op left right) world = (.ok result, later) ∧
      AddsSet world left.kind (world.store.selected operation a b) result later := by
  obtain ⟨items, table, combines, makes, keys⟩ :=
    Store.exists_combination stable.sound operation a b
  have grounded : ∀ key ∈ table.keys, world.store.Grounded key := by
    intro key member
    rw [keys] at member
    exact (Store.mem_of_mem_selected member).elim (stable.grounded a key) (stable.grounded b key)
  obtain ⟨sort, rfl⟩ := Value.exists_toValue_of_setTable? left_table
  obtain ⟨result, later, runs, adds⟩ := exists_newSet stable sort makes grounded
  have asks := SetOperation.ofOp?_eq_some_iff.mpr (rfl : operation.op = operation.op)
  have reads : outcome (read (·.combineSets operation a b)) world = (.ok items, world) := by
    rw [outcome_read, combines]
  have binary_eq : Value.binary operation.op (sort.toValue a) right = (do
      newSet sort (← read (·.combineSets operation a b))) := by
    cases sort <;> rw [SetKind.toValue, Value.binary, SetKind.binary, right_table, asks]
  have kind_eq : (sort.toValue a).kind = sort.kind := by cases sort <;> rfl
  rw [keys] at adds
  exact ⟨result, later, by rw [binary_eq, outcome_bind_of_ok reads, runs], kind_eq ▸ adds⟩

/-- In every store to come the members of the result are those that the operation admits. -/
theorem AddsSet.includes_eq {operation : SetOperation} {kind : Kind} {result : Value}
    {later : World} (adds : AddsSet world kind (world.store.selected operation a b) result later)
    (stable : world.store.Stable) (known : a.index < world.store.tables.size)
    (known_right : b.index < world.store.tables.size) {last : Store}
    (extends_to : later.store.Extends last) (last_sound : last.Sound) (item : Value) :
    last.includes (last.table world.store.tables.next) item =
      operation.admits (last.includes (last.table a) item)
        (last.includes (last.table b) item) := by
  have elements_eq := (extends_to.elements_eq adds.known).trans adds.elements_eq
  rw [← (adds.extends_to.trans extends_to).selected_eq stable last_sound known known_right]
    at elements_eq
  exact Store.includes_of_selected last_sound (last_sound.keyed _) elements_eq item

/-- An operator between two sets, which may be the same, succeeds with a new set, whose members are
those that the operation admits; it leaves the operands and all else as they are. -/
theorem exists_result_of_binary (stable : world.store.Stable)
    (left_table : left.setTable? = some a) (right_table : right.setTable? = some b)
    (known : world.store.knows left) (known_right : world.store.knows right) {op : BinaryOperator}
    {operation : SetOperation} (asks : SetOperation.ofOp? op = some operation) :
    ∃ result later, outcome (Value.binary op left right) world = (.ok result, later) ∧
      AddsSet world left.kind (world.store.selected operation a b) result later ∧
      later.store.elements a = world.store.elements a ∧
      later.store.elements b = world.store.elements b ∧
      ∀ item, later.store.IsKey item → ∃ inLeft inRight,
        later.store.contains left item = .ok inLeft ∧
        later.store.contains right item = .ok inRight ∧
        later.store.contains result item = .ok (operation.admits inLeft inRight) := by
  obtain rfl := SetOperation.ofOp?_eq_some_iff.mp asks
  rw [Store.knows_iff_of_setTable? left_table] at known
  rw [Store.knows_iff_of_setTable? right_table] at known_right
  obtain ⟨result, later, runs, adds⟩ := exists_binary stable operation left_table right_table
  refine ⟨result, later, runs, adds, adds.extends_to.elements_eq known,
    adds.extends_to.elements_eq known_right, fun item key => ?_⟩
  refine ⟨_, _, Store.contains_eq left_table key, Store.contains_eq right_table key, ?_⟩
  rw [Store.contains_eq adds.fresh key, adds.includes_eq stable known known_right
    (Store.Extends.refl later.store) adds.stable.sound]

/-- A world of two sets of three elements. Two elements of one match elements of the other that are
of other kinds or are other objects. -/
def shelf : World where
  store := { tables := ⟨#[
    (∅ : Table Value Value).push ⟨Store.hashOfInt 1, .int 1, .int 1⟩,
    (((∅ : Table Value Value).push
      ⟨Digest.tagged .frozenset [Store.hashOfInt 1], .frozenset ⟨0⟩, .frozenset ⟨0⟩⟩).push
      ⟨Store.hashOfInt 2, .int 2, .int 2⟩).push ⟨Store.hashOfInt 3, .int 3, .int 3⟩,
    (∅ : Table Value Value).push ⟨Store.hashOfInt 1, .bool true, .bool true⟩,
    (((∅ : Table Value Value).push
      ⟨Store.hashOfInt 3, .float ⟨0x4008000000000000⟩, .float ⟨0x4008000000000000⟩⟩).push
      ⟨Digest.tagged .frozenset [Store.hashOfInt 1], .frozenset ⟨2⟩, .frozenset ⟨2⟩⟩).push
      ⟨Store.hashOfInt 4, .int 4, .int 4⟩]⟩ }

theorem sound_shelf : shelf.store.Sound := by
  rintro ⟨index⟩
  match index with
  | 0 => exact Store.Builds.empty.push rfl (by cbv) _
  | 1 => exact ((Store.Builds.empty.push rfl (by cbv) _).push rfl (by cbv) _).push rfl (by cbv) _
  | 2 => exact Store.Builds.empty.push rfl (by cbv) _
  | 3 => exact ((Store.Builds.empty.push rfl (by cbv) _).push rfl (by cbv) _).push rfl (by cbv) _
  | index + 4 => exact .empty

theorem stable_shelf : shelf.store.Stable := by
  let values : List Value := [.frozenset ⟨0⟩, .frozenset ⟨2⟩, .int 1, .int 2, .int 3, .int 4,
    .bool true, .float ⟨0x4008000000000000⟩]
  have grounded : ∀ value ∈ values, shelf.store.Grounded value :=
    Store.grounded_of_closed (by decide) (by decide)
      (by decide : ∀ value ∈ values, Value.nestsWithin shelf.store.contents 2 value)
  refine ⟨sound_shelf, ?_⟩
  rintro ⟨index⟩ key member
  apply grounded
  match index with
  | 0 => exact (by decide : shelf.store.elements ⟨0⟩ ⊆ values) member
  | 1 => exact (by decide : shelf.store.elements ⟨1⟩ ⊆ values) member
  | 2 => exact (by decide : shelf.store.elements ⟨2⟩ ⊆ values) member
  | 3 => exact (by decide : shelf.store.elements ⟨3⟩ ⊆ values) member
  | index + 4 => exact nomatch member

/-- The union of the two sets keeps the elements of the left one where they match. -/
theorem exists_result_of_binary_shelf :
    shelf.store.Stable ∧ shelf.store.knows (.set ⟨1⟩) ∧ shelf.store.knows (.frozenset ⟨3⟩) ∧
      ∃ result later, outcome (Value.binary .or (.set ⟨1⟩) (.frozenset ⟨3⟩)) shelf =
          (.ok result, later) ∧ result.kind = .set ∧
        later.store.elements shelf.store.tables.next =
          [.frozenset ⟨0⟩, .int 2, .int 3, .int 4] := by
  obtain ⟨result, later, runs, adds, -⟩ := exists_result_of_binary stable_shelf
    (rfl : (Value.set ⟨1⟩).setTable? = some ⟨1⟩)
    (rfl : (Value.frozenset ⟨3⟩).setTable? = some ⟨3⟩) (by decide) (by decide)
    (rfl : SetOperation.ofOp? .or = some .union)
  have elements : shelf.store.selected .union ⟨1⟩ ⟨3⟩ =
      [.frozenset ⟨0⟩, .int 2, .int 3, .int 4] := by cbv
  exact ⟨stable_shelf, by decide, by decide, result, later, runs, adds.kind_eq,
    adds.elements_eq.trans elements⟩

end ObjectModel
