import ObjectModel.Proofs.SetAlgebra
import ObjectModel.Store.Order

/-!
# Laws of set algebra

Two sets whose elements are equal to themselves are equal exactly if they have the same members. The
comparison checks the sizes and one inclusion only; the other inclusion follows because elements
that are not equal cannot be matched by the same one.

So equations between expressions of set algebra can be read off their truth tables: two expressions
with the same table yield equal sets, in whatever order they were put together.
-/

namespace ObjectModel

open Effect

namespace Store

/-- Every element of a set is equal to itself. -/
def SelfEqual (store : Store) (ref : Ref) : Prop :=
  ∀ item ∈ store.elements ref, store.equals item item

variable {store : Store} {a b : Ref}

theorem SelfEqual.matches_self (self_equal : store.SelfEqual a) (sound : store.Sound) {item : Value}
    (member : item ∈ store.elements a) : store.Matches item item := by
  obtain ⟨hash, hashes⟩ := (sound.keyed a).isKey_of_mem member
  exact ⟨hash, hashes, hashes, self_equal item member⟩

theorem SelfEqual.of_extends {later : Store} (self_equal : store.SelfEqual a)
    (stable : store.Stable) (extends_to : store.Extends later)
    (known : a.index < store.tables.size) : later.SelfEqual a := by
  intro item member
  rw [extends_to.elements_eq known] at member
  have grounded := stable.grounded a item member
  rw [equals_eq_of_extends extends_to grounded grounded]
  exact self_equal item member

/-! ## Equality -/

theorem includes_of_sameElements (sound : store.Sound)
    (same : store.sameElements store.equals a b) {item : Value}
    (included : store.includes (store.table a) item) : store.includes (store.table b) item := by
  rcases (sameElements_iff sound).mp same with rfl | ⟨-, total⟩
  · exact included
  · obtain ⟨stored, member, matching⟩ := (sound.keyed a).includes_iff.mp included
    obtain ⟨entry, entry_member, rfl⟩ := List.mem_map.mp member
    obtain ⟨found, found_member, same_hash, equal⟩ := total entry entry_member
    have entry_hashes := (sound.keyed a).hash_eq entry entry_member
    have found_hashes := (sound.keyed b).hash_eq found found_member
    rw [same_hash] at found_hashes
    have found_matches : store.Matches found.key entry.key :=
      ⟨entry.hash, found_hashes, entry_hashes, equal⟩
    exact (sound.keyed b).includes_iff.mpr
      ⟨found.key, List.mem_map_of_mem found_member, found_matches.trans sound matching⟩

/-- An element of one set is found in another one that has the same members. -/
theorem exists_finds_of_includes (sound : store.Sound) (self_equal : store.SelfEqual a)
    (subset : ∀ item, store.IsKey item → store.includes (store.table a) item →
      store.includes (store.table b) item) {entry : Entry Value Value}
    (member : entry ∈ (store.table a).entries) :
    ∃ found ∈ (store.table b).entries, Finds store.equals entry found := by
  have key_member : entry.key ∈ store.elements a := List.mem_map_of_mem member
  have matching := self_equal.matches_self sound key_member
  have included := (sound.keyed a).includes_iff.mpr ⟨entry.key, key_member, matching⟩
  obtain ⟨stored, stored_member, hash, stored_hashes, hashes, equal⟩ :=
    (sound.keyed b).includes_iff.mp (subset entry.key matching.isKey included)
  obtain ⟨found, found_member, rfl⟩ := List.mem_map.mp stored_member
  have found_hash := Except.ok.inj (((sound.keyed b).hash_eq found found_member).symm.trans
    stored_hashes)
  have entry_hash := Except.ok.inj (((sound.keyed a).hash_eq entry member).symm.trans hashes)
  exact ⟨found, found_member, found_hash.trans entry_hash.symm, equal⟩

theorem sameElements_iff_includes (sound : store.Sound) (self_equal : store.SelfEqual a)
    (self_equal_right : store.SelfEqual b) :
    store.sameElements store.equals a b ↔ ∀ item, store.IsKey item →
      store.includes (store.table a) item = store.includes (store.table b) item := by
  have relation := keyRelation_equals sound
  constructor
  · intro same item _
    rw [Bool.eq_iff_iff]
    exact ⟨includes_of_sameElements sound same,
      includes_of_sameElements sound (sameElements_symm sound relation same)⟩
  · intro same_members
    have total : ∀ entry ∈ (store.table a).entries, ∃ found ∈ (store.table b).entries,
        Finds store.equals entry found := fun entry =>
      exists_finds_of_includes sound self_equal fun item key included =>
        same_members item key ▸ included
    have total_back : ∀ entry ∈ (store.table b).entries, ∃ found ∈ (store.table a).entries,
        Finds store.equals entry found := fun entry =>
      exists_finds_of_includes sound self_equal_right fun item key included =>
        same_members item key ▸ included
    have same_length := Nat.le_antisymm (length_le_of_finds sound relation total)
      (length_le_of_finds sound relation total_back)
    exact (sameElements_iff sound).mpr (.inr ⟨same_length, total⟩)

theorem compare_eq_of_setTable? {left right : Value} (left_table : left.setTable? = some a)
    (right_table : right.setTable? = some b) :
    store.compare .eq left right = .ok (store.sameElements store.equals a b) := by
  obtain ⟨sort, rfl⟩ := Value.exists_toValue_of_setTable? left_table
  cases sort <;> rw [SetKind.toValue, compare, operatorEquals, right_table]

/-- Whether a set has a member. -/
def has (store : Store) (container item : Value) : Bool :=
  match store.contains container item with
  | .ok present => present
  | .error _ => false

theorem has_eq {container : Value} (holds : container.setTable? = some a) (item : Value) :
    store.has container item = store.includes (store.table a) item := by
  obtain ⟨sort, rfl⟩ := Value.exists_toValue_of_setTable? holds
  cases sort <;> rfl

end Store

/-! ## Expressions -/

/-- An expression of set algebra. -/
inductive SetTerm where
  /-- A set that is there already. -/
  | given (set : Value)
  /-- A new set without elements. -/
  | empty
  /-- An operator between two expressions. -/
  | combine (operation : SetOperation) (left right : SetTerm)

namespace SetTerm

/-- The value of an expression. -/
def evaluate : SetTerm → Effect Value
  | given set => pure set
  | empty => newSet .mutable []
  | combine operation left right => do
    let x ← left.evaluate
    let y ← right.evaluate
    Value.binary operation.op x y

/-- Whether a value belongs to an expression, given whether it belongs to the sets in it. -/
def admits (belongs : Value → Bool) : SetTerm → Bool
  | given set => belongs set
  | empty => false
  | combine operation left right => operation.admits (left.admits belongs) (right.admits belongs)

/-- The sets in an expression are there, and their elements are equal to themselves. -/
def Ready (store : Store) : SetTerm → Prop
  | given set => ∃ ref, set.setTable? = some ref ∧ ref.index < store.tables.size ∧
    store.SelfEqual ref
  | empty => True
  | combine _ left right => left.Ready store ∧ right.Ready store

/-- The comparison of two expressions for equality. -/
def compareEqual (left right : SetTerm) : Effect Bool := do
  let x ← left.evaluate
  let y ← right.evaluate
  read (·.compare .eq x y)

/-- The value of an expression, and the world after it. -/
structure Evaluates (term : SetTerm) (world : World) (result : Value) (ref : Ref)
    (later : World) : Prop where
  /-- The value is a set. -/
  table : result.setTable? = some ref
  /-- The set is there. -/
  known : ref.index < later.store.tables.size
  /-- Sets have been added at most. -/
  extends_to : world.store.Extends later.store
  /-- The store is ready for the next expression. -/
  stable : later.store.Stable
  /-- The elements are equal to themselves. -/
  self_equal : later.store.SelfEqual ref
  /-- In every store to come the members are those that the expression admits. -/
  includes_eq : ∀ last : Store, later.store.Extends last → last.Sound → ∀ item,
    last.includes (last.table ref) item = term.admits (last.has · item)

theorem Ready.of_extends {store later : Store} {term : SetTerm} (ready : term.Ready store)
    (stable : store.Stable) (extends_to : store.Extends later) : term.Ready later := by
  induction term with
  | given set =>
      obtain ⟨ref, table, known, self_equal⟩ := ready
      exact ⟨ref, table, known.trans_le extends_to.tables_le,
        self_equal.of_extends stable extends_to known⟩
  | empty => trivial
  | combine operation left right left_induction right_induction =>
      exact ⟨left_induction ready.1, right_induction ready.2⟩

theorem exists_evaluates_empty {world : World} (stable : world.store.Stable) :
    ∃ result ref later, outcome empty.evaluate world = (.ok result, later) ∧
      empty.Evaluates world result ref later := by
  obtain ⟨result, later, runs, adds⟩ :=
    exists_newSet stable .mutable (rfl : world.store.tableOfElements [] = .ok ∅)
      fun key member => nomatch member
  have no_elements : later.store.elements world.store.tables.next = [] := adds.elements_eq
  refine ⟨result, world.store.tables.next, later, runs,
    { table := adds.fresh
      known := adds.known
      extends_to := adds.extends_to
      stable := adds.stable
      self_equal := ?_
      includes_eq := ?_ }⟩
  · intro item member
    rw [no_elements] at member
    contradiction
  · intro last last_extends last_sound item
    rw [admits, Bool.eq_false_iff, Ne, (last_sound.keyed _).includes_iff]
    rintro ⟨stored, member, -⟩
    have still_none : last.elements world.store.tables.next = [] :=
      (last_extends.elements_eq adds.known).trans no_elements
    change stored ∈ last.elements world.store.tables.next at member
    rw [still_none] at member
    contradiction

theorem exists_evaluates_combine {world middle late : World} {operation : SetOperation}
    {left right : SetTerm} {x y : Value} {a b : Ref}
    (left_runs : outcome left.evaluate world = (.ok x, middle))
    (left_evaluates : left.Evaluates world x a middle)
    (right_runs : outcome right.evaluate middle = (.ok y, late))
    (right_evaluates : right.Evaluates middle y b late) :
    ∃ result ref later,
      outcome (combine operation left right).evaluate world = (.ok result, later) ∧
        (combine operation left right).Evaluates world result ref later := by
  have stable := right_evaluates.stable
  have known : a.index < late.store.tables.size :=
    left_evaluates.known.trans_le right_evaluates.extends_to.tables_le
  have self_equal : late.store.SelfEqual a := left_evaluates.self_equal.of_extends
    left_evaluates.stable right_evaluates.extends_to left_evaluates.known
  obtain ⟨result, later, runs, adds⟩ :=
    exists_binary stable operation left_evaluates.table right_evaluates.table
  refine ⟨result, late.store.tables.next, later, ?_,
    { table := adds.fresh
      known := adds.known
      extends_to := (left_evaluates.extends_to.trans right_evaluates.extends_to).trans
        adds.extends_to
      stable := adds.stable
      self_equal := ?_
      includes_eq := ?_ }⟩
  · rw [evaluate, outcome_bind_of_ok left_runs, outcome_bind_of_ok right_runs, runs]
  · intro item member
    rw [adds.elements_eq] at member
    have of_operand : late.store.Grounded item ∧ late.store.equals item item := by
      rcases Store.mem_of_mem_selected member with member | member
      · exact ⟨stable.grounded a item member, self_equal item member⟩
      · exact ⟨stable.grounded b item member, right_evaluates.self_equal item member⟩
    rw [Store.equals_eq_of_extends adds.extends_to of_operand.1 of_operand.1]
    exact of_operand.2
  · intro last last_extends last_sound item
    have from_late := adds.extends_to.trans last_extends
    have from_middle := right_evaluates.extends_to.trans from_late
    rw [adds.includes_eq stable known right_evaluates.known last_extends last_sound,
      right_evaluates.includes_eq last from_late last_sound,
      left_evaluates.includes_eq last from_middle last_sound]
    rfl

/-- Expressions have values, with the members that they admit. -/
theorem exists_evaluates {world : World} (stable : world.store.Stable) {term : SetTerm}
    (ready : term.Ready world.store) :
    ∃ result ref later, outcome term.evaluate world = (.ok result, later) ∧
      term.Evaluates world result ref later := by
  induction term generalizing world with
  | given set =>
      obtain ⟨ref, table, known, self_equal⟩ := ready
      exact ⟨set, ref, world, rfl,
        { table
          known
          extends_to := Store.Extends.refl world.store
          stable
          self_equal
          includes_eq := fun last _ _ item => (last.has_eq table item).symm }⟩
  | empty => exact exists_evaluates_empty stable
  | combine operation left right left_induction right_induction =>
      obtain ⟨x, a, middle, left_runs, left_evaluates⟩ := left_induction stable ready.1
      have right_ready := ready.2.of_extends stable left_evaluates.extends_to
      obtain ⟨y, b, late, right_runs, right_evaluates⟩ :=
        right_induction left_evaluates.stable right_ready
      exact exists_evaluates_combine left_runs left_evaluates right_runs right_evaluates

/-- Expressions with the same truth table are equal. -/
theorem compareEqual_of_same_admits {world : World} (stable : world.store.Stable)
    {left right : SetTerm} (ready : left.Ready world.store) (ready_right : right.Ready world.store)
    (same : ∀ belongs, left.admits belongs = right.admits belongs) :
    (outcome (compareEqual left right) world).1 = .ok true := by
  obtain ⟨x, a, middle, left_runs, left_evaluates⟩ := exists_evaluates stable ready
  obtain ⟨y, b, later, right_runs, right_evaluates⟩ := exists_evaluates left_evaluates.stable
    (ready_right.of_extends stable left_evaluates.extends_to)
  have left_self_equal := left_evaluates.self_equal.of_extends left_evaluates.stable
    right_evaluates.extends_to left_evaluates.known
  have sound := right_evaluates.stable.sound
  have same_members : ∀ item, later.store.IsKey item →
      later.store.includes (later.store.table a) item =
        later.store.includes (later.store.table b) item := by
    intro item _
    rw [left_evaluates.includes_eq later.store right_evaluates.extends_to sound,
      right_evaluates.includes_eq later.store (Store.Extends.refl _) sound, same]
  have equal : later.store.sameElements later.store.equals a b :=
    (Store.sameElements_iff_includes sound left_self_equal right_evaluates.self_equal).mpr
      same_members
  rw [compareEqual, outcome_bind_of_ok left_runs, outcome_bind_of_ok right_runs, outcome_read,
    Store.compare_eq_of_setTable? left_evaluates.table right_evaluates.table, equal]

end SetTerm

/-- What equality and the operators have to do with each other. -/
structure LawfulSets (world : World) (left right : Value) : Prop where
  /-- Sets are equal exactly if they have the same members. -/
  extensional : world.store.compare .eq left right = .ok true ↔
    ∀ item, world.store.IsKey item →
      world.store.contains left item = world.store.contains right item
  /-- The order of the operands of a union does not matter. -/
  union_comm : (outcome (SetTerm.compareEqual
    (.combine .union (.given left) (.given right))
    (.combine .union (.given right) (.given left))) world).1 = .ok true
  /-- The union of a set with itself is the set. -/
  union_self : (outcome (SetTerm.compareEqual
    (.combine .union (.given left) (.given left)) (.given left)) world).1 = .ok true
  /-- The intersection of a set with itself is the set. -/
  intersection_self : (outcome (SetTerm.compareEqual
    (.combine .intersection (.given left) (.given left)) (.given left)) world).1 = .ok true
  /-- Nothing is left of a set without itself. -/
  difference_self : (outcome (SetTerm.compareEqual
    (.combine .difference (.given left) (.given left)) .empty) world).1 = .ok true
  /-- The symmetric difference consists of the two differences. -/
  symmetricDifference_eq : (outcome (SetTerm.compareEqual
    (.combine .symmetricDifference (.given left) (.given right))
    (.combine .union (.combine .difference (.given left) (.given right))
      (.combine .difference (.given right) (.given left)))) world).1 = .ok true

/-- Equality is extensional between sets whose elements are equal to themselves, and the laws of set
algebra hold of them. -/
theorem lawfulSets_of_selfEqual {world : World} (stable : world.store.Stable) {left right : Value}
    {a b : Ref} (left_table : left.setTable? = some a) (right_table : right.setTable? = some b)
    (known : world.store.knows left) (known_right : world.store.knows right)
    (self_equal : world.store.SelfEqual a) (self_equal_right : world.store.SelfEqual b) :
    LawfulSets world left right := by
  have left_ready : (SetTerm.given left).Ready world.store :=
    ⟨a, left_table, (Store.knows_iff_of_setTable? left_table).mp known, self_equal⟩
  have right_ready : (SetTerm.given right).Ready world.store :=
    ⟨b, right_table, (Store.knows_iff_of_setTable? right_table).mp known_right, self_equal_right⟩
  have twice (operation : SetOperation) :
      (SetTerm.combine operation (.given left) (.given left)).Ready world.store :=
    ⟨left_ready, left_ready⟩
  have both (operation : SetOperation) :
      (SetTerm.combine operation (.given left) (.given right)).Ready world.store :=
    ⟨left_ready, right_ready⟩
  have swapped (operation : SetOperation) :
      (SetTerm.combine operation (.given right) (.given left)).Ready world.store :=
    ⟨right_ready, left_ready⟩
  constructor
  · rw [Store.compare_eq_of_setTable? left_table right_table, Except.ok.injEq,
      Store.sameElements_iff_includes stable.sound self_equal self_equal_right]
    refine forall₂_congr fun item key => ?_
    rw [Store.contains_eq left_table key, Store.contains_eq right_table key, Except.ok.injEq]
  · exact SetTerm.compareEqual_of_same_admits stable (both .union) (swapped .union)
      fun belongs => Bool.or_comm _ _
  · exact SetTerm.compareEqual_of_same_admits stable (twice .union) left_ready
      fun belongs => Bool.or_self _
  · exact SetTerm.compareEqual_of_same_admits stable (twice .intersection) left_ready
      fun belongs => Bool.and_self _
  · exact SetTerm.compareEqual_of_same_admits stable (twice .difference) trivial
      fun belongs => Bool.and_not_self _
  · refine SetTerm.compareEqual_of_same_admits stable (both .symmetricDifference)
      ⟨both .difference, swapped .difference⟩ fun belongs => ?_
    simp only [SetTerm.admits, SetOperation.admits]
    cases belongs left <;> cases belongs right <;> rfl

theorem lawfulSets_of_selfEqual_shelf :
    shelf.store.Stable ∧ shelf.store.knows (.set ⟨1⟩) ∧ shelf.store.knows (.frozenset ⟨3⟩) ∧
      shelf.store.SelfEqual ⟨1⟩ ∧ shelf.store.SelfEqual ⟨3⟩ ∧
        LawfulSets shelf (.set ⟨1⟩) (.frozenset ⟨3⟩) := by
  have self_equal : shelf.store.SelfEqual ⟨1⟩ := by
    have checked : (shelf.store.elements ⟨1⟩).all fun item => shelf.store.equals item item := by
      cbv
    exact List.all_eq_true.mp checked
  have self_equal_right : shelf.store.SelfEqual ⟨3⟩ := by
    have checked : (shelf.store.elements ⟨3⟩).all fun item => shelf.store.equals item item := by
      cbv
    exact List.all_eq_true.mp checked
  exact ⟨stable_shelf, by decide, by decide, self_equal, self_equal_right,
    lawfulSets_of_selfEqual stable_shelf rfl rfl (by decide) (by decide) self_equal
      self_equal_right⟩

end ObjectModel
