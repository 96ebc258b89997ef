import ObjectModel.Proofs.Selection
import ObjectModel.Proofs.SetLaws
import ObjectModel.Proofs.Store.Insertion

/-!
# Set algebra in place

An in-place operator between two sets makes the set that the plain operator makes. Before that it
puts the elements that this set is made of into its receiver one by one, unless the receiver is
frozen or the operation is an intersection. So the receiver keeps its elements and takes up those
that it lacks when their turn comes, and it need not end with the elements of the result: if
elements are equal to themselves, a difference changes nothing, and a symmetric difference makes the
union.
-/

namespace ObjectModel

open Effect

namespace Store

variable {store : Store} {a b : Ref} {operation : SetOperation}

theorem exists_combineSets (keys : ∀ item ∈ store.elements a ++ store.elements b, store.IsKey item)
    (operation : SetOperation) : ∃ items, store.combineSets operation a b = .ok items := by
  rw [List.forall_mem_append] at keys
  cases operation with
  | difference => exact ⟨_, elementsWhere_eq_of_isKey keys.1 false b⟩
  | intersection => exact ⟨_, elementsWhere_eq_of_isKey keys.1 true b⟩
  | symmetricDifference =>
      rw [combineSets, elementsWhere_eq_of_isKey keys.1, elementsWhere_eq_of_isKey keys.2]
      exact ⟨_, rfl⟩
  | union => exact ⟨_, rfl⟩

/-- Items of a set and then items of another one, put into the first set, come behind its elements
as far as it does not have them. -/
theorem exists_insertKeys_of_sublists (sound : store.Sound) {front back : List Value}
    (from_left : front.Sublist (store.elements a)) (from_right : back.Sublist (store.elements b)) :
    ∃ after, (front ++ back).foldlM (fun table item => store.insertKey table item item)
        (store.table a) = .ok after ∧ store.Keyed after ∧
      after.keys = store.elements a ++
        (front ++ back).filter fun item => !store.includes (store.table a) item := by
  have left_keyed := sound.keyed a
  have right_keyed := sound.keyed b
  obtain ⟨next, folds, next_keyed, next_keys⟩ := left_keyed.exists_insertKeys
    (fun item member => left_keyed.isKey_of_mem (from_left.subset member))
    (left_keyed.keys_apart.sublist from_left)
  obtain ⟨after, folds_on, after_keyed, after_keys⟩ := next_keyed.exists_insertKeys
    (fun item member => right_keyed.isKey_of_mem (from_right.subset member))
    (right_keyed.keys_apart.sublist from_right)
  -- the items of the first set are there already, and their copies match nothing else
  have same_included : ∀ item,
      store.includes next item = store.includes (store.table a) item := by
    intro item
    rw [Bool.eq_iff_iff, next_keyed.includes_iff, left_keyed.includes_iff, next_keys]
    constructor
    · rintro ⟨stored, member, matching⟩
      rw [List.mem_append] at member
      exact ⟨stored, member.elim id fun taken => from_left.subset (List.mem_of_mem_filter taken),
        matching⟩
    · rintro ⟨stored, member, matching⟩
      exact ⟨stored, List.mem_append_left _ member, matching⟩
  refine ⟨after, ?_, after_keyed, ?_⟩
  · rw [List.foldlM_append, folds]
    exact folds_on
  · rw [after_keys, next_keys, List.filter_append, List.append_assoc]
    simp only [same_included]
    rfl

/-- What an operation selects from two sets, put into the first one, comes behind its elements as
far as it does not have it. -/
theorem exists_insertSelected (sound : store.Sound) (operation : SetOperation) (a b : Ref) :
    ∃ items after, store.combineSets operation a b = .ok items ∧
      items.foldlM (fun table item => store.insertKey table item item) (store.table a) =
        .ok after ∧ store.Keyed after ∧
      after.keys = store.elements a ++ (store.selected operation a b).filter fun item =>
        !store.includes (store.table a) item := by
  obtain ⟨front, back, from_left, from_right, -, combines, selected_eq⟩ :=
    exists_parts sound operation a b
  obtain ⟨after, folds, keyed, keys⟩ := exists_insertKeys_of_sublists sound from_left from_right
  refine ⟨_, after, combines, folds, keyed, ?_⟩
  rw [keys, selected_eq, List.filter_append, List.filter_append, List.filter_filter]
  simp only [Bool.and_self]

/-- A set whose elements are equal to themselves has all that an operation selects, apart from what
is selected of the other set. -/
theorem filter_selected_of_selfEqual (sound : store.Sound) (self_equal : store.SelfEqual a) :
    ((store.selected operation a b).filter fun item => !store.includes (store.table a) item) =
      (store.elements b).filter fun item =>
        !store.includes (store.table a) item && operation.admits false true := by
  have included : ∀ item ∈ store.elements a, store.includes (store.table a) item :=
    fun item member =>
      (sound.keyed a).includes_iff.mpr ⟨item, member, self_equal.matches_self sound member⟩
  have none_of_left : ((store.elements a).filter fun item =>
      operation.admits true (store.includes (store.table b) item)).filter
        (fun item => !store.includes (store.table a) item) = [] := by
    rw [List.filter_eq_nil_iff]
    intro item member
    simp [included item (List.mem_of_mem_filter member)]
  rw [selected, List.filter_append, none_of_left, List.nil_append, List.filter_filter]
  refine List.filter_congr fun item _ => ?_
  rw [← Bool.and_assoc, Bool.and_self]

end Store

/-! ## The operators -/

/-- What an in-place operator puts into its receiver, given what its result is made of. -/
def SetKind.takes (sort : SetKind) (operation : SetOperation) (items : List Value) : List Value :=
  if sort = .mutable ∧ operation ≠ .intersection then items else []

theorem SetKind.takes_subset (sort : SetKind) (operation : SetOperation) (items : List Value) :
    sort.takes operation items ⊆ items := by
  rw [takes]
  split
  · exact List.Subset.refl items
  · exact List.nil_subset items

/-- The receiver is there, the elements of both operands can be keys, and a receiver that can change
is inside none of them. -/
structure Store.Operands (store : Store) (sort : SetKind) (a b : Ref) : Prop where
  known : a.index < store.tables.size
  keys : ∀ item ∈ store.elements a ++ store.elements b, store.IsKey item
  fits : sort = .mutable → ∀ item ∈ store.elements a ++ store.elements b, store.Fits a item

/-- The world with another table in the place of one, and one more table. -/
def World.updated (world : World) (receiver : Ref) (after made : Table Value Value) : World :=
  { world with store := { world.store with
      tables := (world.store.tables.set receiver after).push made } }

section Outcomes

variable {world : World} {sort : SetKind} {op : BinaryOperator} {operation : SetOperation}
  {other : Value} {a b : Ref} {after made : Table Value Value} {items : List Value}

theorem extends_updated (world : World) (a : Ref) (after made : Table Value Value) :
    (world.store.withTable a after).Extends (world.updated a after made).store :=
  (world.store.withTable a after).extends_addTable made

theorem table_updated_receiver (known : a.index < world.store.tables.size) :
    (world.updated a after made).store.table a = after := by
  have still_known : a.index < (world.store.withTable a after).tables.size :=
    known.trans_eq (world.store.tables.size_set a after).symm
  rw [(extends_updated world a after made).table_eq a still_known, Store.table_withTable known]

theorem table_updated_next :
    (world.updated a after made).store.table world.store.tables.next = made := by
  rw [← world.store.tables.next_set a after]
  exact (world.store.tables.set a after).get_push_next made

theorem outcome_newSet_withTable
    (makes : (world.store.withTable a after).tableOfElements items = .ok made) :
    outcome (newSet sort items) { world with store := world.store.withTable a after } =
      (.ok (sort.toValue world.store.tables.next), world.updated a after made) := by
  rw [outcome_newSet, makes, ← world.store.tables.next_set a after]
  rfl

theorem outcome_binary (right_table : other.setTable? = some b)
    (asks : SetOperation.ofOp? op = some operation)
    (combines : world.store.combineSets operation a b = .ok items)
    (makes : world.store.tableOfElements items = .ok made) :
    outcome (Value.binary op (sort.toValue a) other) world =
      (.ok (sort.toValue world.store.tables.next),
        world.updated a (world.store.table a) made) := by
  have reads : outcome (read (·.combineSets operation a b)) world = (.ok items, world) := by
    rw [outcome_read, combines]
  have binary_eq : Value.binary op (sort.toValue a) other = (do
      newSet sort (← read (·.combineSets operation a b))) := by
    cases sort <;> rw [SetKind.toValue, Value.binary, SetKind.binary, right_table, asks]
  have same := world.store.withTable_table a
  rw [← same] at makes
  rw [binary_eq, outcome_bind_of_ok reads, ← outcome_newSet_withTable makes, same]

theorem outcome_inplace (right_table : other.setTable? = some b)
    (asks : SetOperation.ofOp? op = some operation)
    (combines : world.store.combineSets operation a b = .ok items)
    (adds : outcome (addElements a (sort.takes operation items)) world =
      (.ok (), { world with store := world.store.withTable a after }))
    (makes : (world.store.withTable a after).tableOfElements items = .ok made) :
    outcome (Value.inplace op (sort.toValue a) other) world =
      (.ok (sort.toValue world.store.tables.next), world.updated a after made) := by
  have reads : outcome (read (·.combineSets operation a b)) world = (.ok items, world) := by
    rw [outcome_read, combines]
  have inplace_eq : Value.inplace op (sort.toValue a) other = (do
      let items ← read (·.combineSets operation a b)
      if sort = .mutable ∧ operation ≠ .intersection then addElements a items
      newSet sort items) := by
    cases sort <;> rw [SetKind.toValue, Value.inplace, SetKind.inplace, right_table, asks]
  rw [inplace_eq, outcome_bind_of_ok reads, ← outcome_newSet_withTable makes]
  rw [SetKind.takes] at adds
  split at adds
  · rw [if_pos ‹_›, outcome_bind_of_ok adds]
  · rw [if_neg ‹_›]
    have unchanged := (Prod.mk.inj adds).2
    rw [← unchanged]

end Outcomes

/-- A set in one store has the same elements in the same order as a set in another store, and the
same members, as far as these are keys that do not change along with a certain table. -/
structure SameSet (start : Store) (receiver : Ref) (first : Store) (left : Value) (second : Store)
    (right : Value) : Prop where
  elements_eq : first.setSource? left = second.setSource? right
  contains_eq : ∀ item, start.IsKey item → start.Fits receiver item →
    first.contains left item = second.contains right item

/-- What an in-place operator between two sets has left behind, where the plain operator would have
left another world. -/
structure UpdatesInPlace (world : World) (sort : SetKind) (a : Ref) (operation : SetOperation)
    (other result : Value) (plain later : World) : Prop where
  /-- The result is of the kind of the receiver. -/
  kind_eq : result.kind = sort.kind
  /-- The result is a set of its own, which was not there before. -/
  fresh : result.setTable? = some world.store.tables.next
  /-- The result is not the receiver. -/
  ne_receiver : result ≠ sort.toValue a
  /-- The result has the elements that the plain operator gives it, in the same order. -/
  elements_eq : later.store.setSource? result = plain.store.setSource? result
  /-- The receiver keeps its elements and takes up those that it lacks at their turn. -/
  receiver_eq : ∃ b items, other.setTable? = some b ∧
    world.store.combineSets operation a b = .ok items ∧
      later.store.elements a =
        world.store.elements a ++ newcomers a (sort.takes operation items) world
  /-- No other object has changed. -/
  frame : ∃ table, (world.store.withTable a table).Extends later.store
  /-- A frozen receiver has not changed either. -/
  frozen : sort = .frozen → world.store.Extends later.store
  /-- Nothing has changed outside of the store. -/
  console_eq : later.console = world.console
  /-- A difference or an intersection leaves a set as it is, if the stored keys are stable and its
  elements are equal to themselves. -/
  kept : sort = .mutable → world.store.Sound → world.store.SelfEqual a →
    operation = .difference ∨ operation = .intersection →
      SameSet world.store a later.store (.set a) world.store (.set a)
  /-- A union or a symmetric difference makes it the union then. -/
  united : sort = .mutable → world.store.Sound → world.store.SelfEqual a →
    operation = .union ∨ operation = .symmetricDifference →
      ∃ both union, outcome (Value.binary .or (.set a) other) world = (.ok both, union) ∧
        SameSet world.store a later.store (.set a) union.store both

section Operands

variable {world : World} {sort : SetKind} {op : BinaryOperator} {operation : SetOperation}
  {other : Value} {a b : Ref} {after made : Table Value Value} {items : List Value}

theorem SetKind.takes_frozen (operation : SetOperation) (items : List Value) :
    SetKind.frozen.takes operation items = [] :=
  if_neg fun takes => nomatch takes.1

/-- A frozen receiver takes up nothing. -/
theorem eq_table_of_frozen (frozen : sort = .frozen)
    (inserts : (sort.takes operation items).foldlM
      (fun table item => world.store.insertKey table item item) (world.store.table a) = .ok after) :
    after = world.store.table a := by
  subst frozen
  rw [SetKind.takes_frozen] at inserts
  exact (Except.ok.inj inserts).symm

theorem Store.Operands.outcome_takes (operands : world.store.Operands sort a b)
    (subset : items ⊆ world.store.elements a ++ world.store.elements b)
    (inserts : (sort.takes operation items).foldlM
      (fun table item => world.store.insertKey table item item) (world.store.table a) = .ok after) :
    outcome (addElements a (sort.takes operation items)) world =
      (.ok (), { world with store := world.store.withTable a after }) := by
  have same := world.store.withTable_table a
  cases sort with
  | mutable =>
      refine outcome_addElements operands.known same.symm (fun key member => ?_)
        (fun item member => ?_) inserts
      · exact operands.fits rfl key (List.mem_append_left _ member)
      · exact operands.fits rfl item (subset (SetKind.takes_subset _ _ _ member))
  | frozen =>
      rw [eq_table_of_frozen rfl inserts, same, SetKind.takes_frozen]
      rfl

theorem Store.Operands.tableOfElements_eq (operands : world.store.Operands sort a b)
    (subset : items ⊆ world.store.elements a ++ world.store.elements b)
    (frozen : sort = .frozen → after = world.store.table a) :
    (world.store.withTable a after).tableOfElements items =
      world.store.tableOfElements items := by
  cases sort with
  | mutable =>
      have depth_le := (world.store.depth_withTable a after).ge
      have unchanged : ∀ item ∈ items,
          world.store.Unchanged (world.store.withTable a after) item :=
        fun item member => (operands.fits rfl item (subset member)).unchanged after
      exact Store.tableOfElements_congr
        (fun item member => Store.hash_eq_of_unchanged (unchanged item member) depth_le)
        fun key is_element _ item member _ =>
          Store.equals_eq_of_unchanged (unchanged key is_element) (unchanged item member) depth_le
  | frozen => rw [frozen rfl, Store.withTable_table]

/-- The plain operator and the operator in place add the same set, and the latter has put elements
into its receiver before. -/
theorem Store.Operands.exists_updated (operands : world.store.Operands sort a b)
    (right_table : other.setTable? = some b) (asks : SetOperation.ofOp? op = some operation) :
    ∃ items after made, world.store.combineSets operation a b = .ok items ∧
      world.store.tableOfElements items = .ok made ∧
      (sort.takes operation items).foldlM
        (fun table item => world.store.insertKey table item item) (world.store.table a) =
          .ok after ∧
      outcome (addElements a (sort.takes operation items)) world =
        (.ok (), { world with store := world.store.withTable a after }) ∧
      outcome (Value.binary op (sort.toValue a) other) world =
        (.ok (sort.toValue world.store.tables.next),
          world.updated a (world.store.table a) made) ∧
      outcome (Value.inplace op (sort.toValue a) other) world =
        (.ok (sort.toValue world.store.tables.next), world.updated a after made) := by
  obtain ⟨items, combines⟩ := Store.exists_combineSets operands.keys operation
  have subset := Store.combineSets_subset combines
  have items_keys : ∀ item ∈ items, world.store.IsKey item :=
    fun item member => operands.keys item (subset member)
  obtain ⟨made, makes⟩ := Store.exists_tableOfKeys items_keys
  obtain ⟨after, inserts⟩ := Store.exists_insertKeys
    (fun item member => items_keys item (sort.takes_subset operation items member))
    (world.store.table a)
  have adds := operands.outcome_takes subset inserts
  have same_made := operands.tableOfElements_eq subset fun frozen =>
    eq_table_of_frozen frozen inserts
  exact ⟨items, after, made, combines, makes, inserts, adds,
    outcome_binary right_table asks combines makes,
    outcome_inplace right_table asks combines adds (same_made.trans makes)⟩

end Operands

/-! ## Receivers with stable elements -/

theorem SetKind.setTable?_toValue (sort : SetKind) (ref : Ref) :
    (sort.toValue ref).setTable? = some ref := by
  cases sort <;> rfl

theorem Store.setSource?_of_setTable? {store : Store} {value : Value} {ref : Ref}
    (holds : value.setTable? = some ref) : store.setSource? value = some (store.elements ref) := by
  obtain ⟨sort, rfl⟩ := Value.exists_toValue_of_setTable? holds
  cases sort <;> rfl

theorem contains_toValue (store : Store) (sort : SetKind) (ref : Ref) (item : Value) :
    store.contains (sort.toValue ref) item = store.hasKey (store.table ref) item := by
  cases sort <;> rfl

section Stable

variable {world : World} {operation : SetOperation} {op : BinaryOperator} {other : Value}
  {a b : Ref} {after made table : Table Value Value} {items : List Value}

/-- A table of elements of the operands has the same keys in the store of the time as later. -/
theorem hasKey_updated (operands : world.store.Operands .mutable a b)
    (subset : table.keys ⊆ world.store.elements a ++ world.store.elements b) {item : Value}
    (key : world.store.IsKey item) (fits : world.store.Fits a item) :
    (world.updated a after made).store.hasKey table item =
      .ok (world.store.includes table item) := by
  have extends_to := extends_updated world a after made
  rw [Store.hasKey_eq_of_unchanged
    (fun key member => (operands.fits rfl key (subset member)).unchanged_of_extends extends_to)
    (Store.depth_le_of_extends_withTable extends_to) (fits.unchanged_of_extends extends_to),
    Store.hasKey_eq key]

/-- A receiver whose elements are equal to themselves takes up those of the right operand that it
lacks, or nothing if the operation selects none of these. -/
theorem keys_of_takes (sound : world.store.Sound) (self_equal : world.store.SelfEqual a)
    (combines : world.store.combineSets operation a b = .ok items)
    (inserts : (SetKind.mutable.takes operation items).foldlM
      (fun table item => world.store.insertKey table item item) (world.store.table a) = .ok after) :
    world.store.Keyed after ∧
      after.keys = world.store.elements a ++ (world.store.elements b).filter fun item =>
        !world.store.includes (world.store.table a) item && operation.admits false true := by
  by_cases intersects : operation = .intersection
  · subst intersects
    obtain rfl : world.store.table a = after := Except.ok.inj inserts
    refine ⟨sound.keyed a, ?_⟩
    simp [SetOperation.admits, Store.elements]
  · obtain ⟨selected, expected, combines_again, folds, keyed, keys⟩ :=
      Store.exists_insertSelected sound operation a b
    obtain rfl := Except.ok.inj (combines.symm.trans combines_again)
    rw [SetKind.takes, if_pos ⟨rfl, intersects⟩] at inserts
    obtain rfl := Except.ok.inj (folds.symm.trans inserts)
    exact ⟨keyed, by rw [keys, Store.filter_selected_of_selfEqual sound self_equal]⟩

theorem sameSet_of_keeping (operands : world.store.Operands .mutable a b)
    (sound : world.store.Sound) (self_equal : world.store.SelfEqual a)
    (combines : world.store.combineSets operation a b = .ok items)
    (inserts : (SetKind.mutable.takes operation items).foldlM
      (fun table item => world.store.insertKey table item item) (world.store.table a) = .ok after)
    (keeps : operation.admits false true = false) :
    SameSet world.store a (world.updated a after made).store (.set a) world.store (.set a) := by
  obtain ⟨keyed, keys⟩ := keys_of_takes sound self_equal combines inserts
  have same_keys : after.keys = world.store.elements a := by
    rw [keys, keeps]
    simp
  have receiver_table : (world.updated a after made).store.table a = after :=
    table_updated_receiver operands.known
  constructor
  · change some (Table.keys _) = _
    rw [receiver_table, same_keys]
    rfl
  · intro item key fits
    change Store.hasKey _ (Store.table _ a) item = world.store.hasKey _ item
    rw [receiver_table, hasKey_updated operands (same_keys ▸ List.subset_append_left _ _) key fits,
      Store.hasKey_eq key, keyed.includes_eq_of_keys_eq (sound.keyed a) same_keys]

theorem exists_sameSet_of_uniting (operands : world.store.Operands .mutable a b)
    (sound : world.store.Sound) (self_equal : world.store.SelfEqual a)
    (right_table : other.setTable? = some b)
    (combines : world.store.combineSets operation a b = .ok items)
    (inserts : (SetKind.mutable.takes operation items).foldlM
      (fun table item => world.store.insertKey table item item) (world.store.table a) = .ok after)
    (unites : operation.admits false true) :
    ∃ both union, outcome (Value.binary .or (.set a) other) world = (.ok both, union) ∧
      SameSet world.store a (world.updated a after made).store (.set a) union.store both := by
  obtain ⟨keyed, keys⟩ := keys_of_takes sound self_equal combines inserts
  obtain ⟨joined, -, whole, combines_all, makes, -, -, runs, -⟩ := operands.exists_updated
    right_table (rfl : SetOperation.ofOp? .or = some .union)
  obtain ⟨joined_again, whole_again, combines_again, makes_again, whole_keys⟩ :=
    Store.exists_combination sound .union a b
  obtain rfl := Except.ok.inj (combines_all.symm.trans combines_again)
  obtain rfl := Except.ok.inj (makes.symm.trans makes_again)
  have whole_keyed := (Store.builds_of_tableOfElements makes).keyed
  have same_keys : after.keys = whole.keys := by
    rw [keys, whole_keys, unites]
    simp [Store.selected, SetOperation.admits]
  have subset : whole.keys ⊆ world.store.elements a ++ world.store.elements b := by
    intro item member
    rw [whole_keys] at member
    exact List.mem_append.mpr (Store.mem_of_mem_selected member)
  have receiver_table : (world.updated a after made).store.table a = after :=
    table_updated_receiver operands.known
  have result_table :
      (world.updated a (world.store.table a) whole).store.table world.store.tables.next = whole :=
    table_updated_next
  refine ⟨_, _, runs, ?_, ?_⟩
  · rw [Store.setSource?_of_setTable? (SetKind.setTable?_toValue _ _)]
    change some (Table.keys _) = some (Table.keys _)
    rw [receiver_table, result_table, same_keys]
  · intro item key fits
    rw [contains_toValue, result_table, hasKey_updated operands subset key fits]
    change Store.hasKey _ (Store.table _ a) item = _
    rw [receiver_table, hasKey_updated operands (same_keys ▸ subset) key fits,
      keyed.includes_eq_of_keys_eq whole_keyed same_keys]

end Stable

theorem category_rejection (sort : SetKind) (op : BinaryOperator) (inplace : Bool) (other : Value) :
    (sort.rejection op inplace other).category = .typeError := by
  rw [SetKind.rejection]
  split_ifs <;> rfl

/-- An in-place operator between two sets makes the set that the plain operator makes. Its receiver
takes up what this set is made of, unless it is frozen or the operation is an intersection. On
anything else the operator fails and changes nothing. -/
theorem inplace_updates_receiver (world : World) (sort : SetKind) (a : Ref) (op : BinaryOperator)
    (other : Value)
    (operands : ∀ b, other.setTable? = some b → world.store.Operands sort a b) :
    (∀ operation, other.setTable?.isSome → SetOperation.ofOp? op = some operation →
      ∃ result plain later,
        outcome (Value.binary op (sort.toValue a) other) world = (.ok result, plain) ∧
        outcome (Value.inplace op (sort.toValue a) other) world = (.ok result, later) ∧
        UpdatesInPlace world sort a operation other result plain later) ∧
    (other.setTable? = none ∨ SetOperation.ofOp? op = none →
      ∃ fault, outcome (Value.inplace op (sort.toValue a) other) world = (.error fault, world) ∧
        fault.category = .typeError) := by
  constructor
  · intro operation is_set asks
    obtain ⟨b, right_table⟩ := Option.isSome_iff_exists.mp is_set
    have operands := operands b right_table
    obtain ⟨items, after, made, combines, makes, inserts, adds, plain_runs, runs⟩ :=
      operands.exists_updated right_table asks
    have receiver_table : (world.updated a after made).store.table a = after :=
      table_updated_receiver operands.known
    have extends_to := extends_updated world a after made
    refine ⟨_, _, _, plain_runs, runs,
      { kind_eq := by cases sort <;> rfl
        fresh := sort.setTable?_toValue _
        ne_receiver := ?_
        elements_eq := ?_
        receiver_eq := ⟨b, items, right_table, combines, ?_⟩
        frame := ⟨after, extends_to⟩
        frozen := fun frozen => ?_
        console_eq := rfl
        kept := ?_
        united := ?_ }⟩
    · have elsewhere : world.store.tables.next ≠ a := by
        rintro rfl
        exact Nat.lt_irrefl _ operands.known
      cases sort <;> simpa [SetKind.toValue] using elsewhere
    · have result_table := sort.setTable?_toValue world.store.tables.next
      rw [Store.setSource?_of_setTable? result_table, Store.setSource?_of_setTable? result_table,
        Store.elements, Store.elements, table_updated_next, table_updated_next]
    · rw [Store.elements, receiver_table, ← elements_addElements operands.known adds]
      exact (congrArg Table.keys (Store.table_withTable operands.known after)).symm
    · rw [eq_table_of_frozen frozen inserts] at extends_to ⊢
      rwa [Store.withTable_table] at extends_to
    · rintro rfl sound self_equal keeps
      exact sameSet_of_keeping operands sound self_equal combines inserts
        (by rcases keeps with rfl | rfl <;> rfl)
    · rintro rfl sound self_equal unites
      exact exists_sameSet_of_uniting operands sound self_equal right_table combines inserts
        (by rcases unites with rfl | rfl <;> rfl)
  · intro rejected
    refine ⟨sort.rejection op true other, ?_, category_rejection sort op true other⟩
    have inplace_eq : Value.inplace op (sort.toValue a) other = sort.inplace a op other := by
      cases sort <;> rfl
    rw [inplace_eq, SetKind.inplace]
    split
    · rename_i is_set asks
      rcases rejected with no_set | no_operation
      · rw [no_set] at is_set
        cases is_set
      · rw [no_operation] at asks
        cases asks
    · rfl

theorem operands_shelf : shelf.store.Operands .mutable ⟨1⟩ ⟨3⟩ where
  known := by decide
  keys := by
    rw [List.forall_mem_append]
    exact ⟨fun _ => (sound_shelf.keyed ⟨1⟩).isKey_of_mem,
      fun _ => (sound_shelf.keyed ⟨3⟩).isKey_of_mem⟩
  fits _ item member := by
    let values : List Value := [.frozenset ⟨0⟩, .frozenset ⟨2⟩, .int 1, .int 2, .int 3, .int 4,
      .bool true, .float ⟨0x4008000000000000⟩]
    have in_values : item ∈ values :=
      (by decide : shelf.store.elements ⟨1⟩ ++ shelf.store.elements ⟨3⟩ ⊆ values) member
    refine ⟨(List.mem_append.mp member).elim (stable_shelf.grounded ⟨1⟩ item)
      (stable_shelf.grounded ⟨3⟩ item), fun inner reaches => ?_⟩
    exact (by decide : ∀ value ∈ values, value.table? ≠ some ⟨1⟩) inner
      (reaches.mem_of_closed in_values (by decide))

/-- A symmetric difference in place takes up the one element that is new, and yields a set of two
elements. -/
theorem inplace_updates_receiver_shelf :
    shelf.store.Operands .mutable ⟨1⟩ ⟨3⟩ ∧
      ∃ result later, outcome (Value.inplace .xor (.set ⟨1⟩) (.frozenset ⟨3⟩)) shelf =
          (.ok result, later) ∧
        later.store.setSource? result = some [.int 2, .int 4] ∧
        later.store.setSource? (.set ⟨1⟩) =
          some [.frozenset ⟨0⟩, .int 2, .int 3, .int 4] := by
  have operands : ∀ b, (Value.frozenset ⟨3⟩).setTable? = some b →
      shelf.store.Operands .mutable ⟨1⟩ b := by
    rintro _ ⟨⟩
    exact operands_shelf
  have self_equal : shelf.store.SelfEqual ⟨1⟩ := by
    have checked : (shelf.store.elements ⟨1⟩).all fun item => shelf.store.equals item item := by
      cbv
    exact List.all_eq_true.mp checked
  obtain ⟨computes, -⟩ := inplace_updates_receiver shelf .mutable ⟨1⟩ .xor (.frozenset ⟨3⟩) operands
  obtain ⟨result, plain, later, plain_runs, runs, updates⟩ := computes .symmetricDifference rfl rfl
  obtain ⟨both, joined, joins, same⟩ := updates.united rfl sound_shelf self_equal (.inr rfl)
  obtain ⟨_, _, plain_again, adds⟩ := exists_binary stable_shelf .symmetricDifference
    (rfl : (Value.set ⟨1⟩).setTable? = some ⟨1⟩)
    (rfl : (Value.frozenset ⟨3⟩).setTable? = some ⟨3⟩)
  obtain ⟨_, _, joins_again, joined_adds⟩ := exists_binary stable_shelf .union
    (rfl : (Value.set ⟨1⟩).setTable? = some ⟨1⟩)
    (rfl : (Value.frozenset ⟨3⟩).setTable? = some ⟨3⟩)
  cases plain_runs.symm.trans plain_again
  cases joins.symm.trans joins_again
  have result_elements : shelf.store.selected .symmetricDifference ⟨1⟩ ⟨3⟩ = [.int 2, .int 4] := by
    cbv
  have union_elements : shelf.store.selected .union ⟨1⟩ ⟨3⟩ =
      [.frozenset ⟨0⟩, .int 2, .int 3, .int 4] := by cbv
  refine ⟨operands_shelf, _, later, runs, ?_, ?_⟩
  · rw [updates.elements_eq, Store.setSource?_of_setTable? adds.fresh, adds.elements_eq,
      result_elements]
  · rw [same.elements_eq, Store.setSource?_of_setTable? joined_adds.fresh, joined_adds.elements_eq,
      union_elements]

/-- The world after a frozenset has changed that is the element of a set, with an empty set. -/
def outdated : World :=
  (outcome (do
    let changing ← newSet .frozen []
    let _ ← newSet .mutable [changing]
    addElement ⟨0⟩ (.int 1)
    newSet .mutable []) {}).2

/-- Without stable keys a difference in place can add elements that are equal to themselves to a set
that they have been stored in. -/
theorem not_kept_of_outdated :
    ¬ ∀ (world : World) (a b : Ref), world.store.Operands .mutable a b →
      world.store.SelfEqual a → ∀ result later,
        outcome (Value.inplace .sub (.set a) (.set b)) world = (.ok result, later) →
          later.store.elements a = world.store.elements a := by
  intro always
  have elements : outdated.store.elements ⟨1⟩ = [.frozenset ⟨0⟩] := by cbv
  have no_elements : outdated.store.elements ⟨2⟩ = [] := by cbv
  have operands : outdated.store.Operands .mutable ⟨1⟩ ⟨2⟩ := by
    refine ⟨by cbv, ?_, ?_⟩
    · rw [elements, no_elements]
      exact List.forall_mem_singleton.mpr ⟨_, rfl⟩
    · intro _
      rw [elements, no_elements]
      have inside : outdated.store.contents (.frozenset ⟨0⟩) = [.int 1, .int 1] := by cbv
      have no_parts : outdated.store.contents (.int 1) = [] := rfl
      have closed : ∀ value ∈ [.frozenset ⟨0⟩, .int 1],
          outdated.store.contents value ⊆ [.frozenset ⟨0⟩, .int 1] := by
        simp [inside, no_parts]
      have known : ∀ value ∈ [.frozenset ⟨0⟩, .int 1], outdated.store.knows value := by
        simp only [List.forall_mem_cons]
        exact ⟨by cbv, by cbv, List.forall_mem_nil _⟩
      have nests : ∀ value ∈ [.frozenset ⟨0⟩, .int 1],
          Value.nestsWithin outdated.store.contents 2 value := by
        simp only [List.forall_mem_cons]
        exact ⟨by cbv, by cbv, List.forall_mem_nil _⟩
      refine List.forall_mem_singleton.mpr
        ⟨Store.grounded_of_closed known closed nests _ List.mem_cons_self, fun inner reaches => ?_⟩
      exact (by decide : ∀ value ∈ [.frozenset ⟨0⟩, .int 1], Value.table? value ≠ some ⟨1⟩) inner
        (reaches.mem_of_closed List.mem_cons_self closed)
  have self_equal : outdated.store.SelfEqual ⟨1⟩ := by
    rw [Store.SelfEqual, elements]
    exact List.forall_mem_singleton.mpr (by cbv)
  have adds : (outcome (Value.inplace .sub (.set ⟨1⟩) (.set ⟨2⟩)) outdated).2.store.elements ⟨1⟩ =
      [.frozenset ⟨0⟩, .frozenset ⟨0⟩] := by cbv
  have ends : (outcome (Value.inplace .sub (.set ⟨1⟩) (.set ⟨2⟩)) outdated).1 =
      .ok (.set ⟨3⟩) := by cbv
  have same := always outdated ⟨1⟩ ⟨2⟩ operands self_equal _ _ (Prod.ext ends rfl)
  rw [adds, elements] at same
  contradiction

end ObjectModel
