import ObjectModel.Proofs.Store.Advances
import ObjectModel.Proofs.Table.Slots

/-!
# Cursors

A cursor has some elements remaining, and passes over the first of them. A mapping gets the iterator
over its source once. Neither moves another cursor or changes the contents of an object.
-/

namespace ObjectModel

namespace Store

/-- The elements that a cursor has not handed out yet. -/
def remaining (store : Store) : Value → List Value
  | .listIterator ref =>
    let cursor := store.listCursors.get ref
    (store.list cursor.target).drop cursor.place
  | .setIterator ref | .dictKeyIterator ref =>
    let cursor := store.keyCursors.get ref
    ((store.table cursor.target).ahead cursor.place).map (·.key)
  | .seqIterator ref => store.sequenceCursors.get ref
  | _ => []

/-- What the container of a cursor now holds from the place on at which the cursor stood earlier. -/
def remainingSince (store earlier : Store) : Value → List Value
  | .listIterator ref =>
    let cursor := earlier.listCursors.get ref
    (store.list cursor.target).drop cursor.place
  | .setIterator ref | .dictKeyIterator ref =>
    let cursor := earlier.keyCursors.get ref
    ((store.table cursor.target).ahead cursor.place).map (·.key)
  | .seqIterator ref => earlier.sequenceCursors.get ref
  | _ => []

/-- Where a mapping takes its elements from: the iterator over its source, and before it has one the
source itself. -/
def feed (store : Store) (ref : Ref) : Value :=
  (store.mappings.get ref).iterator.getD (store.mappings.get ref).source

/-- The store after a cursor has passed over its next element. -/
def pass (store : Store) : Value → Store
  | .listIterator ref =>
    let cursor := store.listCursors.get ref
    let moved := { cursor with place := cursor.place + 1 }
    { store with listCursors := store.listCursors.set ref moved }
  | .setIterator ref | .dictKeyIterator ref =>
    let cursor := store.keyCursors.get ref
    let moved := { cursor with place := (store.table cursor.target).placeAfter cursor.place }
    { store with keyCursors := store.keyCursors.set ref moved }
  | .seqIterator ref =>
    let rest := (store.sequenceCursors.get ref).tail
    { store with sequenceCursors := store.sequenceCursors.set ref rest }
  | _ => store

/-- Whether a cursor has been made. -/
def hasCursor (store : Store) : Value → Bool
  | .listIterator ref => ref.index < store.listCursors.size
  | .setIterator ref | .dictKeyIterator ref => ref.index < store.keyCursors.size
  | .seqIterator ref => ref.index < store.sequenceCursors.size
  | _ => false

/-- The store after a mapping has got the iterator over its source. -/
def resolve (store : Store) (ref : Ref) (iterator : Value) : Store :=
  let resolved := { store.mappings.get ref with iterator := some iterator }
  { store with mappings := store.mappings.set ref resolved }

/-- The later store has the same objects and the same iterators, and perhaps further cursors. -/
structure GainsCursors (store later : Store) : Prop where
  buffers_eq : later.buffers = store.buffers
  tuples_eq : later.tuples = store.tuples
  lists_eq : later.lists = store.lists
  tables_eq : later.tables = store.tables
  records_eq : later.records = store.records
  mappings_eq : later.mappings = store.mappings
  listCursors : store.listCursors.Retains (fun _ => True) later.listCursors
  keyCursors : store.keyCursors.Retains (fun _ => True) later.keyCursors
  sequenceCursors : store.sequenceCursors.Retains (fun _ => True) later.sequenceCursors

variable {store later : Store} {cursor : Value} {spared : Value → Prop}

/-- A mapping with a source has been made. -/
theorem lt_size_of_source_ne {ref : Ref} (some_source : (store.mappings.get ref).source ≠ .none) :
    ref.index < store.mappings.size :=
  Pool.lt_size_of_get_ne fun absent => some_source (congrArg Mapping.source absent)

/-- A mapping with an iterator has been made. -/
theorem lt_size_of_iterator_eq {ref : Ref} {iterator : Value}
    (held : (store.mappings.get ref).iterator = some iterator) :
    ref.index < store.mappings.size :=
  Pool.lt_size_of_get_ne fun absent => nomatch held.symm.trans (congrArg Mapping.iterator absent)

theorem isCursor_of_hasCursor (has : store.hasCursor cursor) : cursor.isCursor := by
  cases cursor <;> first | rfl | contradiction

theorem remaining_pass (has : store.hasCursor cursor) :
    (store.pass cursor).remaining cursor = (store.remaining cursor).tail := by
  have of_table : ∀ ref : Ref, ref.index < store.keyCursors.size →
      (store.pass (.setIterator ref)).remaining (.setIterator ref) =
        (store.remaining (.setIterator ref)).tail := by
    intro ref known
    simp [remaining, pass, known, table, Table.ahead_placeAfter]
  cases cursor with
  | listIterator ref =>
      have known : ref.index < store.listCursors.size := of_decide_eq_true has
      simp [remaining, pass, known, list]
  | setIterator ref => exact of_table ref (of_decide_eq_true has)
  | dictKeyIterator ref => exact of_table ref (of_decide_eq_true has)
  | seqIterator ref =>
      have known : ref.index < store.sequenceCursors.size := of_decide_eq_true has
      simp [remaining, pass, known]
  | _ => contradiction

theorem Advances.hasCursor (advances : store.Advances later)
    (has : store.hasCursor cursor) : later.hasCursor cursor := by
  cases cursor <;> simp only [Store.hasCursor, decide_eq_true_eq] at has ⊢
  case listIterator => exact has.trans_le advances.listCursors.size_le
  case seqIterator => exact has.trans_le advances.sequenceCursors.size_le
  all_goals first | contradiction | exact has.trans_le advances.keyCursors.size_le

theorem Advances.iterator_eq (advances : store.Advances later) {ref : Ref} {iterator : Value}
    (held : (store.mappings.get ref).iterator = some iterator) :
    (later.mappings.get ref).iterator = some iterator :=
  (advances.mappings.get ref (lt_size_of_iterator_eq held)).kept iterator held

/-- As cursors move forward only, what remains for one was put at its earlier place or beyond. -/
theorem remaining_suffix (has : store.hasCursor cursor) (advances : store.Advances later) :
    later.remaining cursor <:+ later.remainingSince store cursor := by
  have of_table : ∀ ref : Ref, ref.index < store.keyCursors.size →
      later.remaining (.setIterator ref) <:+ later.remainingSince store (.setIterator ref) := by
    intro ref known
    obtain ⟨same_target, further⟩ := advances.keyCursors.get ref known
    rw [remaining, remainingSince, same_target]
    exact (Table.ahead_suffix _ further).map _
  cases cursor with
  | listIterator ref =>
      obtain ⟨same_target, further⟩ := advances.listCursors.get ref (of_decide_eq_true has)
      rw [remaining, remainingSince, same_target]
      exact List.drop_suffix_drop_left _ further
  | setIterator ref => exact of_table ref (of_decide_eq_true has)
  | dictKeyIterator ref => exact of_table ref (of_decide_eq_true has)
  | seqIterator ref => exact advances.sequenceCursors.get ref (of_decide_eq_true has)
  | _ => contradiction

theorem spares_pass (store : Store) (cursor : Value) : store.Spares spared (store.pass cursor) := by
  cases cursor with
  | listIterator ref => exact store.spares_setListCursor ref _
  | setIterator ref => exact store.spares_setKeyCursor ref _
  | dictKeyIterator ref => exact store.spares_setKeyCursor ref _
  | seqIterator ref => exact store.spares_setSequenceCursor ref _
  | _ => exact .refl store

theorem advances_pass (store : Store) (cursor : Value) : store.Advances (store.pass cursor) := by
  cases cursor with
  | listIterator ref => exact store.advances_setListCursor ⟨rfl, Nat.le_succ _⟩
  | setIterator ref => exact store.advances_setKeyCursor ⟨rfl, Table.le_placeAfter _ _⟩
  | dictKeyIterator ref => exact store.advances_setKeyCursor ⟨rfl, Table.le_placeAfter _ _⟩
  | seqIterator ref => exact store.advances_setSequenceCursor (List.tail_suffix _)
  | _ => exact .refl store

/-- No cursor moves when a mapping gets its iterator. -/
theorem remaining_resolve (store : Store) (ref : Ref) (iterator cursor : Value) :
    (store.resolve ref iterator).remaining cursor = store.remaining cursor := by
  cases cursor <;> rfl

theorem hasCursor_resolve (store : Store) (ref : Ref) (iterator cursor : Value) :
    (store.resolve ref iterator).hasCursor cursor = store.hasCursor cursor := by
  cases cursor <;> rfl

theorem function_resolve (store : Store) (ref : Ref) (iterator : Value) (other : Ref) :
    ((store.resolve ref iterator).mappings.get other).function =
      (store.mappings.get other).function := by
  by_cases same : other = ref
  · subst same
    rcases store.mappings.get_set_eq_or other
      { store.mappings.get other with iterator := some iterator } other with new | old
    · exact (congrArg Mapping.function new).trans rfl
    · exact congrArg Mapping.function old
  · rw [resolve, Pool.get_set_of_ne _ _ same]

theorem iterator_resolve {ref : Ref} {iterator : Value} (known : ref.index < store.mappings.size) :
    ((store.resolve ref iterator).mappings.get ref).iterator = some iterator := by
  rw [resolve, Pool.get_set_self _ _ known]

theorem advances_resolve {ref : Ref} {iterator : Value}
    (unopened : (store.mappings.get ref).iterator = none)
    (own : (store.mappings.get ref).source.CanHave iterator) :
    store.Advances (store.resolve ref iterator) := by
  apply store.advances_setMapping
  refine ⟨rfl, rfl, by simp [unopened], fun other held => .inr ?_⟩
  rwa [← Option.some.inj held]

/-! ## Further cursors -/

theorem GainsCursors.refl (store : Store) : store.GainsCursors store where
  buffers_eq := rfl
  tuples_eq := rfl
  lists_eq := rfl
  tables_eq := rfl
  records_eq := rfl
  mappings_eq := rfl
  listCursors := .refl _
  keyCursors := .refl _
  sequenceCursors := .refl _

theorem gainsCursors_addListCursor (store : Store) (cursor : Cursor) :
    store.GainsCursors { store with listCursors := store.listCursors.push cursor } :=
  { GainsCursors.refl store with listCursors := store.listCursors.retains_push cursor }

theorem gainsCursors_addKeyCursor (store : Store) (cursor : Cursor) :
    store.GainsCursors { store with keyCursors := store.keyCursors.push cursor } :=
  { GainsCursors.refl store with keyCursors := store.keyCursors.retains_push cursor }

theorem gainsCursors_addSequenceCursor (store : Store) (items : List Value) :
    store.GainsCursors { store with sequenceCursors := store.sequenceCursors.push items } :=
  { GainsCursors.refl store with sequenceCursors := store.sequenceCursors.retains_push items }

/-- When a cursor that is new passes over an element, none of those before moves. -/
theorem GainsCursors.pass (gains : store.GainsCursors later)
    (fresh : store.hasCursor cursor = false) : store.GainsCursors (later.pass cursor) := by
  have retains_set {α : Type} [Inhabited α] {pool after : Pool α} {ref : Ref} (contents : α)
      (retains : pool.Retains (fun _ => True) after) (beyond : ¬ref.index < pool.size) :
      pool.Retains (fun _ => True) (after.set ref contents) :=
    { size_le := retains.size_le.trans (after.size_set ref contents).ge
      get_eq := fun other known _ => by
        rw [Pool.get_set_of_ne, retains.get_eq other known trivial]
        rintro rfl
        exact beyond known }
  cases cursor with
  | listIterator ref =>
      exact { gains with
        listCursors := retains_set _ gains.listCursors (of_decide_eq_false fresh) }
  | setIterator ref | dictKeyIterator ref =>
      exact { gains with keyCursors := retains_set _ gains.keyCursors (of_decide_eq_false fresh) }
  | seqIterator ref =>
      exact { gains with
        sequenceCursors := retains_set _ gains.sequenceCursors (of_decide_eq_false fresh) }
  | _ => exact gains

end Store

end ObjectModel
