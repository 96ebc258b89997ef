import ObjectModel.Proofs.Store.Cursors

/-!
# Undisturbed iteration

Iteration is undisturbed as long as every container keeps its contents, no iterator moves back, and
a mapping that gets its iterator gets one over its source. New objects and steps of iterators do not
disturb it. What remains for a cursor then only becomes less.
-/

namespace ObjectModel

/-- Whether the value holds elements that an iterator can begin with. -/
def Value.holdsItems : Value → Bool
  | .list _ | .tuple _ | .str _ | .bytes _ | .bytearray _ | .set _ | .frozenset _ | .dict _ => true
  | _ => false

theorem Value.not_iterator_of_holdsItems {value : Value} (holds : value.holdsItems) :
    value.isIterator = false := by
  cases value <;> first | rfl | contradiction

namespace Store

/-- The elements that an iterator over a container begins with. -/
def items (store : Store) : Value → List Value
  | .list ref => store.list ref
  | .tuple ref => store.tuple ref
  | .set ref | .frozenset ref | .dict ref => store.elements ref
  | .str text => text.toList.map Value.char
  | .bytes contents => contents.map Value.byte
  | .bytearray ref => (store.buffer ref).map Value.byte
  | _ => []

/-- The object of a value has been made, and so has the container that a cursor looks at. -/
def Made (store : Store) : Value → Prop
  | .listIterator ref => ref.index < store.listCursors.size ∧
      (store.listCursors.get ref).target.index < store.lists.size
  | .setIterator ref | .dictKeyIterator ref => ref.index < store.keyCursors.size ∧
      (store.keyCursors.get ref).target.index < store.tables.size
  | .seqIterator ref => ref.index < store.sequenceCursors.size
  | .map ref => ref.index < store.mappings.size
  | value => store.knows value

/-- An iterator goes over a source: over an iterator only that itself, and over a container a cursor
for which some of the last items of the container remain. -/
def IteratesOver (store : Store) (source iterator : Value) : Prop :=
  if source.isIterator then iterator = source
  else iterator.isCursor ∧ store.Made iterator ∧ store.remaining iterator <:+ store.items source

/-- A mapping that gets its iterator gets one over its source. -/
def OpensOver (store later : Store) : Prop :=
  ∀ ref iterator, ref.index < store.mappings.size →
    store.knows (store.mappings.get ref).source → (store.mappings.get ref).iterator = none →
      (later.mappings.get ref).iterator = some iterator →
        later.IteratesOver (store.mappings.get ref).source iterator

/-- Containers keep their contents, iterators move forward only, and a mapping that gets an iterator
gets one over its source. -/
structure Undisturbed (store later : Store) : Prop where
  spares : store.Spares (fun _ => True) later
  advances : store.Advances later
  opened : store.OpensOver later

variable {store later last : Store} {value source iterator : Value}

/-! ## What has been made -/

theorem Made.knows (made : store.Made value) : store.knows value := by
  cases value with
  | listIterator | setIterator | dictKeyIterator | seqIterator | map => rfl
  | _ => exact made

theorem Made.hasCursor (made : store.Made value) (is_cursor : value.isCursor) :
    store.hasCursor value := by
  cases value with
  | listIterator | setIterator | dictKeyIterator => exact decide_eq_true made.1
  | seqIterator => exact decide_eq_true made
  | _ => contradiction

theorem made_resolve_iff {ref : Ref} {held : Value} :
    (store.resolve ref held).Made value ↔ store.Made value := by
  cases value with
  | map other => simp only [Made, resolve, Pool.size_set]
  | _ => exact Iff.rfl

theorem items_resolve (store : Store) (ref : Ref) (held source : Value) :
    (store.resolve ref held).items source = store.items source := by
  cases source <;> rfl

theorem iteratesOver_resolve_iff {ref : Ref} {held : Value} :
    (store.resolve ref held).IteratesOver source iterator ↔ store.IteratesOver source iterator := by
  rw [IteratesOver, IteratesOver, remaining_resolve, items_resolve, made_resolve_iff]

theorem GainsCursors.items_eq (gains : store.GainsCursors later) (source : Value) :
    later.items source = store.items source := by
  cases source with
  | list ref => exact congrArg (Pool.get · ref) gains.lists_eq
  | tuple ref => exact congrArg (Pool.get · ref) gains.tuples_eq
  | set ref | frozenset ref | dict ref =>
      exact congrArg (fun tables => (tables.get ref).keys) gains.tables_eq
  | bytearray ref =>
      exact congrArg (fun buffers => (buffers.get ref).map Value.byte) gains.buffers_eq
  | _ => rfl

/-! ## Mappings that get their iterator -/

theorem opensOver_of_mappings_eq (mappings_eq : later.mappings = store.mappings) :
    store.OpensOver later := by
  intro ref iterator _ _ unopened opened
  rw [mappings_eq, unopened] at opened
  contradiction

theorem opensOver_addMapping (store : Store) (mapping : Mapping) :
    store.OpensOver { store with mappings := store.mappings.push mapping } := by
  intro ref iterator known _ unopened opened
  have retains : store.mappings.Retains (fun _ => True) (store.mappings.push mapping) :=
    store.mappings.retains_push mapping
  dsimp only at opened
  rw [retains.get_eq ref known trivial, unopened] at opened
  contradiction

theorem opensOver_resolve {ref : Ref}
    (opens_over : store.knows (store.mappings.get ref).source →
      store.IteratesOver (store.mappings.get ref).source iterator) :
    store.OpensOver (store.resolve ref iterator) := by
  intro other held known source_known unopened opened
  by_cases same : other = ref
  · subst same
    rw [iterator_resolve known] at opened
    obtain rfl := Option.some.inj opened
    exact iteratesOver_resolve_iff.mpr (opens_over source_known)
  · rw [resolve, Pool.get_set_of_ne _ _ same, unopened] at opened
    contradiction

/-! ## What stays -/

theorem Undisturbed.table_eq (undisturbed : store.Undisturbed later) {ref : Ref}
    (known : ref.index < store.tables.size) : later.table ref = store.table ref :=
  undisturbed.spares.tables.get_eq ref known ⟨.set ref, rfl, trivial⟩

theorem Undisturbed.items_eq (undisturbed : store.Undisturbed later)
    (known : store.knows value) : later.items value = store.items value := by
  cases value with
  | list ref => exact undisturbed.spares.lists.get_eq ref (of_decide_eq_true known) trivial
  | tuple ref => exact undisturbed.spares.tuples.get_eq ref (of_decide_eq_true known) trivial
  | set ref | frozenset ref | dict ref =>
      exact congrArg Table.keys (undisturbed.table_eq (of_decide_eq_true known))
  | bytearray ref =>
      exact congrArg (List.map Value.byte)
        (undisturbed.spares.buffers.get_eq ref (of_decide_eq_true known) trivial)
  | _ => rfl

theorem Made.kept (made : store.Made value) (undisturbed : store.Undisturbed later) :
    later.Made value := by
  have knows := undisturbed.spares.knows made.knows
  have of_keys : ∀ ref : Ref, ref.index < store.keyCursors.size ∧
      (store.keyCursors.get ref).target.index < store.tables.size →
      ref.index < later.keyCursors.size ∧
        (later.keyCursors.get ref).target.index < later.tables.size := by
    rintro ref ⟨known, target_known⟩
    rw [(undisturbed.advances.keyCursors.get ref known).1]
    exact ⟨known.trans_le undisturbed.advances.keyCursors.size_le,
      target_known.trans_le undisturbed.spares.tables.size_le⟩
  cases value with
  | listIterator ref =>
      obtain ⟨known, target_known⟩ := made
      refine ⟨known.trans_le undisturbed.advances.listCursors.size_le, ?_⟩
      rw [(undisturbed.advances.listCursors.get ref known).1]
      exact target_known.trans_le undisturbed.spares.lists.size_le
  | setIterator ref | dictKeyIterator ref => exact of_keys ref made
  | seqIterator ref => exact made.trans_le undisturbed.advances.sequenceCursors.size_le
  | map ref => exact made.trans_le undisturbed.advances.mappings.size_le
  | _ => exact knows

theorem Undisturbed.remaining_suffix (undisturbed : store.Undisturbed later)
    (made : store.Made value) (is_cursor : value.isCursor) :
    later.remaining value <:+ store.remaining value := by
  have suffix := Store.remaining_suffix (made.hasCursor is_cursor) undisturbed.advances
  suffices same : later.remainingSince store value = store.remaining value by rwa [same] at suffix
  cases value with
  | listIterator ref =>
      exact congrArg (List.drop _) (undisturbed.spares.lists.get_eq _ made.2 trivial)
  | setIterator ref | dictKeyIterator ref =>
      rw [remainingSince, remaining, undisturbed.table_eq made.2]
  | seqIterator ref => rfl
  | _ => contradiction

theorem IteratesOver.kept (goes_over : store.IteratesOver source iterator)
    (known : store.knows source) (undisturbed : store.Undisturbed later) :
    later.IteratesOver source iterator := by
  rw [IteratesOver] at goes_over ⊢
  split
  · rwa [if_pos ‹_›] at goes_over
  · rw [if_neg ‹_›] at goes_over
    obtain ⟨is_cursor, made, suffix⟩ := goes_over
    rw [undisturbed.items_eq known]
    exact ⟨is_cursor, made.kept undisturbed,
      (undisturbed.remaining_suffix made is_cursor).trans suffix⟩

theorem Undisturbed.refl (store : Store) : store.Undisturbed store where
  spares := .refl store
  advances := .refl store
  opened _ _ _ _ unopened opened := nomatch unopened.symm.trans opened

theorem Undisturbed.trans (first : store.Undisturbed later) (second : later.Undisturbed last) :
    store.Undisturbed last where
  spares := first.spares.trans second.spares
  advances := first.advances.trans second.advances
  opened ref iterator known source_known unopened opened := by
    have moved := first.advances.mappings.get ref known
    have known_later := known.trans_le first.advances.mappings.size_le
    have source_known_later := first.spares.knows source_known
    cases held : (later.mappings.get ref).iterator with
    | none =>
        rw [← moved.source_eq]
        rw [← moved.source_eq] at source_known_later
        exact second.opened ref iterator known_later source_known_later held opened
    | some between =>
        have same := second.advances.iterator_eq held
        obtain rfl := Option.some.inj (same.symm.trans opened)
        exact (first.opened ref between known source_known unopened held).kept
          source_known_later second

/-! ## Changes that do not disturb iteration -/

theorem undisturbed_of_mappings_eq (spares : store.Spares (fun _ => True) later)
    (advances : store.Advances later) (mappings_eq : later.mappings = store.mappings) :
    store.Undisturbed later :=
  ⟨spares, advances, opensOver_of_mappings_eq mappings_eq⟩

theorem undisturbed_pass (store : Store) (cursor : Value) :
    store.Undisturbed (store.pass cursor) := by
  refine undisturbed_of_mappings_eq (spares_pass store cursor) (advances_pass store cursor) ?_
  cases cursor <;> rfl

end Store
end ObjectModel
