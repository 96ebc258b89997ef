import ObjectModel.Proofs.Store.Spares

/-!
# Iterators move forward only

In a later store every iterator is still there and has not moved back: a cursor looks at the same
container at the same place or further on, a cursor over a sequence has some of the last items of
what it had ahead, and a mapping has the same function and source, and keeps its iterator once it
has one.
-/

namespace ObjectModel

/-- Whether the value is an iterator over a container or a sequence. -/
def Value.isCursor : Value → Bool
  | .listIterator _ | .setIterator _ | .dictKeyIterator _ | .seqIterator _ => true
  | _ => false

/-- Whether the value is an iterator of either sort: a cursor or a mapping. -/
def Value.isIterator : Value → Bool
  | .map _ => true
  | value => value.isCursor

theorem Value.isIterator_of_isCursor {value : Value} (is_cursor : value.isCursor) :
    value.isIterator := by
  cases value <;> first | rfl | contradiction

/-- An iterator is a cursor or a mapping. -/
theorem Value.isCursor_or_map {value : Value} (is_iterator : value.isIterator) :
    value.isCursor ∨ ∃ ref, value = .map ref := by
  cases value <;> first | exact .inl rfl | exact .inr ⟨_, rfl⟩ | contradiction

/-- A source can have the iterator: an iterator only itself, and everything else a cursor. -/
def Value.CanHave (source iterator : Value) : Prop :=
  if source.isIterator then iterator = source else iterator.isCursor

namespace Pool

variable {α : Type} [Inhabited α] {related : α → α → Prop} {pool later last : Pool α}

theorem lt_size_of_get_ne {ref : Ref} (made : pool.get ref ≠ default) :
    ref.index < pool.size := by
  by_contra unknown
  refine made ?_
  rw [get, Array.getD_eq_getD_getElem?, Array.getElem?_eq_none (Nat.le_of_not_lt unknown)]
  rfl

/-- No object is lost, and the contents of each are related to what they were. -/
structure Moves (related : α → α → Prop) (pool later : Pool α) : Prop where
  size_le : pool.size ≤ later.size
  get : ∀ ref, ref.index < pool.size → related (pool.get ref) (later.get ref)

theorem Moves.refl (reflexive : ∀ contents, related contents contents) (pool : Pool α) :
    pool.Moves related pool where
  size_le := le_rfl
  get ref _ := reflexive (pool.get ref)

theorem Moves.trans (transitive : ∀ {a b c}, related a b → related b c → related a c)
    (first : pool.Moves related later) (second : later.Moves related last) :
    pool.Moves related last where
  size_le := first.size_le.trans second.size_le
  get ref known := transitive (first.get ref known) (second.get ref (known.trans_le first.size_le))

theorem moves_push (reflexive : ∀ contents, related contents contents) (pool : Pool α)
    (contents : α) : pool.Moves related (pool.push contents) :=
  have retains : pool.Retains (fun _ => True) (pool.push contents) := pool.retains_push contents
  { size_le := retains.size_le
    get := fun ref known => by
      rw [retains.get_eq ref known trivial]
      exact reflexive _ }

theorem moves_set (reflexive : ∀ contents, related contents contents) (pool : Pool α) {ref : Ref}
    {contents : α} (moved : related (pool.get ref) contents) :
    pool.Moves related (pool.set ref contents) where
  size_le := (pool.size_set ref contents).ge
  get other known := by
    by_cases same : other = ref
    · rw [same] at known ⊢
      rwa [pool.get_set_self contents known]
    · rw [pool.get_set_of_ne contents same]
      exact reflexive _

end Pool

/-- The cursor looks at the same container, at the same place or further on. -/
def Cursor.Advances (cursor later : Cursor) : Prop :=
  later.target = cursor.target ∧ cursor.place ≤ later.place

/-- The items are some of the last of those that were ahead. -/
def ItemsAdvance (items later : List Value) : Prop :=
  later <:+ items

/-- The mapping has the same function and source, and keeps its iterator once it has one. -/
structure Mapping.Advances (mapping later : Mapping) : Prop where
  function_eq : later.function = mapping.function
  source_eq : later.source = mapping.source
  kept : ∀ iterator, mapping.iterator = some iterator → later.iterator = some iterator
  own : ∀ iterator, later.iterator = some iterator →
    mapping.iterator = some iterator ∨ mapping.source.CanHave iterator

theorem Cursor.Advances.refl (cursor : Cursor) : cursor.Advances cursor :=
  ⟨rfl, le_rfl⟩

theorem Cursor.Advances.trans {cursor later last : Cursor} (first : cursor.Advances later)
    (second : later.Advances last) : cursor.Advances last :=
  ⟨second.1.trans first.1, first.2.trans second.2⟩

theorem ItemsAdvance.refl (items : List Value) : ItemsAdvance items items :=
  items.suffix_refl

theorem ItemsAdvance.trans {items later last : List Value} (first : ItemsAdvance items later)
    (second : ItemsAdvance later last) : ItemsAdvance items last :=
  List.IsSuffix.trans second first

theorem Mapping.Advances.refl (mapping : Mapping) : mapping.Advances mapping where
  function_eq := rfl
  source_eq := rfl
  kept _ held := held
  own _ held := .inl held

theorem Mapping.Advances.trans {mapping later last : Mapping} (first : mapping.Advances later)
    (second : later.Advances last) : mapping.Advances last where
  function_eq := second.function_eq.trans first.function_eq
  source_eq := second.source_eq.trans first.source_eq
  kept iterator held := second.kept iterator (first.kept iterator held)
  own iterator held := by
    rcases second.own iterator held with before | own
    · exact first.own iterator before
    · exact .inr (first.source_eq ▸ own)

namespace Store

/-- No iterator is lost in a later store, and none has moved back. -/
structure Advances (store later : Store) : Prop where
  listCursors : store.listCursors.Moves Cursor.Advances later.listCursors
  keyCursors : store.keyCursors.Moves Cursor.Advances later.keyCursors
  sequenceCursors : store.sequenceCursors.Moves ItemsAdvance later.sequenceCursors
  mappings : store.mappings.Moves Mapping.Advances later.mappings

variable {store later last : Store}

theorem Advances.refl (store : Store) : store.Advances store where
  listCursors := .refl .refl _
  keyCursors := .refl .refl _
  sequenceCursors := .refl .refl _
  mappings := .refl .refl _

theorem Advances.trans (first : store.Advances later) (second : later.Advances last) :
    store.Advances last where
  listCursors := first.listCursors.trans .trans second.listCursors
  keyCursors := first.keyCursors.trans .trans second.keyCursors
  sequenceCursors := first.sequenceCursors.trans .trans second.sequenceCursors
  mappings := first.mappings.trans .trans second.mappings

/-- A change of contents moves no iterator. -/
theorem advances_withContents (store : Store) {buffers : Pool (List UInt8)}
    {tuples lists : Pool (List Value)} {tables : Pool (Table Value Value)}
    {records : Pool (List (String × Value))} :
    store.Advances { store with buffers, tuples, lists, tables, records } where
  listCursors := .refl .refl _
  keyCursors := .refl .refl _
  sequenceCursors := .refl .refl _
  mappings := .refl .refl _

/-! ## New iterators -/

theorem advances_addListCursor (store : Store) (cursor : Cursor) :
    store.Advances { store with listCursors := store.listCursors.push cursor } :=
  { Advances.refl store with listCursors := store.listCursors.moves_push .refl cursor }

theorem advances_addKeyCursor (store : Store) (cursor : Cursor) :
    store.Advances { store with keyCursors := store.keyCursors.push cursor } :=
  { Advances.refl store with keyCursors := store.keyCursors.moves_push .refl cursor }

theorem advances_addSequenceCursor (store : Store) (items : List Value) :
    store.Advances { store with sequenceCursors := store.sequenceCursors.push items } :=
  { Advances.refl store with sequenceCursors := store.sequenceCursors.moves_push .refl items }

theorem advances_addMapping (store : Store) (mapping : Mapping) :
    store.Advances { store with mappings := store.mappings.push mapping } :=
  { Advances.refl store with mappings := store.mappings.moves_push .refl mapping }

/-! ## Moves of one iterator -/

theorem advances_setListCursor (store : Store) {ref : Ref} {cursor : Cursor}
    (moved : (store.listCursors.get ref).Advances cursor) :
    store.Advances { store with listCursors := store.listCursors.set ref cursor } :=
  { Advances.refl store with listCursors := store.listCursors.moves_set .refl moved }

theorem advances_setKeyCursor (store : Store) {ref : Ref} {cursor : Cursor}
    (moved : (store.keyCursors.get ref).Advances cursor) :
    store.Advances { store with keyCursors := store.keyCursors.set ref cursor } :=
  { Advances.refl store with keyCursors := store.keyCursors.moves_set .refl moved }

theorem advances_setSequenceCursor (store : Store) {ref : Ref} {items : List Value}
    (moved : ItemsAdvance (store.sequenceCursors.get ref) items) :
    store.Advances { store with sequenceCursors := store.sequenceCursors.set ref items } :=
  { Advances.refl store with sequenceCursors := store.sequenceCursors.moves_set .refl moved }

theorem advances_setMapping (store : Store) {ref : Ref} {mapping : Mapping}
    (moved : (store.mappings.get ref).Advances mapping) :
    store.Advances { store with mappings := store.mappings.set ref mapping } :=
  { Advances.refl store with mappings := store.mappings.moves_set .refl moved }

end Store
end ObjectModel
