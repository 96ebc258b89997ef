import ObjectModel.Proofs.Store.Soundness
import ObjectModel.Proofs.Store.Undisturbed

/-!
# The courses of a store

A store changes in small steps: an object is added, the contents of one are replaced, a mapping gets
the iterator over its source, or a cursor yields an element and passes over it. A course is a
sequence of such steps, and keeps a record of the elements that cursors have yielded on the way.
-/

namespace ObjectModel
namespace Store

/-- Every table of the store is indexed. -/
def Indexed (store : Store) : Prop :=
  ∀ ref, (store.table ref).Indexed

/-- The later store has one object more. A cursor that comes is at its beginning, and a table that
comes is indexed if the others are. -/
inductive Adds (store : Store) : Store → Prop
  | buffer (bytes : List UInt8) :
      Adds store { store with buffers := store.buffers.push bytes }
  | tuple (items : List Value) :
      Adds store { store with tuples := store.tuples.push items }
  | list (items : List Value) :
      Adds store { store with lists := store.lists.push items }
  | table (table : Table Value Value) (indexed : store.Indexed → table.Indexed) :
      Adds store { store with tables := store.tables.push table }
  | record (fields : List (String × Value)) :
      Adds store { store with records := store.records.push fields }
  | listCursor (target : Ref) :
      Adds store { store with listCursors := store.listCursors.push { target } }
  | keyCursor (target : Ref) :
      Adds store { store with keyCursors := store.keyCursors.push { target } }
  | sequenceCursor (items : List Value) :
      Adds store { store with sequenceCursors := store.sequenceCursors.push items }
  | mapping (function source : Value) :
      Adds store { store with mappings := store.mappings.push { function, source } }

/-- A change in which no cursor yields an element: there is a new object, an object has other
contents, or a mapping that had no iterator has one. -/
inductive Edits (store : Store) : Store → Prop
  | adds {later : Store} (adds : store.Adds later) : Edits store later
  | setBuffer (ref : Ref) (bytes : List UInt8) :
      Edits store { store with buffers := store.buffers.set ref bytes }
  | setList (ref : Ref) (items : List Value) :
      Edits store { store with lists := store.lists.set ref items }
  | setTable (ref : Ref) (table : Table Value Value) (indexed : store.Indexed → table.Indexed) :
      Edits store { store with tables := store.tables.set ref table }
  | resolve (ref : Ref) (iterator : Value)
      (unopened : (store.mappings.get ref).iterator = none)
      (own : (store.mappings.get ref).source.CanHave iterator) :
      Edits store (store.resolve ref iterator)

/-- A course from one store to another by allowed changes, with the elements that cursors have
yielded on it, in order. -/
inductive Course (allowed : Store → Store → Prop) (store : Store) :
    List (Value × Value) → Store → Prop
  | start : Course allowed store [] store
  | edit {yielded : List (Value × Value)} {middle later : Store}
      (course : Course allowed store yielded middle) (edits : middle.Edits later)
      (is_allowed : allowed middle later) : Course allowed store yielded later
  | yield {yielded : List (Value × Value)} {middle : Store} {cursor item : Value}
      {rest : List Value} (course : Course allowed store yielded middle)
      (remain : middle.remaining cursor = item :: rest) :
      Course allowed store (yielded ++ [(cursor, item)]) (middle.pass cursor)

/-- A change of the object model keeps certain values as they are, and gives a mapping no iterator
but one over its source. -/
structure Conserves (spared : Value → Prop) (store later : Store) : Prop where
  spares : store.Spares spared later
  opens_over : store.OpensOver later

/-- Some course leads from one store to another. -/
def Evolves (allowed : Store → Store → Prop) (store later : Store) : Prop :=
  ∃ yielded, store.Course allowed yielded later

variable {allowed weaker : Store → Store → Prop} {store middle later last : Store}
  {yielded more : List (Value × Value)} {spared : Value → Prop}

/-! ## Joining courses -/

theorem Course.trans (first : store.Course allowed yielded middle)
    (second : middle.Course allowed more last) : store.Course allowed (yielded ++ more) last := by
  induction second with
  | start =>
      rw [List.append_nil]
      exact first
  | edit course edits is_allowed induction => exact .edit induction edits is_allowed
  | yield course remain induction =>
      rw [← List.append_assoc]
      exact .yield induction remain

theorem Course.mono (course : store.Course allowed yielded later)
    (weaken : ∀ {store later}, allowed store later → weaker store later) :
    store.Course weaker yielded later := by
  induction course with
  | start => exact .start
  | edit course edits is_allowed induction => exact .edit induction edits (weaken is_allowed)
  | yield course remain induction => exact .yield induction remain

theorem Evolves.refl (store : Store) : store.Evolves allowed store :=
  ⟨[], .start⟩

theorem Evolves.trans (first : store.Evolves allowed middle)
    (second : middle.Evolves allowed last) : store.Evolves allowed last := by
  obtain ⟨yielded, first⟩ := first
  obtain ⟨more, second⟩ := second
  exact ⟨yielded ++ more, first.trans second⟩

theorem Evolves.mono (evolves : store.Evolves allowed later)
    (weaken : ∀ {store later}, allowed store later → weaker store later) :
    store.Evolves weaker later := by
  obtain ⟨yielded, course⟩ := evolves
  exact ⟨yielded, course.mono weaken⟩

theorem Edits.evolves (edits : store.Edits later) (is_allowed : allowed store later) :
    store.Evolves allowed later :=
  ⟨[], .edit .start edits is_allowed⟩

theorem Adds.evolves (adds : store.Adds later) (is_allowed : allowed store later) :
    store.Evolves allowed later :=
  (Edits.adds adds).evolves is_allowed

/-! ## What a course spares -/

theorem Adds.spares (adds : store.Adds later) : store.Spares spared later := by
  cases adds with
  | buffer bytes => exact store.spares_addBuffer bytes
  | tuple items => exact store.spares_addTuple items
  | list items => exact store.spares_addList items
  | table table indexed => exact store.spares_addTable table
  | record fields => exact store.spares_addRecord fields
  | listCursor target => exact store.spares_addListCursor _
  | keyCursor target => exact store.spares_addKeyCursor _
  | sequenceCursor items => exact store.spares_addSequenceCursor items
  | mapping function source => exact store.spares_addMapping _

theorem Adds.conserves (adds : store.Adds later) : store.Conserves spared later where
  spares := adds.spares
  opens_over := by
    cases adds with
    | mapping function source => exact store.opensOver_addMapping _
    | _ => exact opensOver_of_mappings_eq rfl

/-- A course of changes that spare certain values spares them. -/
theorem Evolves.spares (evolves : store.Evolves (Spares spared) later) :
    store.Spares spared later := by
  obtain ⟨yielded, course⟩ := evolves
  induction course with
  | start => exact .refl store
  | edit course edits spares induction => exact induction.trans spares
  | yield course remain induction => exact induction.trans (spares_pass _ _)

/-! ## Iterators on a course -/

theorem Adds.advances (adds : store.Adds later) : store.Advances later := by
  cases adds with
  | listCursor target => exact store.advances_addListCursor _
  | keyCursor target => exact store.advances_addKeyCursor _
  | sequenceCursor items => exact store.advances_addSequenceCursor items
  | mapping function source => exact store.advances_addMapping _
  | _ => exact store.advances_withContents

theorem Edits.advances (edits : store.Edits later) : store.Advances later := by
  cases edits with
  | adds adds => exact adds.advances
  | resolve ref iterator unopened own => exact advances_resolve unopened own
  | _ => exact store.advances_withContents

/-- No iterator moves back on a course. -/
theorem Course.advances (course : store.Course allowed yielded later) : store.Advances later := by
  induction course with
  | start => exact .refl store
  | edit course edits is_allowed induction => exact induction.trans edits.advances
  | yield course remain induction => exact induction.trans (advances_pass _ _)

theorem Evolves.advances (evolves : store.Evolves allowed later) : store.Advances later := by
  obtain ⟨yielded, course⟩ := evolves
  exact course.advances

theorem Edits.undisturbed (edits : store.Edits later)
    (conserves : store.Conserves (fun _ => True) later) :
    store.Undisturbed later :=
  ⟨conserves.spares, edits.advances, conserves.opens_over⟩

/-- A course on which all containers keep their contents does not disturb iteration. -/
theorem Evolves.undisturbed (evolves : store.Evolves (Conserves fun _ => True) later) :
    store.Undisturbed later := by
  obtain ⟨yielded, course⟩ := evolves
  induction course with
  | start => exact .refl store
  | edit course edits conserves induction =>
      exact induction.trans (edits.undisturbed conserves)
  | yield course remain induction => exact induction.trans (undisturbed_pass _ _)

/-! ## Tables on a course -/

theorem Adds.indexed (adds : store.Adds later) (indexed : store.Indexed) : later.Indexed := by
  cases adds with
  | table table new_indexed =>
      intro ref
      rcases store.tables.get_push_eq_or table ref with new | old
      · rw [Store.table, new]
        exact new_indexed indexed
      · rw [Store.table, old]
        exact indexed ref
  | _ => exact indexed

theorem Edits.indexed (edits : store.Edits later) (indexed : store.Indexed) : later.Indexed := by
  cases edits with
  | adds adds => exact adds.indexed indexed
  | setTable ref table new_indexed =>
      intro other
      rcases store.tables.get_set_eq_or ref table other with new | old
      · rw [Store.table, new]
        exact new_indexed indexed
      · rw [Store.table, old]
        exact indexed other
  | _ => exact indexed

theorem indexed_pass (indexed : store.Indexed) (cursor : Value) :
    (store.pass cursor).Indexed := by
  cases cursor <;> exact indexed

/-- Tables stay indexed on a course. -/
theorem Course.indexed (course : store.Course allowed yielded later) (indexed : store.Indexed) :
    later.Indexed := by
  induction course with
  | start => exact indexed
  | edit course edits is_allowed induction => exact edits.indexed induction
  | yield course remain induction => exact indexed_pass induction _

theorem Evolves.indexed (evolves : store.Evolves allowed later) (indexed : store.Indexed) :
    later.Indexed := by
  obtain ⟨yielded, course⟩ := evolves
  exact course.indexed indexed

theorem indexed_empty : ({} : Store).Indexed :=
  fun _ => Table.indexed_empty

end Store
end ObjectModel
