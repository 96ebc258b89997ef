import ObjectModel.Store
import Mathlib.Logic.Relation

/-!
# Nesting of values

A value reaches its parts, the parts of these and so on, and is acyclic if nothing that it reaches
is a part of itself in this way. What counts as a part is a parameter: equality looks into
containers of all sorts, but into tuples alone once both sides are the same object.

The depth of a store is enough for every acyclic value in it. On the way down from the value no
object comes twice, for the parts of an object are reached from it and cannot reach it back.
-/

namespace ObjectModel
namespace Value

variable {parts : Value → List Value} {value inner : Value} {depth : Nat}

/-- The values that are inside a value at any depth, and the value itself. -/
def Reaches (parts : Value → List Value) : Value → Value → Prop :=
  Relation.ReflTransGen fun outer inner => inner ∈ parts outer

/-- No value inside is a part of itself, however far down. -/
def Acyclic (parts : Value → List Value) (value : Value) : Prop :=
  ∀ inner, Reaches parts value inner → ∀ part ∈ parts inner, ¬ Reaches parts part inner

/-- Values among which the parts of each are reach no others. -/
theorem Reaches.mem_of_closed {known : List Value} (reaches : Reaches parts value inner)
    (member : value ∈ known) (closed : ∀ outer ∈ known, parts outer ⊆ known) : inner ∈ known := by
  induction reaches with
  | refl => exact member
  | tail reaches part induction => exact closed _ induction part

/-- Whether values nest to less than the given depth. -/
def nestsWithin (parts : Value → List Value) : Nat → Value → Bool
  | 0, _ => false
  | depth + 1, value => (parts value).all (nestsWithin parts depth)

theorem nestsWithin_succ_iff :
    nestsWithin parts (depth + 1) value ↔ ∀ part ∈ parts value, nestsWithin parts depth part :=
  List.all_eq_true

theorem nestsWithin_succ (nests : nestsWithin parts depth value) :
    nestsWithin parts (depth + 1) value := by
  induction depth generalizing value with
  | zero => contradiction
  | succ depth induction =>
      rw [nestsWithin_succ_iff] at nests ⊢
      exact fun part member => induction (nests part member)

theorem nestsWithin_of_le (nests : nestsWithin parts depth value) {deeper : Nat}
    (le : depth ≤ deeper) : nestsWithin parts deeper value := by
  induction le with
  | refl => exact nests
  | step le induction => exact nestsWithin_succ induction

theorem nestsWithin_of_reaches (nests : nestsWithin parts depth value)
    (reaches : Reaches parts value inner) : nestsWithin parts depth inner := by
  induction reaches with
  | refl => exact nests
  | tail reaches member induction =>
      cases depth with
      | zero => contradiction
      | succ depth => exact nestsWithin_succ (nestsWithin_succ_iff.mp induction _ member)

theorem not_reaches_of_mem (nests : nestsWithin parts depth value) (member : inner ∈ parts value) :
    ¬ Reaches parts inner value := by
  induction depth with
  | zero => contradiction
  | succ depth induction =>
      intro back
      have inner_nests := nestsWithin_succ_iff.mp nests inner member
      exact induction (nestsWithin_of_reaches inner_nests back) back

theorem acyclic_of_nestsWithin (nests : nestsWithin parts depth value) : Acyclic parts value :=
  fun _ reaches _ member => not_reaches_of_mem (nestsWithin_of_reaches nests reaches) member

theorem Acyclic.of_reaches (acyclic : Acyclic parts value) (reaches : Reaches parts value inner) :
    Acyclic parts inner :=
  fun _ further => acyclic _ (reaches.trans further)

/-- An acyclic value nests no deeper than there are different lists of parts to go through. -/
theorem nestsWithin_of_acyclic {held : List (List Value)} (acyclic : Acyclic parts value)
    (all_held : ∀ inner, Reaches parts value inner → parts inner ≠ [] → parts inner ∈ held) :
    nestsWithin parts (held.length + 1) value := by
  -- each step down uses up the parts of the outer value, which do not come again below it
  induction size : held.length generalizing held value with
  | zero =>
      rw [nestsWithin_succ_iff]
      intro part member
      have outer_held : parts value ∈ held := all_held value .refl (List.ne_nil_of_mem member)
      rw [List.length_eq_zero_iff.mp size] at outer_held
      contradiction
  | succ count induction =>
      rw [nestsWithin_succ_iff]
      intro part member
      have part_reached : Reaches parts value part := .single member
      have outer_held : parts value ∈ held := all_held value .refl (List.ne_nil_of_mem member)
      have held_below : ∀ inner, Reaches parts part inner → parts inner ≠ [] →
          parts inner ∈ held.erase (parts value) := by
        intro inner reaches some_parts
        have inner_held := all_held inner (part_reached.trans reaches) some_parts
        have inner_ne : parts inner ≠ parts value := by
          intro same
          have part_again : part ∈ parts inner := same ▸ member
          exact acyclic inner (part_reached.trans reaches) part part_again reaches
        exact (List.mem_erase_of_ne inner_ne).mpr inner_held
      have one_less : (held.erase (parts value)).length = count := by
        rw [List.length_erase_of_mem outer_held, size, Nat.add_sub_cancel]
      exact induction (acyclic.of_reaches part_reached) held_below one_less

end Value

theorem Pool.get_eq_default_or_mem {α : Type} [Inhabited α] (pool : Pool α) (ref : Ref) :
    pool.get ref = default ∨ pool.get ref ∈ pool.cells.toList := by
  rw [get, Array.getD_eq_getD_getElem?]
  cases found : pool.cells[ref.index]? with
  | none => exact .inl rfl
  | some contents => exact .inr (Array.mem_toList_iff.mpr (Array.mem_of_getElem? found))

namespace Store

/-- The keys and the values of a table. -/
def tableContents (table : Table Value Value) : List Value :=
  table.keys ++ table.entries.map (·.value)

theorem key_mem_tableContents {table : Table Value Value} {entry : Entry Value Value}
    (member : entry ∈ table.entries) : entry.key ∈ tableContents table :=
  List.mem_append_left _ (List.mem_map_of_mem member)

theorem value_mem_tableContents {table : Table Value Value} {entry : Entry Value Value}
    (member : entry ∈ table.entries) : entry.value ∈ tableContents table :=
  List.mem_append_right _ (List.mem_map_of_mem member)

/-- The values directly inside a value. A set maps each element to itself, or to the equal one that
was added last. -/
def contents (store : Store) : Value → List Value
  | .tuple ref => store.tuple ref
  | .list ref => store.list ref
  | .set ref | .frozenset ref | .dict ref => tableContents (store.table ref)
  | .hostObject ref => (store.record ref).map (·.2)
  | _ => []

/-- The values inside a value that can be seen from outside: of a set the elements alone. -/
def members (store : Store) : Value → List Value
  | .set ref | .frozenset ref => store.elements ref
  | value => store.contents value

/-- The items of a value that is a tuple. -/
def tupleItems (store : Store) : Value → List Value
  | .tuple ref => store.tuple ref
  | _ => []

theorem members_subset (store : Store) (value : Value) :
    store.members value ⊆ store.contents value := by
  cases value with
  | set ref => exact List.subset_append_left _ _
  | frozenset ref => exact List.subset_append_left _ _
  | _ => exact List.Subset.refl _

theorem tupleItems_subset (store : Store) (value : Value) :
    store.tupleItems value ⊆ store.members value := by
  cases value with
  | tuple ref => exact List.Subset.refl _
  | _ => exact List.nil_subset _

/-- What the objects of the store hold, one list for each object. -/
def holdings (store : Store) : List (List Value) :=
  store.tuples.cells.toList ++ store.lists.cells.toList ++
    store.tables.cells.toList.map tableContents ++
      store.records.cells.toList.map fun record => record.map (·.2)

variable {store : Store} {value : Value}

theorem tuple_mem_of_ne_nil {ref : Ref} (some_items : store.tuple ref ≠ []) :
    store.tuple ref ∈ store.tuples.cells.toList :=
  (store.tuples.get_eq_default_or_mem ref).resolve_left some_items

theorem contents_mem_holdings (some_contents : store.contents value ≠ []) :
    store.contents value ∈ store.holdings := by
  have of_table : ∀ ref, tableContents (store.table ref) ≠ [] →
      tableContents (store.table ref) ∈ store.tables.cells.toList.map tableContents := by
    intro ref some_contents
    rcases store.tables.get_eq_default_or_mem ref with absent | member
    · rw [table, absent] at some_contents
      contradiction
    · exact List.mem_map_of_mem member
  rw [holdings, List.mem_append, List.mem_append, List.mem_append]
  cases value with
  | tuple ref => exact .inl (.inl (.inl (tuple_mem_of_ne_nil some_contents)))
  | list ref =>
      have member := (store.lists.get_eq_default_or_mem ref).resolve_left some_contents
      exact .inl (.inl (.inr member))
  | set ref => exact .inl (.inr (of_table ref some_contents))
  | frozenset ref => exact .inl (.inr (of_table ref some_contents))
  | dict ref => exact .inl (.inr (of_table ref some_contents))
  | hostObject ref =>
      rcases store.records.get_eq_default_or_mem ref with absent | member
      · rw [contents, record, absent] at some_contents
        contradiction
      · exact .inr (List.mem_map_of_mem (f := fun record => record.map (·.2)) member)
  | _ => contradiction

theorem length_holdings_le (store : Store) : store.holdings.length ≤ store.size := by
  simp only [holdings, List.length_append, List.length_map, Array.length_toList, size, Pool.size]
  omega

/-- Acyclic values nest to less than the depth of the store. -/
theorem nestsWithin_depth (acyclic : Value.Acyclic store.contents value) :
    Value.nestsWithin store.contents store.depth value :=
  Value.nestsWithin_of_le
    (Value.nestsWithin_of_acyclic acyclic fun _ _ => contents_mem_holdings)
    (Nat.succ_le_succ store.length_holdings_le)

/-- No tuple is inside itself if all have only tuples that were made before them. -/
theorem acyclic_of_earlier (earlier : ∀ ref inner, .tuple inner ∈ store.tuple ref →
    inner.index < ref.index) (value : Value) : Value.Acyclic store.tupleItems value := by
  have tuple_nests : ∀ bound, ∀ ref : Ref, ref.index < bound →
      Value.nestsWithin store.tupleItems (bound + 1) (.tuple ref) := by
    intro bound
    induction bound with
    | zero => exact fun _ lt => absurd lt (Nat.not_lt_zero _)
    | succ bound induction =>
        intro ref lt
        refine Value.nestsWithin_succ_iff.mpr fun item member => ?_
        cases item with
        | tuple inner =>
            have inner_lt := earlier ref inner member
            exact induction inner (Nat.lt_of_lt_of_le inner_lt (Nat.le_of_lt_succ lt))
        | _ => rfl
  have value_nests : ∃ depth, Value.nestsWithin store.tupleItems depth value := by
    cases value with
    | tuple ref => exact ⟨_, tuple_nests _ ref (Nat.lt_succ_self _)⟩
    | _ => exact ⟨1, rfl⟩
  obtain ⟨depth, nests⟩ := value_nests
  exact Value.acyclic_of_nestsWithin nests

/-- Tuples nest to less than the depth of the store unless one is inside itself. -/
theorem nestsWithin_depth_of_tupleItems (acyclic : Value.Acyclic store.tupleItems value) :
    Value.nestsWithin store.tupleItems store.depth value := by
  have all_held : ∀ inner, Value.Reaches store.tupleItems value inner →
      store.tupleItems inner ≠ [] → store.tupleItems inner ∈ store.tuples.cells.toList := by
    intro inner _ some_items
    cases inner with
    | tuple ref => exact tuple_mem_of_ne_nil some_items
    | _ => contradiction
  apply Value.nestsWithin_of_le (Value.nestsWithin_of_acyclic acyclic all_held)
  simp only [depth, size, Pool.size, Array.length_toList]
  omega

end Store
end ObjectModel
