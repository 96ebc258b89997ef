import ObjectModel.Proofs.Iterator.Emptying
import ObjectModel.Proofs.Operation.Basic
import ObjectModel.Proofs.Store.Insertion

/-!
# Construction from a source

Lists and sets take the elements of some sources over without an iterator. What they make then is
made of the elements that a collection yields, in their order, as it is for all other sources. A
collection from a container leaves nothing but a used cursor behind, which makes no difference to
the keys of a set.
-/

namespace ObjectModel

open Effect

variable {α β : Type} {context : Context} {world left later : World} {source : Value}
  {items : List Value}

/-- A collection from a source yields the items and leaves a world, up to the used cursor that it
leaves if it is one from a container. -/
def Collected (context : Context) (world : World) (source : Value) (items : List Value)
    (left : World) : Prop :=
  ∃ later, outcome (source.collect context) world = (.ok items, later) ∧
    (left = later ∨ left = world ∧ world.GainsCursors later)

/-- An effect does what another one does that is given the items collected from a source. -/
def EndsAsGiven (context : Context) (world : World) (source : Value) (items : List Value)
    (effect given : Effect α) : Prop :=
  ∃ left, Collected context world source items left ∧ outcome effect world = outcome given left

/-- Lists and sets are made and extended with the items collected from a source. -/
structure BuiltFrom (context : Context) (world : World) (source : Value) (items : List Value) :
    Prop where
  /-- A list made from the source has the items. -/
  list : EndsAsGiven context world source items (Value.listFrom context [source]) (newList items)
  /-- A set of either kind made from the source is one that the items are put into one by one. -/
  set : ∀ sort, EndsAsGiven context world source items (Value.setFrom context sort [source])
    (do
      let table ← read fun store =>
        items.foldlM (fun table item => store.insertKey table item item) ∅
      return sort.toValue (← newTable table))
  /-- A list that is extended by the source has the items behind its own. -/
  extend : ∀ list, EndsAsGiven context world source items
    ((Value.list list).callMethod context "extend" [source])
    (do
      extendList list items
      return .none)
  /-- A list to which the source can be added in place is extended by it. -/
  add : source.isOneOf KindSet.listExtendable → ∀ list, EndsAsGiven context world source items
    ((Value.list list).inplace .add source)
    (do
      extendList list items
      return .list list)
  /-- A set that can be updated with the source takes up the items one by one. -/
  update : source.isOneOf KindSet.setUpdatable → ∀ table, EndsAsGiven context world source items
    ((Value.set table).callMethod context "update" [source])
    (do
      addElements table items
      return .none)
  /-- The set is the one made in the world after the collection, where no key is inside itself. -/
  table_eq : ∀ left later, outcome (source.collect context) world = (.ok items, later) →
    Collected context world source items left →
      (∀ item ∈ items, left.store.hash item ≠ .error .endless ∧
        (left.store.IsKey item → Value.Acyclic left.store.contents item)) →
          later.store.tableOfElements items = left.store.tableOfElements items

/-- Lists and sets fail to be made from a source, and to be extended, as the collection fails. -/
structure RefusedFrom (context : Context) (world : World) (source : Value) (fault : Fault)
    (later : World) : Prop where
  list : outcome (Value.listFrom context [source]) world = (.error fault, later)
  set : ∀ sort, outcome (Value.setFrom context sort [source]) world = (.error fault, later)
  extend : ∀ list, outcome ((Value.list list).callMethod context "extend" [source]) world =
    (.error fault, later)

/-! ## The two ways to get at the items -/

/-- An effect takes the items of a source over at once, or it collects them. -/
def GetsItems (context : Context) (world : World) (source : Value) (effect : Effect α)
    (given : List Value → Effect α) : Prop :=
  source.holdsItems ∧ outcome effect world = outcome (given (world.store.items source)) world ∨
    outcome effect world = outcome (source.collect context >>= given) world

theorem getsItems_listFrom (context : Context) (source : Value) (world : World) :
    GetsItems context world source (Value.listFrom context [source]) newList := by
  cases source with
  | list | tuple => exact .inl ⟨rfl, rfl⟩
  | _ => exact .inr rfl

theorem getsItems_setFrom (context : Context) (sort : SetKind) (source : Value) (world : World) :
    GetsItems context world source (Value.setFrom context sort [source]) (newSet sort) := by
  cases source with
  | set | frozenset | list | tuple | str => exact .inl ⟨rfl, rfl⟩
  | _ => exact .inr rfl

theorem getsItems_extend (context : Context) (list : Ref) (source : Value) (world : World) :
    GetsItems context world source ((Value.list list).callMethod context "extend" [source])
      fun items => do
        extendList list items
        return Value.none := by
  cases source with
  | list => exact .inl ⟨rfl, rfl⟩
  | _ => exact .inr rfl

theorem getsItems_add (extends_list : source.isOneOf KindSet.listExtendable) (context : Context)
    (list : Ref) (world : World) :
    GetsItems context world source ((Value.list list).inplace .add source)
      fun items => do
        extendList list items
        return Value.list list := by
  rw [Value.isOneOf, decide_eq_true_eq, KindSet.mem_listExtendable_iff] at extends_list
  cases source with
  | list | tuple | str => exact .inl ⟨rfl, rfl⟩
  | _ => simp [Value.kind] at extends_list

theorem getsItems_update (updates : source.isOneOf KindSet.setUpdatable) (context : Context)
    (table : Ref) (world : World) :
    GetsItems context world source ((Value.set table).callMethod context "update" [source])
      fun items => do
        addElements table items
        return Value.none := by
  rw [Value.isOneOf, decide_eq_true_eq, KindSet.mem_setUpdatable_iff] at updates
  cases source with
  | set | frozenset | list | tuple | str => exact .inl ⟨rfl, rfl⟩
  | _ => simp [Value.kind] at updates

section Gets

variable {effect : Effect α} {given : List Value → Effect α}
  (gets : GetsItems context world source effect given)

include gets

/-- Taken over or collected, the items are the same. -/
theorem GetsItems.endsAsGiven (collects : outcome (source.collect context) world =
    (.ok items, later)) : EndsAsGiven context world source items effect (given items) := by
  rcases gets with ⟨holds, takes⟩ | collects_first
  · obtain ⟨after, gathers, gains⟩ := exists_outcome_collect holds context world
    obtain rfl := Except.ok.inj (Prod.mk.inj (collects.symm.trans gathers)).1
    exact ⟨world, ⟨after, gathers, .inr ⟨rfl, gains⟩⟩, takes⟩
  · exact ⟨later, ⟨later, collects, .inl rfl⟩,
      collects_first.trans (outcome_bind_of_ok collects given)⟩

/-- A container does not refuse a collection, so what is refused is not taken over either. -/
theorem GetsItems.refused {fault : Fault}
    (fails : outcome (source.collect context) world = (.error fault, later)) :
    outcome effect world = (.error fault, later) := by
  rcases gets with ⟨holds, -⟩ | collects_first
  · obtain ⟨after, gathers, -⟩ := exists_outcome_collect holds context world
    exact nomatch fails.symm.trans gathers
  · rw [collects_first, outcome_bind, fails]

end Gets

/-! ## Keys beside a used cursor -/

/-- The results for all items are those of another function which agrees wherever the first one does
not give out, as long as it does not. -/
theorem mapM_eq_of_ne_error {ε : Type} {f g : α → Except ε β} {fault : ε} {items : List α}
    (agree : ∀ item, f item ≠ .error fault → g item = f item)
    (proper : items.mapM f ≠ .error fault) : items.mapM g = items.mapM f := by
  induction items with
  | nil => rfl
  | cons item items induction =>
      rw [List.mapM_cons] at proper
      rw [List.mapM_cons, List.mapM_cons]
      cases first : f item with
      | error cause =>
          have same : g item = f item := agree item fun fails => by
            rw [fails] at proper
            exact proper rfl
          rw [same, first]
          rfl
      | ok result =>
          have same : g item = f item := agree item fun fails => nomatch first.symm.trans fails
          rw [first] at proper
          have rest := induction fun fails => by
            rw [fails] at proper
            exact proper rfl
          rw [same, first, rest]

namespace Store

variable {store after : Store} {value other : Value} {depth further : Nat}

/-- Cursors add to the depth of a store. This makes no difference to a hash that is found, or
refused to a kind of values, within the depth before. -/
theorem GainsCursors.hashWithin_eq (gains : store.GainsCursors after) (le : depth ≤ further)
    (proper : store.hashWithin depth value ≠ .error .endless) :
    after.hashWithin further value = store.hashWithin depth value := by
  induction depth generalizing further value with
  | zero => exact absurd rfl proper
  | succ depth induction =>
      obtain ⟨further, rfl⟩ := Nat.exists_eq_add_one_of_ne_zero (Nat.ne_zero_of_lt le)
      cases value with
      | tuple ref =>
          have same_items : after.tuple ref = store.tuple ref :=
            congrArg (Pool.get · ref) gains.tuples_eq
          rw [hashWithin] at proper
          rw [hashWithin, hashWithin, same_items]
          congr 1
          refine mapM_eq_of_ne_error
            (fun item => induction (Nat.le_of_succ_le_succ le)) fun fails => ?_
          rw [fails] at proper
          exact proper rfl
      | frozenset ref =>
          have same_table : after.table ref = store.table ref :=
            congrArg (Pool.get · ref) gains.tables_eq
          rw [hashWithin, hashWithin, same_table]
      | _ => rfl

theorem GainsCursors.depth_le (gains : store.GainsCursors after) : store.depth ≤ after.depth := by
  have lists := gains.listCursors.size_le
  have keys := gains.keyCursors.size_le
  have sequences := gains.sequenceCursors.size_le
  simp only [depth, size, gains.buffers_eq, gains.tuples_eq, gains.lists_eq, gains.tables_eq,
    gains.records_eq, gains.mappings_eq]
  omega

theorem GainsCursors.unchanged (gains : store.GainsCursors after)
    (acyclic : Value.Acyclic store.contents value) : store.Unchanged after value where
  acyclic := acyclic
  keeps inner _ := by
    cases inner with
    | bytearray ref => exact congrArg (Pool.get · ref) gains.buffers_eq
    | tuple ref => exact congrArg (Pool.get · ref) gains.tuples_eq
    | list ref => exact congrArg (Pool.get · ref) gains.lists_eq
    | set ref | frozenset ref | dict ref => exact congrArg (Pool.get · ref) gains.tables_eq
    | hostObject ref => exact congrArg (Pool.get · ref) gains.records_eq
    | _ => exact trivial

theorem GainsCursors.tableOfElements_eq (gains : store.GainsCursors after)
    (settled : ∀ item ∈ items, store.hash item ≠ .error .endless ∧
      (store.IsKey item → Value.Acyclic store.contents item)) :
    after.tableOfElements items = store.tableOfElements items :=
  tableOfElements_congr
    (fun item member => gains.hashWithin_eq gains.depth_le (settled item member).1)
    fun key stored key_has item member item_has =>
      equals_eq_of_unchanged (gains.unchanged ((settled key stored).2 key_has))
        (gains.unchanged ((settled item member).2 item_has)) gains.depth_le

end Store

/-! ## Lists and sets of what a collection yields -/

/-- What lists and sets take over from a source, with or without an iterator, is what a collection
yields, or they are refused as the collection is. -/
theorem builtFrom_or_refusedFrom (context : Context) (source : Value) (world : World) :
    match outcome (source.collect context) world with
    | (.ok items, _) => BuiltFrom context world source items
    | (.error fault, later) => RefusedFrom context world source fault later := by
  split
  next items later collects =>
    exact
      { list := (getsItems_listFrom context source world).endsAsGiven collects
        set := fun sort => (getsItems_setFrom context sort source world).endsAsGiven collects
        extend := fun list => (getsItems_extend context list source world).endsAsGiven collects
        add := fun extends_list list =>
          (getsItems_add extends_list context list world).endsAsGiven collects
        update := fun updates table =>
          (getsItems_update updates context table world).endsAsGiven collects
        table_eq := fun left after collects_again collected settled => by
          obtain ⟨found, collects_found, from_left⟩ := collected
          obtain rfl := (Prod.mk.inj (collects_again.symm.trans collects_found)).2
          rcases from_left with rfl | ⟨rfl, gains⟩
          · rfl
          · exact gains.1.tableOfElements_eq settled }
  next fault later fails =>
    exact
      { list := (getsItems_listFrom context source world).refused fails
        set := fun sort => (getsItems_setFrom context sort source world).refused fails
        extend := fun list => (getsItems_extend context list source world).refused fails }

end ObjectModel
