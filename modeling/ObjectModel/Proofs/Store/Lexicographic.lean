import ObjectModel.Proofs.Store.Duality

/-!
# Lexicographic order

Lists and tuples with the same items are ordered in the same way: by the items at the first place
where they are not equal, and by length if there is none. Lists find that place with the equality
operator of their items and tuples with loose equality. What comes behind the place has no effect,
so nothing is asked of it.

The agreement rests on stable keys. A set whose keys have changed can equal another one that does
not equal it, and lists compare their items the other way round.
-/

namespace ObjectModel

section FirstDifference

variable {α : Type} {differ : α → α → Bool} {left right : List α}

theorem exists_place_of_firstDifference? {a b : α}
    (found : firstDifference? differ left right = some (a, b)) :
    ∃ place : Nat, left[place]? = some a ∧ right[place]? = some b ∧ differ a b ∧
      ∀ earlier < place, ∀ x y, left[earlier]? = some x → right[earlier]? = some y →
        differ x y = false := by
  induction left generalizing right with
  | nil => cases right <;> contradiction
  | cons x left induction =>
      cases right with
      | nil => contradiction
      | cons y right =>
          rw [firstDifference?] at found
          by_cases differs : differ x y
          · rw [if_pos differs] at found
            obtain ⟨rfl, rfl⟩ := Prod.mk.inj (Option.some.inj found)
            exact ⟨0, rfl, rfl, differs, fun _ lt => absurd lt (Nat.not_lt_zero _)⟩
          · rw [if_neg differs] at found
            obtain ⟨place, left_item, right_item, differs_there, before⟩ := induction found
            refine ⟨place + 1, left_item, right_item, differs_there, fun earlier lt => ?_⟩
            cases earlier with
            | zero =>
                rintro _ _ ⟨⟩ ⟨⟩
                exact Bool.eq_false_iff.mpr differs
            | succ earlier => exact before earlier (Nat.lt_of_succ_lt_succ lt)

theorem differ_eq_false_of_firstDifference? (missing : firstDifference? differ left right = none)
    (place : Nat) {x y : α} (left_item : left[place]? = some x)
    (right_item : right[place]? = some y) : differ x y = false := by
  induction left generalizing right place with
  | nil => simp at left_item
  | cons a left induction =>
      cases right with
      | nil => simp at right_item
      | cons b right =>
          rw [firstDifference?] at missing
          by_cases differs : differ a b
          · rw [if_pos differs] at missing
            contradiction
          · rw [if_neg differs] at missing
            cases place with
            | zero =>
                obtain rfl := Option.some.inj left_item
                obtain rfl := Option.some.inj right_item
                exact Bool.eq_false_iff.mpr differs
            | succ place => exact induction missing place left_item right_item

end FirstDifference

namespace Store

open Effect Value

variable {store : Store} {op : Comparison} {left right : List Value}

/-! ## The deciding place -/

/-- The items of two lists are equal at every place before the given one. -/
def AgreeBelow (store : Store) (left right : List Value) (place : Nat) : Prop :=
  ∀ earlier < place, ∀ x y, left[earlier]? = some x → right[earlier]? = some y →
    store.equals x y = true

/-- What decides the order of two lists of items: the first place where the items are not equal, or
the lengths if there is no such place. -/
inductive Decides (store : Store) (op : Comparison) (left right : List Value) :
    Except Fault Bool → Prop
  | items {place : Nat} {x y : Value} (left_item : left[place]? = some x)
      (right_item : right[place]? = some y) (agree : store.AgreeBelow left right place)
      (differ : store.equals x y = false) : Decides store op left right (store.compare op x y)
  | lengths (agree : store.AgreeBelow left right (min left.length right.length)) :
      Decides store op left right (.ok (op.accepts (Ord.compare left.length right.length)))

theorem AgreeBelow.place_le {place other : Nat} {x y : Value}
    (agree : store.AgreeBelow left right place) (left_item : left[other]? = some x)
    (right_item : right[other]? = some y) (differ : store.equals x y = false) : place ≤ other := by
  by_contra lt
  have equal := agree other (Nat.lt_of_not_le lt) x y left_item right_item
  rw [differ] at equal
  contradiction

theorem lt_min_of_getElem? {place : Nat} {x y : Value} (left_item : left[place]? = some x)
    (right_item : right[place]? = some y) : place < min left.length right.length :=
  Nat.lt_min.mpr ⟨(List.getElem?_eq_some_iff.mp left_item).1,
    (List.getElem?_eq_some_iff.mp right_item).1⟩

/-- There is one decision. -/
theorem Decides.unique {result other : Except Fault Bool}
    (decides : store.Decides op left right result)
    (decides_other : store.Decides op left right other) : result = other := by
  cases decides with
  | items left_item right_item agree differ =>
      cases decides_other with
      | items left_other right_other agree_other differ_other =>
          obtain rfl := Nat.le_antisymm (agree.place_le left_other right_other differ_other)
            (agree_other.place_le left_item right_item differ)
          obtain rfl := Option.some.inj (left_item.symm.trans left_other)
          obtain rfl := Option.some.inj (right_item.symm.trans right_other)
          rfl
      | lengths agree_other =>
          have le := agree_other.place_le left_item right_item differ
          exact absurd (lt_min_of_getElem? left_item right_item) (Nat.not_lt_of_le le)
  | lengths agree =>
      cases decides_other with
      | items left_item right_item _ differ =>
          have le := agree.place_le left_item right_item differ
          exact absurd (lt_min_of_getElem? left_item right_item) (Nat.not_lt_of_le le)
      | lengths _ => rfl

/-- A comparison of items decides as long as its tests are right at the places that it comes to. -/
theorem decides_compareItems {orders : Value → Value → Except Fault Bool}
    {differ : Value → Value → Bool}
    (right_there : ∀ place x y, store.AgreeBelow left right place → left[place]? = some x →
      right[place]? = some y →
        differ x y = (!store.equals x y) ∧ orders x y = store.compare op x y) :
    store.Decides op left right (compareItems orders differ op left right) := by
  -- up to the first difference the items are equal, so the tests are right up to there
  have agree_of_before (place : Nat) (before : ∀ earlier < place, ∀ x y,
      left[earlier]? = some x → right[earlier]? = some y → differ x y = false) :
      store.AgreeBelow left right place := by
    intro earlier lt
    induction earlier using Nat.strong_induction_on with
    | _ earlier induction =>
        intro x y left_item right_item
        have agree : store.AgreeBelow left right earlier :=
          fun first first_lt => induction first first_lt (first_lt.trans lt)
        have same := before earlier lt x y left_item right_item
        rw [(right_there earlier x y agree left_item right_item).1] at same
        simpa using same
  unfold compareItems
  split
  · rename_i a b found
    obtain ⟨place, left_item, right_item, differs, before⟩ :=
      exists_place_of_firstDifference? found
    have agree := agree_of_before place before
    obtain ⟨differ_eq, orders_eq⟩ := right_there place a b agree left_item right_item
    rw [orders_eq]
    exact .items left_item right_item agree (by simpa [differ_eq] using differs)
  · rename_i missing
    exact .lengths (agree_of_before _ fun earlier _ x y left_item right_item =>
      differ_eq_false_of_firstDifference? missing earlier left_item right_item)

/-! ## Orders within enough depth -/

theorem orderWithin_eq_of_nestsWithin {depth deeper : Nat} (le : depth ≤ deeper) {x y : Value}
    (nests : nestsWithin store.contents depth x)
    (nests_right : nestsWithin store.contents depth y) :
    store.orderWithin deeper op x y = store.orderWithin depth op x y := by
  induction depth generalizing deeper x y with
  | zero => contradiction
  | succ depth induction =>
      obtain ⟨deeper, rfl⟩ := Nat.exists_eq_succ_of_ne_zero (Nat.ne_zero_of_lt le)
      have items := nestsWithin_succ_iff.mp nests
      have items_right := nestsWithin_succ_iff.mp nests_right
      have orders : ∀ a ∈ store.contents x, ∀ b ∈ store.contents y,
          store.orderWithin deeper op a b = store.orderWithin depth op a b :=
        fun a member b member_right => induction (Nat.le_of_succ_le_succ le) (items a member)
          (items_right b member_right)
      cases x <;> cases y <;> try rfl
      all_goals
        simp only [orderWithin, compareItems]
        split
        · rename_i found
          obtain ⟨member, member_right⟩ := mem_of_firstDifference? found
          exact orders _ member _ member_right
        · rfl

/-- An acyclic part of a value nests less deep than the depth of the store, for it does not reach
the value. -/
theorem nestsWithin_size_of_mem {outer value : Value} (member : value ∈ store.contents outer)
    (acyclic : Acyclic store.contents value) : nestsWithin store.contents store.size value := by
  have outer_held : store.contents outer ∈ store.holdings :=
    contents_mem_holdings (List.ne_nil_of_mem member)
  have others_held (inner : Value) (reaches : Reaches store.contents value inner)
      (some_parts : store.contents inner ≠ []) :
      store.contents inner ∈ store.holdings.erase (store.contents outer) := by
    have ne : store.contents inner ≠ store.contents outer := fun same =>
      acyclic inner reaches value (same ▸ member) reaches
    exact (List.mem_erase_of_ne ne).mpr (contents_mem_holdings some_parts)
  have nests := nestsWithin_of_acyclic acyclic others_held
  have length_pos := List.length_pos_of_mem outer_held
  have length_le := length_holdings_le store
  refine nestsWithin_of_le nests ?_
  rw [List.length_erase_of_mem outer_held]
  omega

/-- Parts of two values are ordered within them as they are by themselves. -/
theorem orderWithin_size_eq_compare (ordering : op.needsOrder) {outer outer_right x y : Value}
    (member : x ∈ store.contents outer) (member_right : y ∈ store.contents outer_right)
    (acyclic : Acyclic store.contents x) (acyclic_right : Acyclic store.contents y) :
    store.orderWithin store.size op x y = store.compare op x y := by
  have same : store.orderWithin (store.size + 1) op x y = store.orderWithin store.size op x y :=
    orderWithin_eq_of_nestsWithin (Nat.le_succ store.size) (nestsWithin_size_of_mem member acyclic)
      (nestsWithin_size_of_mem member_right acyclic_right)
  cases op with
  | eq | ne => contradiction
  | lt | le | gt | ge => exact same.symm

/-! ## Lists and tuples -/

/-- The items of two lists are acyclic at the places that a comparison comes to. -/
def AcyclicUpToDifference (store : Store) (left right : List Value) : Prop :=
  ∀ place x y, store.AgreeBelow left right place → left[place]? = some x →
    right[place]? = some y → Acyclic store.contents x ∧ Acyclic store.contents y

theorem compare_of_needsOrder (ordering : op.needsOrder) (x y : Value) :
    store.compare op x y = store.orderWithin (store.size + 1) op x y := by
  cases op with
  | eq | ne => contradiction
  | lt | le | gt | ge => rfl

theorem decides_compare_lists (sound : store.Sound) (ordering : op.needsOrder) {a b : Ref}
    (acyclic : store.AcyclicUpToDifference (store.list a) (store.list b)) :
    store.Decides op (store.list a) (store.list b) (store.compare op (.list a) (.list b)) := by
  rw [compare_of_needsOrder ordering]
  refine decides_compareItems fun place x y agree left_item right_item => ?_
  obtain ⟨acyclic_left, acyclic_right⟩ := acyclic place x y agree left_item right_item
  have member : x ∈ store.contents (.list a) := List.mem_of_getElem? left_item
  have member_right : y ∈ store.contents (.list b) := List.mem_of_getElem? right_item
  exact ⟨by rw [operatorEquals_eq_equals sound acyclic_left acyclic_right],
    orderWithin_size_eq_compare ordering member member_right acyclic_left acyclic_right⟩

theorem decides_compare_tuples (ordering : op.needsOrder) {a b : Ref}
    (acyclic : store.AcyclicUpToDifference (store.tuple a) (store.tuple b)) :
    store.Decides op (store.tuple a) (store.tuple b)
      (store.compare op (.tuple a) (.tuple b)) := by
  rw [compare_of_needsOrder ordering]
  refine decides_compareItems fun place x y agree left_item right_item => ⟨rfl, ?_⟩
  obtain ⟨acyclic_left, acyclic_right⟩ := acyclic place x y agree left_item right_item
  have member : x ∈ store.contents (.tuple a) := List.mem_of_getElem? left_item
  have member_right : y ∈ store.contents (.tuple b) := List.mem_of_getElem? right_item
  exact orderWithin_size_eq_compare ordering member member_right acyclic_left acyclic_right

/-- In a store of tables with stable keys, an ordering operator comes to the same between two lists
and between two tuples with the same items, and to nothing but what decides the order of these. -/
theorem compare_lists_and_tuples (sound : store.Sound) (ordering : op.needsOrder)
    (acyclic : store.AcyclicUpToDifference left right) {a b c d : Ref}
    (list_left : store.list a = left) (list_right : store.list b = right)
    (tuple_left : store.tuple c = left) (tuple_right : store.tuple d = right) :
    ∃ result, store.compare op (.list a) (.list b) = result ∧
      store.compare op (.tuple c) (.tuple d) = result ∧
        ∀ other, store.Decides op left right other ↔ other = result := by
  subst list_left list_right
  have lists := decides_compare_lists sound ordering acyclic
  have tuples := decides_compare_tuples (a := c) (b := d) ordering
    (by rwa [tuple_left, tuple_right])
  rw [tuple_left, tuple_right] at tuples
  refine ⟨_, rfl, tuples.unique lists, fun other => ⟨fun decides => decides.unique lists, ?_⟩⟩
  rintro rfl
  exact lists

/-- Two lists and two tuples of the same items: equal frozensets that have come in different orders,
then lists that differ, then items without an order. -/
def aligned : Store where
  tuples := ⟨#[[.frozenset ⟨0⟩, .list ⟨2⟩, .none], [.frozenset ⟨1⟩, .list ⟨3⟩, .int 3]]⟩
  lists := ⟨#[[.frozenset ⟨0⟩, .list ⟨2⟩, .none], [.frozenset ⟨1⟩, .list ⟨3⟩, .int 3],
    [.int 7], [.int 8]]⟩
  tables := ⟨#[
    ((∅ : Table Value Value).push ⟨hashOfInt 1, .int 1, .int 1⟩).push ⟨hashOfInt 2, .int 2, .int 2⟩,
    ((∅ : Table Value Value).push ⟨hashOfInt 2, .int 2, .int 2⟩).push
      ⟨hashOfInt 1, .int 1, .int 1⟩]⟩

theorem sound_aligned : aligned.Sound := by
  rintro ⟨index⟩
  match index with
  | 0 => exact (Builds.empty.push rfl (by cbv) _).push rfl (by cbv) _
  | 1 => exact (Builds.empty.push rfl (by cbv) _).push rfl (by cbv) _
  | index + 2 => exact .empty

theorem compare_lists_and_tuples_aligned :
    aligned.Sound ∧ aligned.AcyclicUpToDifference (aligned.list ⟨0⟩) (aligned.list ⟨1⟩) ∧
      aligned.compare .lt (.list ⟨0⟩) (.list ⟨1⟩) = .ok true ∧
        aligned.compare .lt (.tuple ⟨0⟩) (.tuple ⟨1⟩) = .ok true := by
  have nests : ∀ x ∈ aligned.list ⟨0⟩ ++ aligned.list ⟨1⟩, nestsWithin aligned.contents 3 x := by
    decide
  have acyclic : aligned.AcyclicUpToDifference (aligned.list ⟨0⟩) (aligned.list ⟨1⟩) :=
    fun place x y _ left_item right_item => by
      have member := List.mem_of_getElem? left_item
      have member_right := List.mem_of_getElem? right_item
      exact ⟨acyclic_of_nestsWithin (nests x (List.mem_append_left _ member)),
        acyclic_of_nestsWithin (nests y (List.mem_append_right _ member_right))⟩
  have ordering : Comparison.lt.needsOrder := rfl
  obtain ⟨result, lists, tuples, -⟩ := compare_lists_and_tuples sound_aligned ordering acyclic
    (a := ⟨0⟩) (b := ⟨1⟩) (c := ⟨0⟩) (d := ⟨1⟩) rfl rfl rfl rfl
  have less : aligned.compare .lt (.list ⟨0⟩) (.list ⟨1⟩) = .ok true := by cbv
  exact ⟨sound_aligned, acyclic, less, tuples.trans (lists.symm.trans less)⟩

/-- The world after a frozenset has changed that is an element of a set, while another set has an
equal element. The two sets are inside the first items of two lists and of two tuples. -/
def misfiled : World :=
  (outcome (do
    let changing ← newSet .frozen []
    let left ← newList [← newSet .mutable [changing]]
    addElement ⟨0⟩ (.int 1)
    let right ← newList [← newSet .mutable [← newSet .frozen [.int 1]]]
    let _ ← newList [left, .int 1]
    let _ ← newList [right, .int 2]
    let _ ← newTuple [left, .int 1]
    newTuple [right, .int 2]) {}).2

/-- Without stable keys a list need not be ordered like the tuple of its items. -/
theorem not_compare_lists_and_tuples :
    ¬ ∀ (store : Store) (op : Comparison) (left right : List Value) (a b c d : Ref),
      op.needsOrder → store.AcyclicUpToDifference left right → store.list a = left →
        store.list b = right → store.tuple c = left → store.tuple d = right →
          store.compare op (.list a) (.list b) = store.compare op (.tuple c) (.tuple d) := by
  intro always
  have nests : ∀ x ∈ misfiled.store.list ⟨2⟩ ++ misfiled.store.list ⟨3⟩,
      nestsWithin misfiled.store.contents 5 x := by
    have items : misfiled.store.list ⟨2⟩ ++ misfiled.store.list ⟨3⟩ =
      [.list ⟨0⟩, .int 1, .list ⟨1⟩, .int 2] := by cbv
    rw [items]
    simp only [List.forall_mem_cons]
    exact ⟨by cbv, by cbv, by cbv, by cbv, List.forall_mem_nil _⟩
  have acyclic : misfiled.store.AcyclicUpToDifference (misfiled.store.list ⟨2⟩)
      (misfiled.store.list ⟨3⟩) := fun place x y _ left_item right_item =>
    ⟨acyclic_of_nestsWithin (nests x (List.mem_append_left _ (List.mem_of_getElem? left_item))),
      acyclic_of_nestsWithin (nests y (List.mem_append_right _ (List.mem_of_getElem? right_item)))⟩
  have lists : misfiled.store.compare .lt (.list ⟨2⟩) (.list ⟨3⟩) = .ok false := by cbv
  have tuples : misfiled.store.compare .lt (.tuple ⟨0⟩) (.tuple ⟨1⟩) = .ok true := by cbv
  have same := always misfiled.store .lt _ _ ⟨2⟩ ⟨3⟩ ⟨0⟩ ⟨1⟩ rfl acyclic rfl rfl (by cbv) (by cbv)
  rw [lists, tuples] at same
  contradiction

end Store
end ObjectModel
