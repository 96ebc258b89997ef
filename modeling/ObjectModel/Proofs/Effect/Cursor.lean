import ObjectModel.Iteration
import ObjectModel.Proofs.Signal
import ObjectModel.Proofs.Store.Course

/-!
# The steps of cursors

A step of a cursor hands out the first of the elements that remain and passes over it, or reports
the end and changes nothing. A request for an iterator makes a new cursor or changes nothing, and a
mapping keeps the iterator over its source from the first request on.
-/

namespace ObjectModel

open Effect

/-! ## Steps -/

/-- How a step of a cursor ends. -/
def World.step (world : World) (cursor : Value) : Except Fault Value × World :=
  match world.store.remaining cursor with
  | item :: _ => (.ok item, { world with store := world.store.pass cursor })
  | [] => (.error .endOfSequence, world)

/-- A step that yields an element takes it from those that remain. -/
theorem World.remaining_of_step_ok {world later : World} {cursor item : Value}
    (has : world.store.hasCursor cursor) (steps : world.step cursor = (.ok item, later)) :
    world.store.remaining cursor = item :: later.store.remaining cursor := by
  unfold World.step at steps
  split at steps
  · rename_i first rest remain
    obtain ⟨⟨⟩, rfl⟩ := Prod.mk.inj steps
    rw [Store.remaining_pass has, remain, List.tail_cons]
  · obtain ⟨⟨⟩, -⟩ := Prod.mk.inj steps

/-- A step fails at the end only, and changes nothing then. -/
theorem World.eq_of_step_error {world later : World} {cursor : Value} {fault : Fault}
    (fails : world.step cursor = (.error fault, later)) :
    world.store.remaining cursor = [] ∧ fault = .endOfSequence ∧ later = world := by
  unfold World.step at fails
  split at fails
  · obtain ⟨⟨⟩, -⟩ := Prod.mk.inj fails
  · rename_i none_remain
    obtain ⟨⟨⟩, rfl⟩ := Prod.mk.inj fails
    exact ⟨none_remain, rfl, rfl⟩

theorem World.step_ne_endless (world : World) (cursor : Value) :
    (world.step cursor).1 ≠ .error .endless := by
  unfold World.step
  split <;> exact nofun

theorem World.evolves_step {allowed : Store → Store → Prop} (world : World) (cursor : Value) :
    world.store.Evolves allowed (world.step cursor).2.store := by
  unfold World.step
  split
  · rename_i item rest remain
    exact ⟨[(cursor, item)], .yield .start remain⟩
  · exact .refl world.store

theorem World.spares_step {spared : Value → Prop} (world : World) (cursor : Value) :
    world.store.Spares spared (world.step cursor).2.store :=
  (world.evolves_step cursor).spares

theorem World.advances_step (world : World) (cursor : Value) :
    world.store.Advances (world.step cursor).2.store :=
  have evolves : world.store.Evolves (fun _ _ => True) _ := world.evolves_step cursor
  evolves.advances

/-- The later world differs by further cursors at most. -/
def World.GainsCursors (world later : World) : Prop :=
  world.store.GainsCursors later.store ∧ later.console = world.console

namespace Effect

theorem outcome_nextInList_eq_step (ref : Ref) (world : World) :
    outcome (nextInList ref) world = world.step (.listIterator ref) := by
  rw [nextInList, outcome_bind_of_ok (outcome_getStore world), World.step, Store.remaining]
  dsimp only
  generalize cursor_eq : world.store.listCursors.get ref = cursor
  cases found : (world.store.list cursor.target)[cursor.place]? with
  | some item =>
      obtain ⟨inside, rfl⟩ := List.getElem?_eq_some_iff.mp found
      rw [List.drop_eq_getElem_cons inside, Store.pass, cursor_eq]
      rfl
  | none =>
      rw [List.drop_eq_nil_of_le (List.getElem?_eq_none_iff.mp found)]
      rfl

theorem outcome_nextInTable_eq_step (ref : Ref) (world : World) :
    outcome (nextInTable ref) world = world.step (.setIterator ref) := by
  rw [nextInTable, outcome_bind_of_ok (outcome_getStore world), World.step, Store.remaining]
  dsimp only
  generalize cursor_eq : world.store.keyCursors.get ref = cursor
  cases search : (world.store.table cursor.target).firstFrom? cursor.place with
  | some found =>
      rw [Table.ahead_of_firstFrom? search, List.map_cons, Store.pass, cursor_eq, Table.placeAfter,
        search]
      rfl
  | none =>
      rw [Table.ahead_eq_nil_of_firstFrom? search]
      rfl

theorem outcome_nextInSequence_eq_step (ref : Ref) (world : World) :
    outcome (nextInSequence ref) world = world.step (.seqIterator ref) := by
  rw [nextInSequence, outcome_bind_of_ok (outcome_getStore world), World.step, Store.remaining]
  cases held : world.store.sequenceCursors.get ref with
  | nil => rfl
  | cons item rest =>
      rw [Store.pass, held]
      rfl

/-! ## Requests for iterators -/

/-- What a request for an iterator comes to: an iterator is its own, a container or a sequence gets
a new cursor for which all of its items remain, and the request fails for other values. -/
inductive Opens (world : World) (source : Value) : Except Fault Value × World → Prop
  | itself (is_iterator : source.isIterator) : Opens world source (.ok source, world)
  | cursor {cursor : Value} {later : World} (not_iterator : source.isIterator = false)
      (has : later.store.hasCursor cursor) (fresh : world.store.hasCursor cursor = false)
      (adds : world.store.Adds later.store) (gains : world.GainsCursors later)
      (made : later.store.knows source → later.store.Made cursor)
      (begins : later.store.remaining cursor = later.store.items source) :
      Opens world source (.ok cursor, later)
  | refused (holds_none : source.holdsItems = false) :
      Opens world source (.error (.notIterable source.kind), world)

section Requests

variable {world : World} {source : Value}

theorem opens_newListIterator {list : Ref} :
    Opens world (.list list) (outcome (newListIterator list) world) := by
  have has := world.store.listCursors.index_next_lt_size_push { target := list }
  have same_cursor : (world.store.listCursors.push { target := list }).get
      world.store.listCursors.next = { target := list } := Pool.get_push_next _ _
  refine .cursor rfl (decide_eq_true has) (decide_eq_false (Nat.lt_irrefl _)) (.listCursor list)
    ⟨world.store.gainsCursors_addListCursor _, rfl⟩
    (fun known : decide (list.index < world.store.lists.size) => ⟨has, ?_⟩) ?_
  · exact (congrArg (fun cursor => cursor.target.index < world.store.lists.size) same_cursor).mpr
      (of_decide_eq_true known)
  · exact congrArg (fun cursor => (world.store.list cursor.target).drop cursor.place) same_cursor

theorem opens_newSeqIterator (not_iterator : source.isIterator = false) :
    Opens world source (outcome (newSeqIterator (world.store.items source)) world) := by
  have has := world.store.sequenceCursors.index_next_lt_size_push (world.store.items source)
  refine .cursor not_iterator (decide_eq_true has) (decide_eq_false (Nat.lt_irrefl _))
    (.sequenceCursor _) ⟨world.store.gainsCursors_addSequenceCursor _, rfl⟩ (fun _ => has)
    ((Pool.get_push_next _ _).trans ?_)
  cases source <;> rfl

/-- Cursors over keys differ in their kinds alone. -/
theorem opens_newKeyCursor {table : Ref} {iterator : Ref → Value}
    (over_keys : iterator = .setIterator ∨ iterator = .dictKeyIterator)
    (of_table : source.table? = some table) :
    Opens world source (outcome (do return iterator (← newKeyCursor table)) world) := by
  have has := world.store.keyCursors.index_next_lt_size_push { target := table }
  have same_cursor : (world.store.keyCursors.push { target := table }).get
      world.store.keyCursors.next = { target := table } := Pool.get_push_next _ _
  have not_iterator : source.isIterator = false := by
    cases source <;> first | rfl | contradiction
  have target_known (known : table.index < world.store.tables.size) :
      ((world.store.keyCursors.push { target := table }).get
        world.store.keyCursors.next).target.index < world.store.tables.size :=
    (congrArg (fun cursor => cursor.target.index < world.store.tables.size) same_cursor).mpr known
  have begins (store : Store) : store.elements table = store.items source := by
    cases source <;> first | cases of_table; rfl | contradiction
  have remain := congrArg
    (fun cursor => ((world.store.table cursor.target).ahead cursor.place).map (·.key)) same_cursor
  rcases over_keys with rfl | rfl
  · exact .cursor not_iterator (decide_eq_true has) (decide_eq_false (Nat.lt_irrefl _))
      (.keyCursor table) ⟨world.store.gainsCursors_addKeyCursor _, rfl⟩
      (fun known => ⟨has, target_known (Store.index_lt_of_knows known of_table)⟩)
      (remain.trans (begins _))
  · exact .cursor not_iterator (decide_eq_true has) (decide_eq_false (Nat.lt_irrefl _))
      (.keyCursor table) ⟨world.store.gainsCursors_addKeyCursor _, rfl⟩
      (fun known => ⟨has, target_known (Store.index_lt_of_knows known of_table)⟩)
      (remain.trans (begins _))

end Requests

theorem opens_iter (world : World) (source : Value) :
    Opens world source (outcome source.iter world) := by
  rw [Value.iter, outcome_bind_of_ok (outcome_getStore world)]
  cases source with
  | list ref => exact opens_newListIterator
  | set ref => exact opens_newKeyCursor (.inl rfl) rfl
  | frozenset ref => exact opens_newKeyCursor (.inl rfl) rfl
  | dict ref => exact opens_newKeyCursor (.inr rfl) rfl
  | tuple | str | bytes | bytearray => exact opens_newSeqIterator rfl
  | listIterator | setIterator | dictKeyIterator | seqIterator | map => exact .itself rfl
  | _ => exact .refused rfl

namespace Opens

variable {world later : World} {source iterator : Value} {spared : Value → Prop}

theorem mappings_eq (opens : Opens world source (.ok iterator, later)) :
    later.store.mappings = world.store.mappings := by
  cases opens with
  | itself => rfl
  | cursor _ _ _ _ gains => exact gains.1.mappings_eq

theorem evolves (opens : Opens world source (.ok iterator, later)) :
    world.store.Evolves (Store.Conserves spared) later.store := by
  cases opens with
  | itself => exact .refl world.store
  | cursor _ _ _ adds => exact adds.evolves adds.conserves

theorem canHave (opens : Opens world source (.ok iterator, later)) : source.CanHave iterator := by
  rw [Value.CanHave]
  cases opens with
  | itself is_iterator => rw [if_pos is_iterator]
  | cursor not_iterator has =>
      rw [if_neg (not_iterator ▸ Bool.false_ne_true)]
      exact Store.isCursor_of_hasCursor has

theorem begins (opens : Opens world source (.ok iterator, later))
    (not_iterator : source.isIterator = false) :
    later.store.remaining iterator = later.store.items source := by
  cases opens with
  | itself is_iterator => exact absurd is_iterator (not_iterator ▸ Bool.false_ne_true)
  | cursor _ _ _ _ _ _ begins => exact begins

/-- A request for an iterator over what has been made gets one over the source. -/
theorem iteratesOver (opens : Opens world source (.ok iterator, later))
    (known : later.store.knows source) : later.store.IteratesOver source iterator := by
  rw [Store.IteratesOver]
  cases opens with
  | itself is_iterator => rw [if_pos is_iterator]
  | cursor not_iterator has _ _ _ made begins =>
      rw [if_neg (not_iterator ▸ Bool.false_ne_true), begins]
      exact ⟨Store.isCursor_of_hasCursor has, made known, List.suffix_refl _⟩

/-- A mapping may get an iterator over its source. -/
theorem conserves_resolve (opens : Opens world source (.ok iterator, later)) {ref : Ref}
    (source_eq : (later.store.mappings.get ref).source = source) :
    later.store.Conserves spared (later.store.resolve ref iterator) where
  spares := later.store.spares_setMapping ref _
  opens_over := Store.opensOver_resolve fun known => by
    rw [source_eq] at known ⊢
    exact opens.iteratesOver known

end Opens

/-- An iterator is its own iterator. -/
theorem outcome_iter_of_isIterator {iterator : Value} (is_iterator : iterator.isIterator)
    (world : World) : outcome iterator.iter world = (.ok iterator, world) := by
  cases iterator <;> first | rfl | contradiction

theorem outcome_sourceIterator (ref : Ref) (world : World) :
    outcome (sourceIterator ref) world =
      match (world.store.mappings.get ref).iterator with
      | some iterator => (.ok iterator, world)
      | none =>
        match outcome (world.store.mappings.get ref).source.iter world with
        | (.ok iterator, later) =>
          (.ok iterator, { later with store := later.store.resolve ref iterator })
        | (.error fault, later) => (.error fault, later) := by
  rw [sourceIterator, outcome_bind_of_ok (outcome_getStore world)]
  dsimp only
  cases (world.store.mappings.get ref).iterator with
  | some iterator => rfl
  | none =>
      have opens := opens_iter world (world.store.mappings.get ref).source
      dsimp only
      rw [outcome_bind]
      generalize outcome (world.store.mappings.get ref).source.iter world = ending at opens ⊢
      cases opens with
      | itself is_iterator => rfl
      | cursor not_iterator has fresh adds gains =>
          rw [← gains.1.mappings_eq]
          rfl
      | refused => rfl

theorem outcome_sourceIterator_of_held {ref : Ref} {world : World} {iterator : Value}
    (held : (world.store.mappings.get ref).iterator = some iterator) :
    outcome (sourceIterator ref) world = (.ok iterator, world) := by
  rw [outcome_sourceIterator, held]

/-- What a request for the iterator over the source of a mapping may do to a world. -/
structure Resolves (ref : Ref) (world : World) (ending : Except Fault Value × World) : Prop where
  proper : NoSignal ending.1
  evolves : ∀ spared, world.store.Evolves (Store.Conserves spared) ending.2.store
  ends : ending.1 ≠ .error .endless
  /-- The mapping has the iterator from now on. -/
  held : ∀ iterator, ending.1 = .ok iterator → ref.index < world.store.mappings.size →
    (ending.2.store.mappings.get ref).iterator = some iterator
  /-- For a new cursor all items of the source remain. -/
  begins : ∀ iterator, ending.1 = .ok iterator → (world.store.mappings.get ref).iterator = none →
    (world.store.mappings.get ref).source.isIterator = false →
      ending.2.store.remaining iterator =
        ending.2.store.items (world.store.mappings.get ref).source

theorem resolves_sourceIterator (ref : Ref) (world : World) :
    Resolves ref world (outcome (sourceIterator ref) world) := by
  rw [outcome_sourceIterator]
  cases unopened : (world.store.mappings.get ref).iterator with
  | some iterator =>
      refine ⟨noSignal_ok _, fun _ => .refl _, nofun, ?_, fun _ _ none_held => ?_⟩
      · rintro _ ⟨⟩ -
        exact unopened
      · exact nomatch unopened.symm.trans none_held
  | none =>
      have opens := opens_iter world (world.store.mappings.get ref).source
      dsimp only
      generalize outcome (world.store.mappings.get ref).source.iter world = ending at opens ⊢
      obtain ⟨fault | iterator, later⟩ := ending
      · cases opens
        exact ⟨noSignal_error rfl, fun _ => .refl _, (fun same => by cases same), nofun, nofun⟩
      · have mappings_eq := opens.mappings_eq
        have opened (spared : Value → Prop) :
            world.store.Evolves (Store.Conserves spared) later.store := opens.evolves
        have same_source := congrArg (fun mappings => (mappings.get ref).source) mappings_eq
        have unopened_later := (congrArg (fun mappings => (mappings.get ref).iterator)
          mappings_eq).trans unopened
        have own := opens.canHave
        rw [← same_source] at own
        refine ⟨noSignal_ok _, fun spared => (opened spared).trans
          ((Store.Edits.resolve ref _ unopened_later own).evolves
            (opens.conserves_resolve same_source)), nofun, ?_, ?_⟩
        · rintro _ ⟨⟩ known
          exact Store.iterator_resolve (mappings_eq ▸ known)
        · rintro _ ⟨⟩ - not_iterator
          exact (Store.remaining_resolve _ _ _ _).trans
            ((opens.begins not_iterator).trans (Store.items_resolve _ _ _ _).symm)

end Effect
end ObjectModel
