import ObjectModel.Proofs.Iterator.Collecting

/-!
# Cursors are emptied

A collection from a cursor takes all elements that remain for it and passes over them. A collection
from a container makes a new cursor, for which all elements of the container remain, and empties it.
It leaves every object and every other iterator as it is.
-/

namespace ObjectModel

open Effect

namespace Store

/-- The store after a cursor has passed over the given number of elements. -/
def passOver (store : Store) (cursor : Value) : Nat → Store
  | 0 => store
  | count + 1 => (store.pass cursor).passOver cursor count

variable {store middle later last : Store} {cursor : Value} {allowed : Store → Store → Prop}

theorem GainsCursors.passOver (gains : store.GainsCursors later)
    (fresh : store.hasCursor cursor = false) (count : Nat) :
    store.GainsCursors (later.passOver cursor count) := by
  induction count generalizing later with
  | zero => exact gains
  | succ count induction => exact induction (gains.pass fresh)

/-- The first elements that remain for a cursor are those that it yields when it passes over
them. -/
theorem course_passOver {items rest : List Value} (has : store.hasCursor cursor)
    (remain : store.remaining cursor = items ++ rest) :
    store.Course allowed (items.map (cursor, ·)) (store.passOver cursor items.length) := by
  induction items generalizing store with
  | nil => exact .start
  | cons item items induction =>
      have remain_after : (store.pass cursor).remaining cursor = items ++ rest := by
        rw [remaining_pass has, remain, List.cons_append, List.tail_cons]
      exact (Course.yield .start remain).trans
        (induction ((advances_pass store cursor).hasCursor has) remain_after)

end Store

variable {context : Context} {world opened : World} {source cursor : Value}

/-- A loop that gathers the elements of a cursor gathers all that remain for it. -/
theorem outcome_foldLoop_gather {next : Value → Effect Value}
    (steps : ∀ world, outcome (next cursor) world = world.step cursor)
    (has : world.store.hasCursor cursor) (kept : List Value) :
    outcome (foldLoop next cursor gather kept) world =
      (.ok ((world.store.remaining cursor).reverse ++ kept),
        { world with
          store := world.store.passOver cursor (world.store.remaining cursor).length }) := by
  refine LoopsTo.outcome_loop ?_
  generalize remain : world.store.remaining cursor = items
  induction items generalizing world kept with
  | nil =>
      have ends : outcome (next cursor) world = (.error .endOfSequence, world) := by
        rw [steps, World.step, remain]
      exact (LoopEnds.finished ends rfl).loopsTo
  | cons item items induction =>
      have yields : outcome (next cursor) world =
          (.ok item, { world with store := world.store.pass cursor }) := by
        rw [steps, World.step, remain]
      have remain_after : (world.store.pass cursor).remaining cursor = items := by
        rw [Store.remaining_pass has, remain, List.tail_cons]
      have has_after := (world.store.advances_pass cursor).hasCursor has
      rw [List.reverse_cons, List.append_assoc]
      exact .again (outcome_foldTurn_of_turn yields (outcome_pure _ _))
        (induction has_after (item :: kept) remain_after)

/-- A collection takes all elements that remain for the cursor that it gets, and moves nothing
else. -/
theorem outcome_collect_of_iter (asks : outcome source.iter world = (.ok cursor, opened))
    (has : opened.store.hasCursor cursor) :
    outcome (source.collect context) world =
      (.ok (opened.store.remaining cursor), { opened with
        store := opened.store.passOver cursor (opened.store.remaining cursor).length }) := by
  have is_cursor := Store.isCursor_of_hasCursor has
  rw [outcome_collect_of_opens asks, outcome_foldLoop_gather (outcome_next_cursor is_cursor) has,
    List.append_nil]
  simp only [Except.map, List.reverse_reverse]

/-- The request for an iterator over a container is answered with a new cursor for which all items
remain. -/
structure Begun (world : World) (source cursor : Value) (opened : World) : Prop where
  asks : outcome source.iter world = (.ok cursor, opened)
  has : opened.store.hasCursor cursor
  fresh : world.store.hasCursor cursor = false
  remaining_eq : opened.store.remaining cursor = world.store.items source
  gains : world.GainsCursors opened

theorem exists_begun (holds : source.holdsItems) (world : World) :
    ∃ cursor opened, Begun world source cursor opened := by
  have opens := opens_iter world source
  obtain ⟨ending, asks⟩ : ∃ ending, outcome source.iter world = ending := ⟨_, rfl⟩
  rw [asks] at opens
  cases opens with
  | itself is_iterator =>
      rw [Value.not_iterator_of_holdsItems holds] at is_iterator
      contradiction
  | cursor not_iterator has fresh adds gains made begins =>
      exact ⟨_, _, asks, has, fresh, begins.trans (gains.1.items_eq source), gains⟩
  | refused holds_none => exact absurd holds (holds_none ▸ Bool.false_ne_true)

/-- A collection from a container yields all its items, and leaves a used cursor behind. -/
theorem exists_outcome_collect (holds : source.holdsItems) (context : Context) (world : World) :
    ∃ later, outcome (source.collect context) world = (.ok (world.store.items source), later) ∧
      world.GainsCursors later := by
  obtain ⟨cursor, opened, asks, has, fresh, remaining_eq, gains, console_eq⟩ :=
    exists_begun holds world
  have collects : outcome (source.collect context) world = _ := outcome_collect_of_iter asks has
  rw [remaining_eq] at collects
  exact ⟨_, collects, gains.passOver fresh _, console_eq⟩

end ObjectModel
