import ObjectModel.Proofs.Effect.Call

/-!
# The steps of iterators

A step of a mapping asks for the iterator over its source, looks whether its function can be called,
takes an element from the iterator and calls the function with it, in that order. A step of a cursor
rests on no further step.
-/

namespace ObjectModel

open Effect

variable {context : Context} {world later : World}

theorem outcome_stepBy_cursor {cursor : Value} (is_cursor : cursor.isCursor)
    (next : Value → Effect Value) (world : World) :
    outcome (stepBy context next cursor) world = world.step cursor := by
  cases cursor with
  | listIterator ref => exact outcome_nextInList_eq_step ref world
  | setIterator ref => exact outcome_nextInTable_eq_step ref world
  | dictKeyIterator ref => exact outcome_nextInTable_eq_step ref world
  | seqIterator ref => exact outcome_nextInSequence_eq_step ref world
  | _ => contradiction

theorem outcome_stepBy_container {source : Value} (not_iterator : source.isIterator = false)
    (next : Value → Effect Value) (world : World) :
    outcome (stepBy context next source) world = (.error (.notIterator source.kind), world) := by
  cases source <;> first | rfl | contradiction

theorem outcome_stepBy_map {ref : Ref} {iterator : Value}
    (opens : outcome (sourceIterator ref) world = (.ok iterator, later))
    (next : Value → Effect Value) :
    outcome (stepBy context next (.map ref)) world =
      let function := (later.store.mappings.get ref).function
      if function.isCallable then
        outcome (next iterator >>= fun item =>
          callBy context next function (.ofList [item])) later
      else (.error (.notCallable function.kind), later) := by
  rw [stepBy, outcome_bind_of_ok opens, outcome_bind_of_ok (outcome_getStore later)]
  dsimp only
  split
  · rfl
  · rfl

/-- The step of a cursor takes the first element that remains. -/
theorem outcome_next_cursor {cursor : Value} (is_cursor : cursor.isCursor) (world : World) :
    outcome (cursor.next context) world = world.step cursor := by
  have steps : outcome (nextWithin context 1 cursor) world = world.step cursor :=
    outcome_stepBy_cursor is_cursor (nextWithin context 0) world
  have first : FirstToEnd (nextWithin context · cursor) world 1 :=
    { ends := fun endless => world.step_ne_endless cursor (steps ▸ endless)
      before := fun less below => by
        obtain rfl := Nat.lt_one_iff.mp below
        rfl }
  exact first.outcome_unbounded.trans steps

/-- A step of a mapping fails as the step of its source does. -/
theorem outcome_next_map_of_error {ref : Ref} {source : Value} {opened : World} {fault : Fault}
    (opens : outcome (sourceIterator ref) world = (.ok source, opened))
    (callable : (opened.store.mappings.get ref).function.isCallable)
    (fails : outcome (source.next context) opened = (.error fault, later))
    (ends : fault ≠ .endless) :
    outcome ((Value.map ref).next context) world = (.error fault, later) := by
  have asks (depth : Nat) : outcome (nextWithin context (depth + 1) (.map ref)) world =
      outcome (nextWithin context depth source >>= fun item =>
        callBy context (nextWithin context depth) (opened.store.mappings.get ref).function
          (.ofList [item])) opened := by
    rw [nextWithin, outcome_stepBy_map opens]
    exact if_pos callable
  rcases firstToEnd_or_endless (nextWithin context · source) opened with
    ⟨depth, first, same⟩ | ⟨-, endless⟩
  · have map_fails : outcome (nextWithin context (depth + 1) (.map ref)) world =
        (.error fault, later) := by
      rw [asks, outcome_bind, ← same, ← Value.next, fails]
    have map_first : FirstToEnd (nextWithin context · (.map ref)) world (depth + 1) :=
      { ends := by
          rw [map_fails]
          exact fun endless => ends (endless_error_iff.mp endless)
        before := fun less below => by
          cases less with
          | zero => rfl
          | succ less =>
              rw [asks]
              exact endless_bind (first.before less (Nat.lt_of_succ_lt_succ below)) }
    exact map_first.outcome_unbounded.trans map_fails
  · have gives_up := fails.symm.trans endless
    cases gives_up
    exact absurd rfl ends

end ObjectModel
