import ObjectModel.Proofs.Iterator.Step
import ObjectModel.Proofs.Operation.Advancing
import ObjectModel.Proofs.Operation.Signal

/-!
# Chains of mappings

The source of a mapping can be a mapping again, and so on down to a cursor. A step of the first one
steps through the whole chain and then calls the functions on the way back. So it ends when nothing
remains for the cursor, and unless one of the functions says so too, it ends only then.
-/

namespace ObjectModel

open Effect

/-- No call of the value fails with the end of a sequence. -/
def Silent (context : Context) (function : Value) : Prop :=
  ∀ depth frame, NeverSignals (callBy context (nextWithin context depth) function frame)

variable {context : Context} {function value cursor : Value}

theorem silent_of_isOwn (own : IsOwn context.function? function) : Silent context function :=
  fun _ frame => neverSignals_callBy _ own frame

namespace Store

/-- A source whose elements come out of a container or a cursor, through mappings whose functions
never report the end of a sequence. -/
inductive FedSilently (context : Context) (store : Store) : Value → Prop
  | container {source : Value} (not_iterator : source.isIterator = false) :
      FedSilently context store source
  | cursor {cursor : Value} (has : store.hasCursor cursor) : FedSilently context store cursor
  | map {ref : Ref} (known : ref.index < store.mappings.size)
      (silent : Silent context (store.mappings.get ref).function)
      (rest : FedSilently context store (store.feed ref)) : FedSilently context store (.map ref)

/-- An iterator whose elements come from the cursor, through mappings whose functions can be called
and never report the end of a sequence. -/
inductive DrawsFrom (context : Context) (store : Store) (cursor : Value) : Value → Prop
  | cursor : DrawsFrom context store cursor cursor
  | map {ref : Ref} {source : Value}
      (held : (store.mappings.get ref).iterator = some source)
      (callable : (store.mappings.get ref).function.isCallable)
      (silent : Silent context (store.mappings.get ref).function)
      (rest : DrawsFrom context store cursor source) : DrawsFrom context store cursor (.map ref)

variable {store : Store}

/-! ## The links of a chain stay -/

theorem DrawsFrom.later {later : Store} (draws : store.DrawsFrom context cursor value)
    (advances : store.Advances later) : later.DrawsFrom context cursor value := by
  induction draws with
  | cursor => exact .cursor
  | @map ref source held callable silent rest induction =>
      have same_function :=
        (advances.mappings.get ref (lt_size_of_iterator_eq held)).function_eq
      exact .map (advances.iterator_eq held) (same_function ▸ callable) (same_function ▸ silent)
        induction

theorem feed_resolve {ref : Ref} (known : ref.index < store.mappings.size)
    (unopened : (store.mappings.get ref).iterator = none) (other : Ref) :
    (store.resolve ref (store.mappings.get ref).source).feed other = store.feed other := by
  by_cases same : other = ref
  · simp [feed, resolve, same, known, unopened]
  · rw [feed, resolve, Pool.get_set_of_ne _ _ same, feed]

/-- What a mapping draws its elements from stays when the mapping gets its iterator. -/
theorem FedSilently.resolve {ref : Ref} (fed : store.FedSilently context value)
    (known : ref.index < store.mappings.size)
    (unopened : (store.mappings.get ref).iterator = none) :
    (store.resolve ref (store.mappings.get ref).source).FedSilently context value := by
  induction fed with
  | container not_iterator => exact .container not_iterator
  | cursor has => exact .cursor ((store.hasCursor_resolve ref _ _).trans has)
  | @map other other_known silent rest induction =>
      refine .map ?_ ?_ ?_
      · rwa [Store.resolve, Pool.size_set]
      · rwa [store.function_resolve]
      · rwa [feed_resolve known unopened]

end Store

/-- The iterator that a mapping gets for its source is fed as the source was. -/
theorem fedSilently_of_opens {ref : Ref} {source : Value} {world opened : World}
    (known : ref.index < world.store.mappings.size)
    (fed : world.store.FedSilently context (world.store.feed ref))
    (opens : outcome (sourceIterator ref) world = (.ok source, opened)) :
    opened.store.FedSilently context source := by
  rw [outcome_sourceIterator] at opens
  rw [Store.feed] at fed
  cases held : (world.store.mappings.get ref).iterator with
  | some iterator =>
      rw [held] at opens fed
      obtain ⟨⟨⟩, rfl⟩ := Prod.mk.inj opens
      exact fed
  | none =>
      rw [held] at opens fed
      have asks := opens_iter world (world.store.mappings.get ref).source
      dsimp only at opens
      generalize outcome (world.store.mappings.get ref).source.iter world = ending at asks opens
      cases asks with
      | itself is_iterator =>
          obtain ⟨⟨⟩, rfl⟩ := Prod.mk.inj opens
          exact fed.resolve known held
      | cursor not_iterator has adds mappings_eq =>
          obtain ⟨⟨⟩, rfl⟩ := Prod.mk.inj opens
          exact .cursor ((Store.hasCursor_resolve _ _ _ _).trans has)
      | refused =>
          obtain ⟨⟨⟩, -⟩ := Prod.mk.inj opens

/-! ## Steps down a chain -/

/-- Where nothing remains for the cursor, a step of the chain ends, and changes nothing. -/
theorem outcome_next_of_ended {world : World}
    (draws : world.store.DrawsFrom context cursor value) (is_cursor : cursor.isCursor)
    (ended : world.store.remaining cursor = []) :
    outcome (value.next context) world = (.error .endOfSequence, world) := by
  induction draws with
  | cursor => rw [outcome_next_cursor is_cursor, World.step, ended]
  | map held callable silent rest induction =>
      exact outcome_next_map_of_error (outcome_sourceIterator_of_held held) callable induction
        (ne_endless_of_signal rfl)

theorem noSignal_nextWithin_of_remaining (depth : Nat) {world : World}
    (draws : world.store.DrawsFrom context cursor value) (is_cursor : cursor.isCursor)
    (some_remain : world.store.remaining cursor ≠ []) :
    NoSignal (outcome (nextWithin context depth value) world).1 := by
  induction draws generalizing depth with
  | cursor =>
      cases depth with
      | zero => exact noSignal_error rfl
      | succ depth =>
          obtain ⟨item, rest, remain⟩ := List.exists_cons_of_ne_nil some_remain
          rw [nextWithin, outcome_stepBy_cursor is_cursor, World.step, remain]
          exact noSignal_ok item
  | @map ref source held callable silent rest induction =>
      cases depth with
      | zero => exact noSignal_error rfl
      | succ depth =>
          have source_proper := induction depth
          rw [nextWithin, outcome_stepBy_map (outcome_sourceIterator_of_held held)]
          dsimp only
          rw [if_pos callable, outcome_bind]
          generalize outcome (nextWithin context depth source) world = ending at source_proper ⊢
          obtain ⟨fault | item, later⟩ := ending
          · exact noSignal_error (source_proper fault rfl)
          · exact silent depth _ later

/-- Where something remains for the cursor, no step of the chain reports the end of a sequence. -/
theorem noSignal_next_of_remaining {world : World}
    (draws : world.store.DrawsFrom context cursor value) (is_cursor : cursor.isCursor)
    (some_remain : world.store.remaining cursor ≠ []) :
    NoSignal (outcome (value.next context) world).1 :=
  noSignal_unbounded fun depth => noSignal_nextWithin_of_remaining depth draws is_cursor some_remain

/-- A step of a mapping reports the end of a sequence only if its source or its function does. -/
theorem exists_source_of_signal {ref : Ref} {depth : Nat} {world ended : World} {fault : Fault}
    (reports : outcome (nextWithin context (depth + 1) (.map ref)) world = (.error fault, ended))
    (signal : fault.isEndOfSequence) :
    ∃ source opened, outcome (sourceIterator ref) world = (.ok source, opened) ∧
      (opened.store.mappings.get ref).function.isCallable ∧
      (outcome (nextWithin context depth source) opened = (.error fault, ended) ∨
        ∃ item middle, outcome (callBy context (nextWithin context depth)
          (opened.store.mappings.get ref).function (.ofList [item])) middle =
            (.error fault, ended)) := by
  have proper := (resolves_sourceIterator ref world).proper
  cases opens : outcome (sourceIterator ref) world with
  | mk result opened =>
      rw [opens] at proper
      cases result with
      | error cause =>
          rw [nextWithin, stepBy, outcome_bind, opens] at reports
          obtain ⟨⟨⟩, -⟩ := Prod.mk.inj reports
          simp [proper fault rfl] at signal
      | ok source =>
          rw [nextWithin, outcome_stepBy_map opens] at reports
          dsimp only at reports
          split at reports
          · rename_i callable
            refine ⟨source, opened, rfl, callable, ?_⟩
            rw [outcome_bind] at reports
            generalize outcome (nextWithin context depth source) opened = ending at reports ⊢
            obtain ⟨cause | item, middle⟩ := ending
            · exact .inl reports
            · exact .inr ⟨item, middle, reports⟩
          · obtain ⟨⟨⟩, -⟩ := Prod.mk.inj reports
            contradiction

theorem exists_cursor_of_signal_within (hosts : HostsAdvance context.function?) {depth : Nat}
    {world ended : World} {fault : Fault} (fed : world.store.FedSilently context value)
    (reports : outcome (nextWithin context depth value) world = (.error fault, ended))
    (signal : fault.isEndOfSequence) :
    ∃ cursor, ended.store.hasCursor cursor ∧ ended.store.remaining cursor = [] ∧
      ended.store.DrawsFrom context cursor value := by
  induction depth generalizing value world with
  | zero =>
      obtain ⟨⟨⟩, -⟩ := Prod.mk.inj reports
      contradiction
  | succ depth induction =>
      cases fed with
      | container not_iterator =>
          rw [nextWithin, outcome_stepBy_container not_iterator] at reports
          obtain ⟨⟨⟩, -⟩ := Prod.mk.inj reports
          contradiction
      | cursor has =>
          rw [nextWithin, outcome_stepBy_cursor (Store.isCursor_of_hasCursor has)] at reports
          obtain ⟨none_remain, -, rfl⟩ := World.eq_of_step_error reports
          exact ⟨value, has, none_remain, .cursor⟩
      | @map ref known silent rest =>
          -- the function is silent, so its source has reported; the links made meanwhile stay
          obtain ⟨source, opened, opens, callable, source_reports⟩ :=
            exists_source_of_signal reports signal
          have resolves := resolves_sourceIterator ref world
          rw [opens] at resolves
          have advances := (resolves.evolves fun _ => False).advances
          have same_function := (advances.mappings.get ref known).function_eq
          rcases source_reports with source_reports | ⟨item, middle, calls⟩
          · obtain ⟨cursor, has, none_remain, draws⟩ :=
              induction (fedSilently_of_opens known rest opens) source_reports
            have advances := hosts.nextWithin depth source opened
            rw [source_reports] at advances
            have held := resolves.held source rfl known
            have same_later :=
              (advances.mappings.get ref (Store.lt_size_of_iterator_eq held)).function_eq
            refine ⟨cursor, has, none_remain, .map (advances.iterator_eq held) ?_ ?_ draws⟩
            · rwa [same_later]
            · rwa [same_later, same_function]
          · rw [same_function] at calls
            simp [(silent depth _).not_error calls] at signal

/-- Where the functions of a chain never report the end of a sequence, a step of it does so only if
nothing remains for the cursor. -/
theorem exists_cursor_of_signal (hosts : HostsAdvance context.function?) {world ended : World}
    {fault : Fault} (fed : world.store.FedSilently context value)
    (reports : outcome (value.next context) world = (.error fault, ended))
    (signal : fault.isEndOfSequence) :
    ∃ cursor, ended.store.hasCursor cursor ∧ ended.store.remaining cursor = [] ∧
      ended.store.DrawsFrom context cursor value := by
  have ends : ¬Endless (outcome (value.next context) world) := by
    rw [reports]
    exact fun endless => ne_endless_of_signal signal (endless_error_iff.mp endless)
  obtain ⟨depth, same⟩ := exists_attempt ends
  exact exists_cursor_of_signal_within hosts fed (same.trans reports) signal

end ObjectModel
