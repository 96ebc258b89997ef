import ObjectModel.Proofs.Effect.Approach
import ObjectModel.Proofs.Effect.Relation
import ObjectModel.Proofs.Iterator.Step
import ObjectModel.Proofs.Store.Layers

/-!
# Draining

A step that yields an element takes it from what is left of the iterator, and what is left never
grows as long as iteration is undisturbed. So only as many steps yield an element as there are
elements left. A step that does not end is stuck in the call of a function, by the mapping itself or
by one that it goes over.
-/

namespace ObjectModel

open Effect

variable {growth : Value → Nat → Nat} {context : Context} {layers count : Nat} {ref : Ref}
  {world opened later : World} {source iterator item : Value}

/-! ## Functions of the host -/

theorem allowsChanges_undisturbed : AllowsChanges (fun _ => True) Store.Undisturbed where
  refl := .refl
  trans := .trans
  course evolves := evolves.undisturbed

/-- The functions of the host do not disturb iteration if the step of iterators that they get does
not: they leave the contents of containers as they are, and iterators move forward only. -/
def HostsUndisturbing (function? : String → Option HostFunction) : Prop :=
  ∀ name host, function? name = some host → ∀ next : Value → Effect Value,
    (∀ iterator, Relates Store.Undisturbed (next iterator)) →
      ∀ arguments, Relates Store.Undisturbed (host next arguments)

theorem hostsUndisturbing_default : HostsUndisturbing (fun _ => none) :=
  fun _ _ found => nomatch found

namespace HostsUndisturbing

theorem routines (hosts : HostsUndisturbing context.function?) :
    HostRoutines (fun _ effect => Relates Store.Undisturbed (effect context.config)) (fun _ => True)
      context.function? :=
  fun name host found _ steps arguments =>
    .foreign (hosts name host found _
      (fun iterator => (steps iterator).relates allowsChanges_undisturbed) arguments)

theorem next (hosts : HostsUndisturbing context.function?) (iterator : Value) :
    Relates Store.Undisturbed (iterator.next context) :=
  (routine_next hosts.routines iterator).relates allowsChanges_undisturbed

theorem call (hosts : HostsUndisturbing context.function?) (function : Value) (frame : Frame) :
    Relates Store.Undisturbed (function.call context frame) :=
  (routine_call hosts.routines function frame).relates allowsChanges_undisturbed

end HostsUndisturbing

theorem undisturbed_sourceIterator (ref : Ref) : Relates Store.Undisturbed (sourceIterator ref) :=
  fun world => ((resolves_sourceIterator ref world).evolves fun _ => True).undisturbed

theorem World.undisturbed_step (world : World) (cursor : Value) :
    world.store.Undisturbed (world.step cursor).2.store :=
  (world.evolves_step cursor).undisturbed

/-! ## Steps of mappings -/

/-- Calls a function with one value. -/
def callWith (context : Context) (function item : Value) : Effect Value :=
  function.call context (.ofList [item])

/-- The step of a mapping takes an element from its source and calls its function with that. -/
theorem endsAs_next_map (hosts : HostsContinuous context.function?)
    (opens : outcome (sourceIterator ref) world = (.ok source, opened))
    (callable : (opened.store.mappings.get ref).function.isCallable) :
    EndsAs (outcome ((Value.map ref).next context) world)
        (outcome (source.next context >>=
          callWith context (opened.store.mappings.get ref).function) opened) ∧
      EndsAs (outcome (source.next context >>=
          callWith context (opened.store.mappings.get ref).function) opened)
        (outcome ((Value.map ref).next context) world) := by
  have steps := hosts.next_eq_stepBy (.map ref) world
  rwa [outcome_stepBy_map opens, if_pos callable] at steps

/-- What the step of a mapping that yields an element consists of. -/
inductive MapYields (context : Context) (ref : Ref) (world : World) (result : Value)
    (later : World) : Prop
  | intro {source item : Value} {opened middle : World}
      (opens : outcome (sourceIterator ref) world = (.ok source, opened))
      (callable : (opened.store.mappings.get ref).function.isCallable)
      (yields : outcome (source.next context) opened = (.ok item, middle))
      (returns : outcome (callWith context (opened.store.mappings.get ref).function item) middle =
        (.ok result, later))

theorem mapYields_of_next (hosts : HostsContinuous context.function?) {result : Value}
    (yields : outcome ((Value.map ref).next context) world = (.ok result, later)) :
    MapYields context ref world result later := by
  have steps := (hosts.next_eq_stepBy (.map ref) world).1
  rw [yields] at steps
  replace steps := steps.eq nofun
  obtain ⟨⟨fault | source, opened⟩, opens⟩ :
      ∃ ending, outcome (sourceIterator ref) world = ending := ⟨_, rfl⟩
  · rw [stepBy, outcome_bind, opens] at steps
    cases steps
  · rw [outcome_stepBy_map opens] at steps
    dsimp only at steps
    split at steps
    · rename_i callable
      rw [outcome_bind] at steps
      obtain ⟨⟨fault | item, middle⟩, taken⟩ :
          ∃ ending, outcome (source.next context) opened = ending := ⟨_, rfl⟩
      · rw [taken] at steps
        cases steps
      · rw [taken] at steps
        exact .intro opens callable taken steps.symm
    · cases steps

/-- A mapping takes its elements from the iterator that it has got, and that has fewer layers. -/
theorem exists_source_layered (layered : world.store.Layered growth layers (.map ref))
    (opens : outcome (sourceIterator ref) world = (.ok source, opened)) :
    (opened.store.mappings.get ref).iterator = some source ∧
      ∃ under < layers, growth (opened.store.mappings.get ref).function under ≤ layers ∧
        opened.store.Layered growth under source := by
  have undisturbed := undisturbed_sourceIterator ref world
  have held := (resolves_sourceIterator ref world).held
  rw [opens] at undisturbed held
  have held_source := held source rfl layered.made
  refine ⟨held_source, ?_⟩
  obtain ⟨under, below, grows, feed_layered⟩ := (layered.kept undisturbed).feed
  rw [Store.feed, held_source] at feed_layered
  exact ⟨under, below, grows, feed_layered⟩

theorem next_of_not_iterator (hosts : HostsContinuous context.function?)
    (not_iterator : source.isIterator = false) (world : World) :
    outcome (source.next context) world = (.error (.notIterator source.kind), world) := by
  have steps := (hosts.next_eq_stepBy source world).2
  rw [outcome_stepBy_container not_iterator] at steps
  exact (steps.eq fun endless => by cases endless_error_iff.mp endless).symm

/-! ## What is left -/

/-- The iterator over what is drainable has layers. -/
theorem exists_iterator_layered (drainable : world.store.Drainable source)
    (asks : outcome source.iter world = (.ok iterator, opened)) :
    ∃ layers, opened.store.Layered growth layers iterator := by
  obtain ⟨layers, layered⟩ : ∃ layers, world.store.Layered growth layers source :=
    drainable.exists_layered
  have opens := opens_iter world source
  rw [asks] at opens
  have undisturbed : world.store.Undisturbed opened.store := opens.evolves.undisturbed
  have goes_over := opens.iteratesOver (undisturbed.spares.knows layered.made.knows)
  exact ⟨layers, (layered.kept undisturbed).of_iteratesOver goes_over⟩

/-- A step that yields an element takes it from what is left. -/
theorem fewer_of_next (continuous : HostsContinuous context.function?)
    (undisturbing : HostsUndisturbing context.function?)
    (layered : world.store.Layered growth layers iterator)
    (at_most : world.store.AtMost count iterator)
    (yields : outcome (iterator.next context) world = (.ok item, later)) :
    ∃ fewer, count = fewer + 1 ∧ later.store.AtMost fewer iterator := by
  induction layers using Nat.strong_induction_on generalizing world iterator item later with
  | _ layers induction =>
      cases at_most with
      | @cursor cursor is_cursor le =>
          rw [outcome_next_cursor is_cursor] at yields
          rw [World.remaining_of_step_ok (layered.made.hasCursor is_cursor) yields,
            List.length_cons] at le
          obtain ⟨fewer, rfl⟩ := Nat.exists_eq_add_of_le' (Nat.one_le_of_lt le)
          exact ⟨fewer, rfl, .cursor is_cursor (Nat.le_of_succ_le_succ le)⟩
      | container not_iterator =>
          cases (next_of_not_iterator continuous not_iterator world).symm.trans yields
      | @map ref rest =>
          obtain @⟨source, element, opened, middle, opens, callable, takes, returns⟩ :=
            mapYields_of_next continuous yields
          obtain ⟨held, under, below, -, source_layered⟩ := exists_source_layered layered opens
          have open_undisturbed := undisturbed_sourceIterator ref world
          have take_undisturbed := undisturbing.next source opened
          have call_undisturbed := undisturbing.call
            (opened.store.mappings.get ref).function (.ofList [element]) middle
          rw [opens] at open_undisturbed
          rw [takes] at take_undisturbed
          rw [← callWith, returns] at call_undisturbed
          have at_most_source := ((Store.AtMost.map rest).kept layered open_undisturbed).feed
          rw [Store.feed, held] at at_most_source
          obtain ⟨fewer, rfl, left⟩ := induction under below source_layered at_most_source takes
          refine ⟨fewer, rfl, .map ?_⟩
          rw [Store.feed, call_undisturbed.advances.iterator_eq
            (take_undisturbed.advances.iterator_eq held)]
          exact left.kept (source_layered.kept take_undisturbed) call_undisturbed

/-- Each turn of a loop takes one element of what is left, if its step does not disturb iteration.
-/
theorem LoopTurns.turns_le {σ : Type} {step : σ → Value → Effect σ} {turns : Nat} {state last : σ}
    (continuous : HostsContinuous context.function?)
    (undisturbing : HostsUndisturbing context.function?)
    (steps_undisturbed : ∀ state item, Relates Store.Undisturbed (step state item))
    (layered : world.store.Layered growth layers iterator)
    (at_most : world.store.AtMost count iterator)
    (takes : LoopTurns (Value.next context) iterator step turns state world last later) :
    turns ≤ count := by
  induction takes generalizing count with
  | none => exact Nat.zero_le count
  | @turn _ state _ _ world middle _ _ item yields steps _ induction =>
      have take_undisturbed := undisturbing.next iterator world
      have step_undisturbed := steps_undisturbed state item middle
      rw [yields] at take_undisturbed
      rw [steps] at step_undisturbed
      have layered_middle := layered.kept take_undisturbed
      obtain ⟨fewer, rfl, left⟩ := fewer_of_next continuous undisturbing layered at_most yields
      exact Nat.succ_le_succ (induction (layered_middle.kept step_undisturbed)
        (left.kept layered_middle step_undisturbed))

/-- No loop over what is drainable takes full turns without end, if its step does not disturb
iteration. -/
theorem Store.Drainable.not_forall_loopTurns {σ : Type} {step : σ → Value → Effect σ} {state : σ}
    (drainable : world.store.Drainable source) (continuous : HostsContinuous context.function?)
    (undisturbing : HostsUndisturbing context.function?)
    (steps_undisturbed : ∀ state item, Relates Store.Undisturbed (step state item))
    (asks : outcome source.iter world = (.ok iterator, opened)) :
    ¬∀ turns, ∃ last later,
      LoopTurns (Value.next context) iterator step turns state opened last later := by
  intro goes_on
  obtain ⟨layers, layered⟩ : ∃ layers, opened.store.Layered (fun _ _ => 0) layers iterator :=
    exists_iterator_layered drainable asks
  obtain ⟨count, at_most⟩ := layered.exists_atMost
  obtain ⟨last, later, takes⟩ := goes_on (count + 1)
  have := takes.turns_le continuous undisturbing steps_undisturbed layered at_most
  omega

/-! ## Steps that do not end -/

/-- A step of an iterator is stuck in the call of a function with an element of the source, by the
mapping itself or by one that it goes over. -/
inductive Stalls (context : Context) : World → Value → Prop
  | call {ref : Ref} {source item : Value} {world opened middle : World}
      (opens : outcome (sourceIterator ref) world = (.ok source, opened))
      (callable : (opened.store.mappings.get ref).function.isCallable)
      (yields : outcome (source.next context) opened = (.ok item, middle))
      (endless : Endless (outcome (callWith context (opened.store.mappings.get ref).function item)
        middle)) : Stalls context world (.map ref)
  | source {ref : Ref} {source : Value} {world opened : World}
      (opens : outcome (sourceIterator ref) world = (.ok source, opened))
      (callable : (opened.store.mappings.get ref).function.isCallable)
      (rest : Stalls context opened source) : Stalls context world (.map ref)

theorem Stalls.endless (hosts : HostsContinuous context.function?)
    (stalls : Stalls context world iterator) :
    Endless (outcome (iterator.next context) world) := by
  induction stalls with
  | call opens callable yields endless =>
      rcases (endsAs_next_map hosts opens callable).1 with stuck | same
      · exact stuck
      · rwa [same, outcome_bind, yields]
  | source opens callable _ source_endless =>
      rcases (endsAs_next_map hosts opens callable).1 with stuck | same
      · exact stuck
      · rw [same]
        exact endless_bind source_endless

end ObjectModel
