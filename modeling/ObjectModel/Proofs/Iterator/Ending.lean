import ObjectModel.Proofs.Iterator.Chain

/-!
# The end of a mapping

A mapping does not remember that it has ended. When its source has reported the end, nothing
remained for the cursor that its elements come from, and from then on the mapping follows that
cursor. A cursor over a sequence that cannot change has ended for good. A cursor over a container
looks at it again at each step, so it goes on once something has been put at its place or beyond.
-/

namespace ObjectModel

open Effect

variable {context : Context} {cursor : Value}

/-! ## Reports of the source -/

/-- A step of a mapping asks the source of the mapping for an element, and the source fails. -/
inductive SourceFails (context : Context) (ref : Ref) (world : World) (fault : Fault)
    (final : World) : Prop
  | intro {source : Value} {opened : World}
      (opens : outcome (sourceIterator ref) world = (.ok source, opened))
      (callable : (opened.store.mappings.get ref).function.isCallable)
      (fails : outcome (source.next context) opened = (.error fault, final))

/-- A step of a mapping fails as its source does. -/
theorem SourceFails.next_eq {ref : Ref} {world final : World} {fault : Fault}
    (source_fails : SourceFails context ref world fault final) (ends : fault ≠ .endless) :
    outcome ((Value.map ref).next context) world = (.error fault, final) := by
  obtain ⟨opens, callable, fails⟩ := source_fails
  exact outcome_next_map_of_error opens callable fails ends

/-- How a mapping goes on once its source has reported the end, if its elements come from the
cursor. -/
structure FollowsCursor (context : Context) (ref : Ref) (cursor : Value) (ended later : World) :
    Prop where
  /-- As long as nothing remains for the cursor, each step reports the end and changes nothing. -/
  ends : later.store.remaining cursor = [] →
    outcome ((Value.map ref).next context) later = (.error .endOfSequence, later)
  /-- The source reports the end exactly then. -/
  source_ends_iff : (∃ fault final, SourceFails context ref later fault final ∧
    fault.isEndOfSequence) ↔ later.store.remaining cursor = []
  /-- What remains for the cursor has been put at or beyond the place where it has ended. -/
  beyond : later.store.remaining cursor <:+ later.store.remainingSince ended.store cursor
  /-- Over a sequence that cannot change, the mapping has ended for good. -/
  snapshot : ∀ sequence, cursor = .seqIterator sequence → later.store.remaining cursor = []

theorem followsCursor_of_advances {ref : Ref} {source : Value} {ended later : World}
    (has : ended.store.hasCursor cursor) (none_remained : ended.store.remaining cursor = [])
    (held : (ended.store.mappings.get ref).iterator = some source)
    (callable : (ended.store.mappings.get ref).function.isCallable)
    (draws : ended.store.DrawsFrom context cursor source)
    (advances : ended.store.Advances later.store) :
    FollowsCursor context ref cursor ended later := by
  have is_cursor := Store.isCursor_of_hasCursor has
  have draws_later := draws.later advances
  have known := Store.lt_size_of_iterator_eq held
  have callable_later : (later.store.mappings.get ref).function.isCallable := by
    rwa [(advances.mappings.get ref known).function_eq]
  have opens := outcome_sourceIterator_of_held (advances.iterator_eq held)
  have source_fails (none_remain : later.store.remaining cursor = []) :
      SourceFails context ref later .endOfSequence later :=
    .intro opens callable_later (outcome_next_of_ended draws_later is_cursor none_remain)
  refine ⟨fun none_remain => (source_fails none_remain).next_eq nofun, ⟨?_, ?_⟩,
    Store.remaining_suffix has advances, ?_⟩
  · rintro ⟨fault, final, ⟨opens_too, -, fails⟩, signal⟩
    obtain ⟨⟨⟩, rfl⟩ := Prod.mk.inj (opens.symm.trans opens_too)
    by_contra some_remain
    have proper := noSignal_next_of_remaining draws_later is_cursor some_remain
    rw [fails] at proper
    simp [proper fault rfl] at signal
  · exact fun none_remain => ⟨_, _, source_fails none_remain, rfl⟩
  · rintro sequence rfl
    have beyond := Store.remaining_suffix has advances
    rw [Store.remainingSince, ← Store.remaining, none_remained] at beyond
    exact List.suffix_nil.mp beyond

/-- Once its source has reported the end, a mapping follows the cursor that its elements come from,
whatever else is done and with whatever failures. -/
theorem exists_followsCursor_of_sourceFails (hosts : HostsAdvance context.function?) {ref : Ref}
    {world ended : World} {fault : Fault} (known : ref.index < world.store.mappings.size)
    (fed : world.store.FedSilently context (world.store.feed ref))
    (source_fails : SourceFails context ref world fault ended) (signal : fault.isEndOfSequence) :
    outcome ((Value.map ref).next context) world = (.error fault, ended) ∧
      ∃ cursor, ended.store.hasCursor cursor ∧ ended.store.remaining cursor = [] ∧
        ∀ operations : List Operation,
          (∀ operation ∈ operations, operation.BodyAdvances context) →
            FollowsCursor context ref cursor ended
              (Operation.performAll context operations ended) := by
  refine ⟨source_fails.next_eq (ne_endless_of_signal signal), ?_⟩
  obtain ⟨opens, callable, fails⟩ := source_fails
  rename_i source opened
  obtain ⟨cursor, has, none_remain, draws⟩ :=
    exists_cursor_of_signal hosts (fedSilently_of_opens known fed opens) fails signal
  have resolves := resolves_sourceIterator ref world
  rw [opens] at resolves
  have held := resolves.held source rfl known
  have advances := hosts.next source opened
  rw [fails] at advances
  have same_function :=
    (advances.mappings.get ref (Store.lt_size_of_iterator_eq held)).function_eq
  refine ⟨cursor, has, none_remain, fun operations bodies_advance => ?_⟩
  exact followsCursor_of_advances has none_remain (advances.iterator_eq held)
    (same_function ▸ callable) draws (Operation.advances_performAll hosts bodies_advance ended)

/-- A mapping over a list with one item that has yielded it, and a mapping over that mapping. -/
def drained : World where
  store :=
    { lists := ⟨#[[.int 1]]⟩
      listCursors := ⟨#[{ target := ⟨0⟩, place := 1 }]⟩
      mappings := ⟨#[
        { function := .builtin "str", source := .list ⟨0⟩, iterator := some (.listIterator ⟨0⟩) },
        { function := .builtin "len", source := .map ⟨0⟩, iterator := some (.map ⟨0⟩) }]⟩ }

/-- Puts a second item into the list. -/
def refill : Operation :=
  .callMethod (.list ⟨0⟩) "append" [.int 2]

theorem silent_default (function : Value) : Silent {} function :=
  silent_of_isOwn fun _ _ _ => rfl

theorem drawsFrom_drained :
    drained.store.DrawsFrom {} (.listIterator ⟨0⟩) (.map ⟨0⟩) :=
  .map rfl rfl (silent_default _) .cursor

theorem exists_followsCursor_of_sourceFails_drained :
    SourceFails {} ⟨1⟩ drained .endOfSequence drained ∧
      ∃ cursor, drained.store.hasCursor cursor ∧ drained.store.remaining cursor = [] ∧
        FollowsCursor {} ⟨1⟩ cursor drained (Operation.performAll {} [refill] drained) := by
  have source_fails : SourceFails {} ⟨1⟩ drained .endOfSequence drained := by
    refine .intro (outcome_sourceIterator_of_held rfl) rfl ?_
    exact outcome_next_of_ended drawsFrom_drained rfl rfl
  have fed : drained.store.FedSilently {} (.map ⟨0⟩) :=
    .map (by decide) (silent_default _) (.cursor rfl)
  obtain ⟨-, cursor, has, none_remain, follows⟩ :=
    exists_followsCursor_of_sourceFails hostsAdvance_default (by decide) fed source_fails rfl
  refine ⟨source_fails, cursor, has, none_remain, follows [refill] ?_⟩
  simp [refill, Operation.BodyAdvances]

/-- A mapping can go on after its source has reported the end. -/
theorem not_endsForGood :
    ¬ ∀ (context : Context) (ref : Ref) (world ended : World) (fault : Fault)
      (operations : List Operation), SourceFails context ref world fault ended →
        fault.isEndOfSequence → ∃ again later,
          outcome ((Value.map ref).next context) (Operation.performAll context operations ended) =
            (.error again, later) ∧ again.isEndOfSequence := by
  intro ends_for_good
  have source_fails : SourceFails {} ⟨0⟩ drained .endOfSequence drained := by
    have itself : drained.store.DrawsFrom {} (.listIterator ⟨0⟩) (.listIterator ⟨0⟩) := .cursor
    refine .intro (outcome_sourceIterator_of_held rfl) rfl ?_
    exact outcome_next_of_ended itself rfl rfl
  obtain ⟨again, later, fails, signal⟩ :=
    ends_for_good {} ⟨0⟩ drained drained .endOfSequence [refill] source_fails rfl
  have advances : drained.store.Advances (Operation.performAll {} [refill] drained).store :=
    Operation.advances_performAll hostsAdvance_default
      (by simp [refill, Operation.BodyAdvances]) drained
  have some_remain : (Operation.performAll {} [refill] drained).store.remaining
      (.listIterator ⟨0⟩) ≠ [] := by
    decide
  have proper := noSignal_next_of_remaining (drawsFrom_drained.later advances) rfl some_remain
  rw [fails] at proper
  simp [proper again rfl] at signal

end ObjectModel
