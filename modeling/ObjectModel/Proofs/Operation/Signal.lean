import ObjectModel.Proofs.Effect.Loop
import ObjectModel.Proofs.Operation.Routine

/-!
# Who reports the end of a sequence

The end of a sequence is a fault like others, and a function of the host can fail with it too. An
iterator that is asked for an element hands it on; all other operations of the object model consume
it. A loop ends at it and hands on every other fault of its iterator, and whatever its body fails
with. So an operation fails with the end of a sequence if it asks an iterator itself, or if it hands
over to something else that failed with it.
-/

namespace ObjectModel

open Effect

variable {context : Context} {world later : World} {fault : Fault}

/-- The end of a sequence is none of the outcomes of an effect that never signals. -/
theorem Effect.NeverSignals.not_error {α : Type} {effect : Effect α} (silent : NeverSignals effect)
    (fails : outcome effect world = (.error fault, later)) : fault.isEndOfSequence = false :=
  silent world fault (by rw [fails])

/-! ## Calls and loops -/

/-- Where anything is admitted, the functions of the host are routines. -/
theorem hostRoutines_of_any (function? : String → Option HostFunction) :
    HostRoutines (fun _ _ => True) (fun _ => False) function? :=
  fun _ _ _ _ _ _ => .foreign trivial

/-- Most operations consume each end of a sequence, whatever the functions of the host do. -/
theorem neverSignals_perform {operation : Operation} (consumes : operation.consumesEnds) :
    NeverSignals (operation.perform context) :=
  have performs : Routine (fun _ _ => True) (fun _ => False) false fun config =>
      operation.perform { config, function? := context.function? } :=
    Operation.routine_perform_of_consumesEnds (hostRoutines_of_any context.function?) consumes
      fun _ _ _ _ => not_false
  performs.neverSignals context.config

/-- A call of anything but a function of the host consumes each end of a sequence, whatever the step
of iterators does. -/
theorem neverSignals_callBy (next : Value → Effect Value) {function : Value}
    (own : IsOwn context.function? function) (frame : Frame) :
    NeverSignals (callBy context next function frame) :=
  have calls : Routine (fun _ _ => True) (fun _ => False) false fun config =>
      callBy { config, function? := context.function? } next function frame :=
    routine_callBy_of_isOwn (fun _ => .foreign trivial) own frame
  calls.neverSignals context.config

/-- A call fails with the end of a sequence only if it calls a function of the host that does. -/
theorem exists_host_of_call_error {function : Value} {frame : Frame}
    (fails : outcome (function.call context frame) world = (.error fault, later))
    (signal : fault.isEndOfSequence) :
    ∃ name host arguments, function = .builtin name ∧ Builtin.ofName? name = none ∧
      context.function? name = some host ∧ frame.arguments = .ok arguments ∧
        outcome (host (Value.next context) arguments) world = (.error fault, later) := by
  rw [Value.call] at fails
  by_cases own : IsOwn context.function? function
  · have proper := (neverSignals_callBy _ own frame).not_error fails
    simp [proper] at signal
  · simp only [IsOwn, not_forall] at own
    obtain ⟨name, rfl, named, found⟩ := own
    obtain ⟨host, found⟩ := Option.ne_none_iff_exists'.mp found
    rw [callBy_of_function? named found, outcome_bind, outcome_ofExcept] at fails
    cases asks : frame.arguments with
    | error cause =>
        rw [asks] at fails
        obtain ⟨⟨⟩, -⟩ := Prod.mk.inj fails
        simp [frame.noSignal_arguments fault asks] at signal
    | ok arguments =>
        rw [asks] at fails
        exact ⟨name, host, arguments, rfl, named, found, rfl, fails⟩

/-- A loop over something that cannot be iterated over fails as the request for an iterator does. -/
theorem outcome_forEach_of_error {source : Value} {body : Value → Effect Unit}
    (refuses : outcome source.iter world = (.error fault, later)) :
    outcome (source.forEach context body) world = (.error fault, later) := by
  rw [Value.forEach, foldItems, outcome_bind, refuses]

theorem outcome_forEach_of_ok {source iterator : Value} {body : Value → Effect Unit}
    (opens : outcome source.iter world = (.ok iterator, later)) :
    outcome (source.forEach context body) world =
      outcome (foldLoop (Value.next context) iterator (fun _ item => body item) ()) later := by
  rw [Value.forEach, foldItems, outcome_bind_of_ok opens]

/-- A loop fails with the end of a sequence only if its body does. -/
theorem exists_body_of_forEach_error {source : Value} {body : Value → Effect Unit}
    (fails : outcome (source.forEach context body) world = (.error fault, later))
    (signal : fault.isEndOfSequence) :
    ∃ item earlier, outcome (body item) earlier = (.error fault, later) := by
  cases opens : outcome source.iter world with
  | mk result opened =>
      cases result with
      | error cause =>
          rw [outcome_forEach_of_error opens] at fails
          obtain ⟨⟨⟩, -⟩ := Prod.mk.inj fails
          have asks : Routine (fun _ _ => True) (fun _ => False) false fun _ => source.iter :=
            routine_iter source
          simp [(asks.neverSignals context.config).not_error opens] at signal
      | ok iterator =>
          rw [outcome_forEach_of_ok opens, outcome_foldLoop_eq_iff] at fails
          rcases fails with ⟨turns, last, final, -, ends⟩ | ⟨-, endless⟩
          · cases ends with
            | broken fails proper => simp [proper] at signal
            | refused yields fails => exact ⟨_, _, fails⟩
          · obtain ⟨⟨⟩, -⟩ := Prod.mk.inj endless
            contradiction

namespace Operation

/-- Where the end of a sequence can come from with which an operation fails. -/
inductive SignalledBy (context : Context) (world : World) (fault : Fault) (later : World) :
    Operation → Prop
  | next (iterator : Value) : SignalledBy context world fault later (.next iterator)
  | call {name : String} {host : HostFunction} {frame : Frame} {arguments : List Value}
      (foreign : Builtin.ofName? name = none) (found : context.function? name = some host)
      (asks : frame.arguments = .ok arguments)
      (fails : outcome (host (Value.next context) arguments) world = (.error fault, later)) :
      SignalledBy context world fault later (.call (.builtin name) frame)
  | forEach {source item : Value} {body : Context → Value → Effect Unit} {earlier : World}
      (fails : outcome (body context item) earlier = (.error fault, later)) :
      SignalledBy context world fault later (.forEach source body)
  | observe {query : Store → Except Fault (List Value)}
      (fails : query world.store = .error fault) :
      SignalledBy context world fault later (.observe query)

end Operation

/-- What becomes of the end of a sequence, and of other faults in loops. -/
structure ConfinesSignals (context : Context) : Prop where
  /-- An operation fails with the end of a sequence only if it asks an iterator for an element, or
  if a function of the host that it calls, the body of a loop or a query fails with it. -/
  signalledBy : ∀ (operation : Operation) (world later : World) (fault : Fault),
    outcome (operation.perform context) world = (.error fault, later) → fault.isEndOfSequence →
      operation.SignalledBy context world fault later
  /-- A loop over what cannot be iterated over fails as the request for an iterator does. -/
  unopened : ∀ (source : Value) (body : Value → Effect Unit) (world later : World) (fault : Fault),
    outcome source.iter world = (.error fault, later) →
      outcome (source.forEach context body) world = (.error fault, later)
  /-- A loop over an iterator succeeds at its end, and fails with any other fault of the iterator
  and with any fault of the body. It goes on without an end if turn follows turn for ever. -/
  loops : ∀ (source iterator : Value) (body : Value → Effect Unit) (world opened : World),
    outcome source.iter world = (.ok iterator, opened) → ∀ ending : Except Fault Unit × World,
      let step := fun (_ : Unit) item => body item
      outcome (source.forEach context body) world = ending ↔
        (∃ turns final, LoopTurns (Value.next context) iterator step turns () opened () final ∧
          LoopEnds (Value.next context) iterator step () final ending) ∨
        (∀ turns, ∃ final,
          LoopTurns (Value.next context) iterator step turns () opened () final) ∧
            ending = (.error .endless, opened)

/-- Whatever the functions of the host do, the end of a sequence goes no further than to the one who
asks an iterator. -/
theorem confinesSignals (context : Context) : ConfinesSignals context where
  signalledBy operation world later fault fails signal := by
    cases operation with
    | next iterator => exact .next iterator
    | call function frame =>
        rw [Operation.perform, outcome_bind_pure_eq_error_iff] at fails
        obtain ⟨name, host, arguments, rfl, foreign, found, asks, fails⟩ :=
          exists_host_of_call_error fails signal
        exact .call foreign found asks fails
    | forEach source body =>
        rw [Operation.perform, outcome_bind_pure_eq_error_iff] at fails
        obtain ⟨item, earlier, fails⟩ := exists_body_of_forEach_error fails signal
        exact .forEach fails
    | observe query =>
        rw [Operation.perform, outcome_read] at fails
        exact .observe (congrArg Prod.fst fails)
    | _ => simp [(neverSignals_perform rfl).not_error fails] at signal
  unopened source body world later fault := outcome_forEach_of_error
  loops source iterator body world opened opens ending := by
    rw [outcome_forEach_of_ok opens, outcome_foldLoop_eq_iff]
    simp only [Unique.exists_iff, PUnit.default_eq_unit]

end ObjectModel
