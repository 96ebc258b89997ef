import ObjectModel.Proofs.Effect.Relation
import ObjectModel.Proofs.Operation.Routine

/-!
# No operation moves an iterator back

Whatever is done, in any order and with any failures, cursors move forward only, and mappings keep
their iterators. The functions of the host, and what is done with the elements of a source, are
assumed to keep to that if the step of iterators that they get does.
-/

namespace ObjectModel

open Effect

variable {context : Context}

theorem allowsChanges_advances : AllowsChanges (fun _ => False) Store.Advances where
  refl := .refl
  trans := .trans
  course evolves := evolves.advances

/-- The functions of the host move no iterator back if the step of iterators that they get moves
none back. -/
def HostsAdvance (function? : String → Option HostFunction) : Prop :=
  ∀ name host, function? name = some host → ∀ next : Value → Effect Value,
    (∀ iterator, Relates Store.Advances (next iterator)) →
      ∀ arguments, Relates Store.Advances (host next arguments)

theorem hostsAdvance_default : HostsAdvance (fun _ => none) :=
  fun _ _ found => nomatch found

namespace HostsAdvance

theorem routines (hosts : HostsAdvance context.function?) :
    HostRoutines (fun _ effect => Relates Store.Advances (effect context.config)) (fun _ => False)
      context.function? :=
  fun name host found _ steps arguments =>
    .foreign (hosts name host found _
      (fun iterator => (steps iterator).relates allowsChanges_advances) arguments)

theorem nextWithin (hosts : HostsAdvance context.function?) (depth : Nat) (iterator : Value) :
    Relates Store.Advances (nextWithin context depth iterator) :=
  (routine_nextWithin hosts.routines depth iterator).relates allowsChanges_advances

theorem next (hosts : HostsAdvance context.function?) (iterator : Value) :
    Relates Store.Advances (iterator.next context) :=
  (routine_next hosts.routines iterator).relates allowsChanges_advances

theorem call (hosts : HostsAdvance context.function?) (function : Value) (frame : Frame) :
    Relates Store.Advances (function.call context frame) :=
  (routine_call hosts.routines function frame).relates allowsChanges_advances

end HostsAdvance

namespace Operation

/-- What an operation does with the elements of a source moves no iterator back. -/
def BodyAdvances (context : Context) (operation : Operation) : Prop :=
  ∀ source body, operation = .forEach source body →
    ∀ item, Relates Store.Advances (body context item)

/-- No operation moves an iterator back. -/
theorem advances_perform (hosts : HostsAdvance context.function?) {operation : Operation}
    (body_advances : operation.BodyAdvances context) :
    Relates Store.Advances (operation.perform context) :=
  have performs := routine_perform hosts.routines
    (fun source body is_loop item => .foreign (body_advances source body is_loop item))
    fun _ _ _ _ => not_false
  performs.relates allowsChanges_advances

/-- The world after some operations, each of which may fail. -/
def performAll (context : Context) (operations : List Operation) (world : World) : World :=
  operations.foldl (fun world operation => (outcome (operation.perform context) world).2) world

theorem advances_performAll (hosts : HostsAdvance context.function?) {operations : List Operation}
    (bodies_advance : ∀ operation ∈ operations, operation.BodyAdvances context) (world : World) :
    world.store.Advances (performAll context operations world).store := by
  induction operations generalizing world with
  | nil => exact .refl world.store
  | cons operation operations induction =>
      rw [List.forall_mem_cons] at bodies_advance
      exact (advances_perform hosts bodies_advance.1 world).trans (induction bodies_advance.2 _)

end Operation
end ObjectModel
