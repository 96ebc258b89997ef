import Mathlib
import ObjectModel.Proofs.Effect.Agreement
import ObjectModel.Proofs.Operation.Routine

/-!
# What the configuration has an effect on

The configuration chooses between reports of failures and has no other effect. A program, which can
look at everything but those reports, makes the same steps with the same results under every
configuration, and leaves the same world after each.
-/

namespace ObjectModel

open Effect

/-- The functions of the host agree under steps of iterators that agree. -/
def HostsAgree (function? : String → Option HostFunction) : Prop :=
  ∀ name host, function? name = some host → ∀ next other : Value → Effect Value,
    (∀ iterator, Agree (next iterator) (other iterator)) →
      ∀ arguments, Agree (host next arguments) (host other arguments)

/-- What a program can look at after a step: the values that it got, or whether the failure was the
end of a sequence. -/
abbrev Sight : Type :=
  Except Bool (List Value)

/-- What a program sees of an ending. -/
def sight (ending : Except Fault (List Value) × World) : Sight :=
  ending.1.mapError Fault.isEndOfSequence

/-- A program: each step chooses its operation by what has been seen, the last one first. -/
abbrev Program : Type :=
  List (List Sight → Operation)

/-- How each step of a program ends, and the world after it. A failure ends its step and not the
program. -/
def Program.run (context : Context) :
    Program → List Sight → World → List (Except Fault (List Value) × World)
  | [], _, _ => []
  | step :: steps, seen, world =>
    let ending := outcome ((step seen).perform context) world
    ending :: Program.run context steps (sight ending :: seen) ending.2

/-- What an operation does with the elements of a source agrees with itself under all
configurations. -/
def Operation.BodyAgrees (function? : String → Option HostFunction) (operation : Operation) :
    Prop :=
  ∀ source body, operation = .forEach source body → ∀ item config other,
    Agree (body { config, function? } item) (body { config := other, function? } item)

theorem AgreeButReport.sight_eq {ending other : Except Fault (List Value) × World}
    (agree : AgreeButReport ending other) : sight ending = sight other := by
  cases agree with
  | result values later => rfl
  | failure same_signal later => exact congrArg Except.error same_signal

variable {function? : String → Option HostFunction}

/-- The effects that agree with themselves under all configurations. -/
def Tolerant (α : Type) (effect : Config → Effect α) : Prop :=
  ∀ config other, Agree (effect config) (effect other)

theorem Routine.tolerant {spared : Value → Prop} {signals : Bool} {α : Type}
    {effect : Config → Effect α} (routine : Routine Tolerant spared signals effect) :
    Tolerant α effect :=
  routine.agree fun _ _ is_tolerant => is_tolerant

theorem HostsAgree.routines (hosts : HostsAgree function?) (spared : Value → Prop) :
    HostRoutines Tolerant spared function? := by
  intro name host found next steps arguments
  refine .foreign fun config other => hosts name host found _ _ (fun iterator => ?_) arguments
  exact (steps iterator).tolerant config other

/-- An operation agrees with itself under all configurations. -/
theorem Operation.agree_perform (hosts : HostsAgree function?) {operation : Operation}
    (body_agrees : operation.BodyAgrees function?) (config other : Config) :
    Agree (operation.perform { config, function? })
      (operation.perform { config := other, function? }) := by
  have routine : Routine Tolerant (fun _ => False) true fun config =>
      operation.perform { config, function? } := by
    refine routine_perform (hosts.routines _) (fun source body is_loop item => ?_)
      fun _ _ _ _ => not_false
    exact .foreign (body_agrees source body is_loop item)
  exact routine.tolerant config other

/-- Under any two configurations, every program makes the same steps: each ends with the same values
or fails in both, is the end of a sequence in both or in neither, and leaves the same world. -/
theorem Program.run_agrees (hosts : HostsAgree function?) {program : Program}
    (bodies_agree : ∀ step ∈ program, ∀ seen, (step seen).BodyAgrees function?)
    (first second : Config) (seen : List Sight) (world : World) :
    List.Forall₂ AgreeButReport (program.run { config := first, function? } seen world)
      (program.run { config := second, function? } seen world) := by
  induction program generalizing seen world with
  | nil => exact .nil
  | cons step steps induction =>
      rw [List.forall_mem_cons] at bodies_agree
      have agree := Operation.agree_perform hosts (bodies_agree.1 seen) first second world
      rw [Program.run, Program.run]
      refine .cons agree ?_
      rw [agree.sight_eq, agree.world_eq]
      exact induction bodies_agree.2 _ _

namespace Program

/-- A host with a function that takes the next element of an iterator. -/
def advancing (name : String) : Option HostFunction :=
  if name = "advance" then
    some fun next arguments =>
      match arguments with
      | [iterator] => next iterator
      | _ => throw (.takesOne name arguments.length)
  else none

/-- The values that the last step came to. -/
def latest : List Sight → List Value
  | .ok values :: _ => values
  | _ => []

/-- Sums a row that has no sum: in a loop whose body calls the function for sums, and by a mapping
that is made into a list. -/
def summing : Program :=
  [fun _ => .newTuple [.int 1, .none],
    fun seen => .newTuple (latest seen),
    fun seen => .forEach ((latest seen).headD .none) fun context row => do
      let _ ← Value.call context (.builtin "sum") (.ofList [row])
      return (),
    fun _ => .newMap (.builtin "sum") (.tuple ⟨1⟩),
    fun seen => .listFrom (latest seen)]

theorem hostsAgree_advancing : HostsAgree advancing := by
  intro name host found next other steps arguments
  obtain ⟨-, same⟩ := Option.ite_none_right_eq_some.mp found
  obtain rfl := Option.some.inj same
  rcases arguments with - | ⟨iterator, - | ⟨second, further⟩⟩
  · exact .refl _
  · exact steps iterator
  · exact .refl _

theorem run_agrees_summing :
    List.Forall₂ AgreeButReport
        (summing.run { config := { sumReport := .uniform }, function? := advancing } [] {})
        (summing.run { config := { sumReport := .precise }, function? := advancing } [] {}) ∧
      (summing.run { config := { sumReport := .uniform }, function? := advancing } [] {}).map
          (·.1.toOption) =
        [some [.tuple ⟨0⟩], some [.tuple ⟨1⟩], none, some [.map ⟨0⟩], none] := by
  refine ⟨run_agrees hostsAgree_advancing ?_ _ _ [] {}, by cbv⟩
  intro step member seen source body is_loop item config other
  have sums_row : Tolerant Value fun config =>
      Value.call { config, function? := advancing } (.builtin "sum") (.ofList [item]) :=
    (routine_call (hostsAgree_advancing.routines fun _ => False) _ _).tolerant
  simp only [summing, List.mem_cons, List.not_mem_nil, or_false] at member
  rcases member with rfl | rfl | rfl | rfl | rfl <;> try contradiction
  obtain ⟨-, rfl⟩ := Operation.forEach.inj is_loop
  exact (sums_row config other).bind fun _ => .refl _

end Program
end ObjectModel
