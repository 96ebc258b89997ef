import ObjectModel.Proofs.Effect.Routine

/-!
# Functions and calls are routines

A function of the object model is a routine if the step of iterators that it gets is one, and so is
the step of a mapping. So steps are routines, by induction on how deep they nest. Calls of the
functions of the host are assumed to be routines.
-/

namespace ObjectModel

open Effect

variable {admitted : (α : Type) → (Config → Effect α) → Prop} {spared : Value → Prop}
  {signals : Bool} {α : Type}

/-! ## Functions -/

section Functions

variable {next : Config → Value → Effect Value}

theorem routine_listOf
    (steps : ∀ iterator, Routine admitted spared true fun config => next config iterator)
    (arguments : List Value) :
    Routine admitted spared signals fun config => listOf (next config) arguments := by
  refine .bind .getStore fun store => ?_
  rcases arguments with - | ⟨source, - | ⟨second, further⟩⟩
  · exact routine_newList []
  · cases source with
    | list ref => exact routine_newList _
    | tuple ref => exact routine_newList _
    | _ => exact .bind (routine_collectItems steps _) routine_newList
  · cases source <;> exact .throw rfl

theorem routine_setOf (sort : SetKind)
    (steps : ∀ iterator, Routine admitted spared true fun config => next config iterator)
    (arguments : List Value) :
    Routine admitted spared signals fun config => setOf sort (next config) arguments := by
  rcases arguments with - | ⟨source, - | ⟨second, further⟩⟩
  · exact routine_newSet sort []
  · refine .bind .getStore fun store => ?_
    cases store.setSource? source with
    | some elements => exact routine_newSet sort elements
    | none => exact .bind (routine_collectItems steps source) (routine_newSet sort)
  · exact .throw rfl

theorem routine_sumOf
    (steps : ∀ iterator, Routine admitted spared true fun config => next config iterator)
    (source start : Value) :
    Routine admitted spared signals fun config => sumOf (next config) source start :=
  routine_foldItems steps (fun total item => routine_binary .add total item) source start

end Functions

namespace Builtin

theorem routine_runBytearray (frame : Frame) :
    Routine admitted spared signals fun _ => runBytearray frame := by
  refine .bind (.ofExcept (frame.noSignal_onlyPositional _)) fun arguments => ?_
  rcases arguments with - | ⟨source, - | ⟨second, further⟩⟩
  · exact .throw rfl
  · refine .bind .getStore fun store => ?_
    cases store.bytes? source with
    | some bytes => exact routine_newBytearray bytes
    | none => exact .throw rfl
  · exact .throw rfl

theorem routine_runInput (frame : Frame) :
    Routine admitted spared signals fun _ => runInput frame := by
  refine .bind (.ofExcept frame.noSignal_arguments) fun arguments => ?_
  rcases arguments with - | ⟨prompt, - | ⟨second, further⟩⟩
  · exact .readLine ""
  · exact .bind .getStore fun store => .readLine (store.display prompt)
  · exact .throw rfl

theorem routine_runIter (frame : Frame) :
    Routine admitted spared signals fun _ => runIter frame := by
  refine .bind (.ofExcept (frame.noSignal_onlyPositional _)) fun arguments => ?_
  rcases arguments with - | ⟨source, - | ⟨second, - | ⟨third, further⟩⟩⟩
  · exact .throw rfl
  · cases source with
    | hostObject ref =>
        exact .bind .getStore fun _ => .bind (routine_dictOfHost _) fun _ => routine_iter _
    | _ => exact routine_iter _
  · cases source <;> exact .throw rfl
  · cases source <;> exact .throw rfl

theorem routine_runLen (frame : Frame) :
    Routine admitted spared signals fun _ => runLen frame := by
  refine .bind (.ofExcept frame.noSignal_arguments) fun arguments => ?_
  rcases arguments with - | ⟨value, - | ⟨second, further⟩⟩
  · exact .throw rfl
  · refine .bind .getStore fun store => ?_
    cases store.length? value with
    | some length => exact .pure _
    | none => exact .throw rfl
  · exact .throw rfl

theorem routine_runMap (frame : Frame) :
    Routine admitted spared signals fun _ => runMap frame := by
  refine .bind (.ofExcept (frame.noSignal_onlyPositional _)) fun arguments => ?_
  rcases arguments with - | ⟨function, - | ⟨source, further⟩⟩
  · exact .throw rfl
  · exact .throw rfl
  · exact routine_newMap function source

theorem routine_runRepr (frame : Frame) :
    Routine admitted spared signals fun _ => runRepr frame := by
  refine .bind (.ofExcept (frame.noSignal_onlyPositional _)) fun arguments => ?_
  rcases arguments with - | ⟨value, - | ⟨second, further⟩⟩
  · exact .throw rfl
  · exact .bind .getStore fun _ => .pure _
  · exact .throw rfl

theorem routine_runStr (frame : Frame) :
    Routine admitted spared signals fun _ => runStr frame := by
  refine .bind (.ofExcept (frame.noSignal_onlyPositional _)) fun arguments => ?_
  rcases arguments with - | ⟨value, - | ⟨second, further⟩⟩
  · exact .pure _
  · exact .bind .getStore fun _ => .pure _
  · exact .throw rfl

variable {next : Config → Value → Effect Value}

/-- A sum reports each failure of its fold as the configuration says. As none of these is the end of
a sequence, no report of one is. -/
theorem routine_reportedSum
    (steps : ∀ iterator, Routine admitted spared true fun config => next config iterator)
    (source start : Value) :
    Routine admitted spared signals fun config =>
      (tryCatch (sumOf (next config) source start) fun fault =>
        throw (fault.reportedBy config.sumReport) : Effect Value) :=
  .report (routine_sumOf steps source start) _
    (fun config fault proper => fault.reportedBy_proper proper config.sumReport)
    fun config fault => fault.reportedBy_eq_endless_iff config.sumReport

theorem routine_runSum
    (steps : ∀ iterator, Routine admitted spared true fun config => next config iterator)
    (frame : Frame) :
    Routine admitted spared signals fun config => runSum config (next config) frame := by
  refine .bind (.ofExcept (frame.noSignal_onlyPositional _)) fun arguments => ?_
  rcases arguments with - | ⟨source, - | ⟨start, - | ⟨third, further⟩⟩⟩
  · exact .throw rfl
  · exact routine_reportedSum steps source (.int 0)
  · exact routine_reportedSum steps source start
  · exact .throw rfl

theorem routine_run
    (steps : ∀ iterator, Routine admitted spared true fun config => next config iterator)
    (function : Builtin) (frame : Frame) :
    Routine admitted spared signals fun config =>
      function.run config (next config) frame := by
  cases function with
  | bytearray => exact routine_runBytearray frame
  | frozenset =>
      exact .bind (.ofExcept (frame.noSignal_onlyPositional _)) (routine_setOf .frozen steps)
  | input => exact routine_runInput frame
  | iter => exact routine_runIter frame
  | len => exact routine_runLen frame
  | list => exact .bind (.ofExcept (frame.noSignal_onlyPositional _)) (routine_listOf steps)
  | map => exact routine_runMap frame
  | repr => exact routine_runRepr frame
  | set => exact .bind (.ofExcept (frame.noSignal_onlyPositional _)) (routine_setOf .mutable steps)
  | str => exact routine_runStr frame
  | sum => exact routine_runSum steps frame

end Builtin

/-! ## Calls and steps -/

/-- Calls of the functions of the host are routines if the step of iterators that they get is
one. -/
def HostRoutines (admitted : (α : Type) → (Config → Effect α) → Prop) (spared : Value → Prop)
    (function? : String → Option HostFunction) : Prop :=
  ∀ name host, function? name = some host → ∀ next : Config → Value → Effect Value,
    (∀ iterator, Routine admitted spared true fun config => next config iterator) →
      ∀ arguments, Routine admitted spared true fun config => host (next config) arguments

section Calls

variable {function? : String → Option HostFunction}

/-- The functions of the host come after those of the object model. -/
theorem callBy_of_function? {name : String} {host : HostFunction}
    (named : Builtin.ofName? name = none) (found : function? name = some host) (config : Config)
    (next : Value → Effect Value) (frame : Frame) :
    callBy { config, function? } next (.builtin name) frame =
      ofExcept frame.arguments >>= host next := by
  unfold callBy
  dsimp only
  rw [named, found]

/-- The value is not a function of the host. -/
def IsOwn (function? : String → Option HostFunction) (function : Value) : Prop :=
  ∀ name, function = .builtin name → Builtin.ofName? name = none → function? name = none

theorem routine_callBy_of_isOwn {next : Config → Value → Effect Value}
    (steps : ∀ iterator, Routine admitted spared true fun config => next config iterator)
    {function : Value} (own : IsOwn function? function) (frame : Frame) :
    Routine admitted spared signals fun config =>
      callBy { config, function? } (next config) function frame := by
  cases function with
  | builtin name =>
      unfold callBy
      dsimp only
      cases named : Builtin.ofName? name with
      | some builtin => exact builtin.routine_run steps frame
      | none =>
          rw [own name rfl named]
          exact .throw rfl
  | _ => exact .throw rfl

theorem routine_callBy (hosts : HostRoutines admitted spared function?)
    {next : Config → Value → Effect Value}
    (steps : ∀ iterator, Routine admitted spared true fun config => next config iterator)
    (function : Value) (frame : Frame) :
    Routine admitted spared true fun config =>
      callBy { config, function? } (next config) function frame := by
  by_cases own : IsOwn function? function
  · exact routine_callBy_of_isOwn steps own frame
  · simp only [IsOwn, not_forall] at own
    obtain ⟨name, rfl, named, found⟩ := own
    obtain ⟨host, found⟩ := Option.ne_none_iff_exists'.mp found
    simp only [callBy_of_function? named found]
    exact .bind (.ofExcept frame.noSignal_arguments) (hosts name host found next steps)

theorem routine_stepBy (hosts : HostRoutines admitted spared function?)
    {next : Config → Value → Effect Value}
    (steps : ∀ iterator, Routine admitted spared true fun config => next config iterator)
    (iterator : Value) :
    Routine admitted spared true fun config =>
      stepBy { config, function? } (next config) iterator := by
  cases iterator with
  | listIterator ref => exact routine_step (outcome_nextInList_eq_step ref)
  | setIterator ref => exact routine_step (outcome_nextInTable_eq_step ref)
  | dictKeyIterator ref => exact routine_step (outcome_nextInTable_eq_step ref)
  | seqIterator ref => exact routine_step (outcome_nextInSequence_eq_step ref)
  | map ref =>
      refine .bind (routine_sourceIterator ref) fun source => .bind .getStore fun store => ?_
      dsimp only
      generalize (store.mappings.get ref).function = function
      cases function.isCallable with
      | true =>
          exact .bind (steps source) fun item =>
            routine_callBy hosts steps function (.ofList [item])
      | false => exact .throw rfl
  | _ => exact .throw rfl

theorem routine_nextWithin (hosts : HostRoutines admitted spared function?) (depth : Nat)
    (iterator : Value) :
    Routine admitted spared true fun config =>
      nextWithin { config, function? } depth iterator := by
  induction depth generalizing iterator with
  | zero => exact .throw rfl
  | succ depth induction => exact routine_stepBy hosts induction iterator

theorem routine_next (hosts : HostRoutines admitted spared function?) (iterator : Value) :
    Routine admitted spared true fun config => iterator.next { config, function? } :=
  .unbounded fun depth => routine_nextWithin hosts depth iterator

theorem routine_call (hosts : HostRoutines admitted spared function?) (function : Value)
    (frame : Frame) :
    Routine admitted spared true fun config => function.call { config, function? } frame :=
  routine_callBy hosts (routine_next hosts) function frame

theorem routine_collect (hosts : HostRoutines admitted spared function?) (source : Value) :
    Routine admitted spared signals fun config => source.collect { config, function? } :=
  routine_collectItems (routine_next hosts) source

end Calls

end ObjectModel
