import ObjectModel.Proofs.Effect.Change

/-!
# Operations are routines

Every operation is a routine that spares whatever does not share the object of its target. What is
done with the elements of a source, and what functions of the host do, is assumed to be a routine.
-/

namespace ObjectModel
namespace Operation

open Effect

variable {admitted : (α : Type) → (Config → Effect α) → Prop} {spared : Value → Prop}
  {function? : String → Option HostFunction} {signals : Bool}

/-- What an operation does with the elements of a source is a routine. -/
def BodyRoutine (admitted : (α : Type) → (Config → Effect α) → Prop) (spared : Value → Prop)
    (function? : String → Option HostFunction) (operation : Operation) : Prop :=
  ∀ source body, operation = .forEach source body →
    ∀ item, Routine admitted spared true fun config => body { config, function? } item

/-- Whether every end of a sequence is consumed within the operation. The others ask an iterator for
an element, or hand over to a function, to what is done with elements, or to a query. -/
def consumesEnds : Operation → Bool
  | next _ | call .. | forEach .. | observe _ => false
  | _ => true

theorem routine_single {effect : Config → Effect Value}
    (routine : Routine admitted spared signals effect) :
    Routine admitted spared signals fun config => return [← effect config] :=
  .bind routine fun _ => .pure _

theorem routine_perform_of_consumesEnds (hosts : HostRoutines admitted spared function?)
    {operation : Operation} (consumes : operation.consumesEnds)
    (not_spared : ∀ target, operation.target? = some target →
      ∀ value, target.SharesObject value → ¬spared value) :
    Routine admitted spared signals fun config => operation.perform { config, function? } := by
  cases operation with
  | next | call | forEach | observe => contradiction
  | compare op left right =>
      exact .bind (.read fun store => store.noSignal_compare op left right) fun _ => .pure _
  | contains container item =>
      exact .bind (.read fun store => store.noSignal_contains container item) fun _ => .pure _
  | binary op left right => exact routine_single (routine_binary op left right)
  | inplace op left right =>
      refine routine_single (routine_inplace (fun changes => ?_) right)
      exact not_spared left (if_pos changes)
  | unary op operand => exact routine_single (routine_unary op operand)
  | subscript container index => exact routine_single (routine_subscript container index)
  | iter source => exact routine_single (routine_iter source)
  | nextItem iterator => exact .bind (.nextItem (routine_next hosts iterator)) fun _ => .pure _
  | collect source => exact routine_collect hosts source
  | callMethod receiver name arguments =>
      refine routine_single (routine_callMethod hosts (fun changes => ?_) arguments)
      exact not_spared receiver (if_pos changes)
  | newBytearray bytes => exact routine_single (routine_newBytearray bytes)
  | newTuple items => exact routine_single (routine_newTuple items)
  | newList items => exact routine_single (routine_newList items)
  | newSet sort elements => exact routine_single (routine_newSet sort elements)
  | newDict pairs => exact routine_tableOfPairs pairs fun table => [Value.dict table]
  | newHostObject fields => exact routine_single (routine_newHostObject fields)
  | newMap function source => exact routine_single (routine_newMap function source)
  | dictOfHost fields => exact routine_single (routine_dictOfHost fields)
  | listFrom arguments => exact routine_single (routine_listOf (routine_next hosts) arguments)
  | setFrom sort arguments =>
      exact routine_single (routine_setOf sort (routine_next hosts) arguments)
  | setKey table key value =>
      refine .bind (routine_setKey (fun other of_other => ?_) key value) fun _ => .pure []
      exact not_spared _ rfl other (.inr ⟨table, rfl, of_other⟩)
  | addElement sort table element =>
      refine .bind (routine_setKey (fun other of_other => ?_) element element) fun _ => .pure []
      exact not_spared _ rfl other (.inr ⟨table, sort.table?_toValue table, of_other⟩)
  | removeElement sort table element =>
      refine .bind (routine_removeElement (fun other of_other => ?_) element) fun _ => .pure []
      exact not_spared _ rfl other (.inr ⟨table, sort.table?_toValue table, of_other⟩)
  | updateSet sort table source =>
      refine .bind (routine_updateSet (fun other of_other => ?_) source) fun _ => .pure []
      exact not_spared _ rfl other (.inr ⟨table, sort.table?_toValue table, of_other⟩)

theorem routine_perform (hosts : HostRoutines admitted spared function?) {operation : Operation}
    (body_routine : operation.BodyRoutine admitted spared function?)
    (not_spared : ∀ target, operation.target? = some target →
      ∀ value, target.SharesObject value → ¬spared value) :
    Routine admitted spared true fun config => operation.perform { config, function? } := by
  cases operation with
  | observe query =>
      refine .bind .getStore fun store => ?_
      cases query store with
      | ok result => exact .pure result
      | error fault => exact .signal fault
  | next iterator => exact routine_single (routine_next hosts iterator)
  | forEach source body =>
      refine .bind ?_ fun _ => .pure []
      exact routine_foldItems (routine_next hosts) (fun (_ : Unit) => body_routine source body rfl)
        source ()
  | call function frame => exact routine_single (routine_call hosts function frame)
  | _ => exact routine_perform_of_consumesEnds hosts rfl not_spared

end Operation
end ObjectModel
