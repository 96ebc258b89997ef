import ObjectModel.Proofs.Effect.Novelty
import ObjectModel.Proofs.Operation.Routine

/-!
# What an operation leaves alone

An operation changes the object of its target and no other, as long as the functions of the host and
what is done with the elements of a source leave that other object alone. Operators, slices, copies
and constructors come to objects of their own.
-/

namespace ObjectModel

open Effect

variable {spared : Value → Prop} {context : Context} {operation : Operation}

namespace Operation

/-- What an operation does with the elements of a source spares certain values. -/
def BodySpares (context : Context) (spared : Value → Prop) (operation : Operation) : Prop :=
  ∀ source body, operation = .forEach source body →
    ∀ item, Effect.Spares spared (body context item)

/-- An operation spares whatever does not share the object of its target. -/
theorem spares_perform (hosts : HostsSpare spared context.function?)
    (body_spares : operation.BodySpares context spared)
    (apart : ∀ target, operation.target? = some target →
      ∀ value, target.SharesObject value → ¬spared value) :
    Effect.Spares spared (operation.perform context) := by
  have routine : Routine (SparingAt context.config spared) spared true fun config =>
      operation.perform { config, function? := context.function? } :=
    routine_perform hosts.routines
      (fun source body is_loop item => .foreign (body_spares source body is_loop item)) apart
  exact routine.spares

/-- Whether an operation makes its results itself: an operator with a result of its own, a slice, a
copy, a constructor, or a function that is one. -/
def makesAnew : Operation → Prop
  | binary .. | listFrom _ | setFrom .. | newBytearray _ | newList _ | newSet .. => True
  | inplace _ left _ => left.kind ≠ .list ∧ left.kind ≠ .bytearray
  | subscript _ index => index.kind = .slice
  | callMethod _ name _ => name = "copy"
  | call function _ =>
    function ∈ [Builtin.bytearray, .frozenset, .list, .set].map Builtin.toValue
  | _ => False

end Operation

theorem makesNew_inplace {left : Value} (not_list : left.kind ≠ .list)
    (not_bytearray : left.kind ≠ .bytearray) (op : BinaryOperator) (right : Value) :
    MakesNew (left.inplace op right) := by
  unfold Value.inplace
  split
  · contradiction
  · exact makesNew_inplaceSet .mutable _ op right
  · exact makesNew_inplaceSet .frozen _ op right
  · contradiction
  · exact makesNew_binaryScalar op true _ right

theorem makesNew_call (hosts : HostsSpare (fun _ => False) context.function?) {function : Value}
    (anew : function ∈ [Builtin.bytearray, .frozenset, .list, .set].map Builtin.toValue)
    (frame : Frame) : MakesNew (function.call context frame) := by
  have steps := hosts.spares_next
  simp only [List.map_cons, List.map_nil, List.mem_cons, List.not_mem_nil, or_false] at anew
  rcases anew with rfl | rfl | rfl | rfl
  · exact makesNew_runBytearray frame
  · exact .bind (spares_ofExcept _) (makesNew_setOf .frozen steps)
  · exact .bind (spares_ofExcept _) (makesNew_listOf steps)
  · exact .bind (spares_ofExcept _) (makesNew_setOf .mutable steps)

/-- The only result of an operation that makes it anew. -/
theorem Effect.MakesNew.single {effect : Effect Value} (anew : MakesNew effect)
    {world later : World} {results : List Value}
    (ends : outcome (do return [← effect] : Effect (List Value)) world = (.ok results, later)) :
    ∀ result ∈ results, result.ownsStorage → world.store.knows result = false := by
  rw [outcome_bind] at ends
  obtain ⟨ending, made⟩ : ∃ ending, outcome effect world = ending := ⟨_, rfl⟩
  rw [made] at ends
  obtain ⟨fault | result, between⟩ := ending
  · cases ends
  · cases ends
    intro only member owns
    rw [List.mem_singleton.mp member] at owns ⊢
    exact anew world result later made owns

/-- What is made anew was not there when the operation began. -/
theorem Operation.knows_result_eq_false (hosts : HostsSpare (fun _ => False) context.function?)
    (anew : operation.makesAnew) {world later : World} {results : List Value}
    (ends : outcome (operation.perform context) world = (.ok results, later)) :
    ∀ result ∈ results, result.ownsStorage → world.store.knows result = false := by
  cases operation with
  | binary op left right => exact (makesNew_binary op left right).single ends
  | inplace op left right => exact (makesNew_inplace anew.1 anew.2 op right).single ends
  | subscript container index =>
      obtain ⟨slice, rfl⟩ : ∃ slice, index = .slice slice := by
        cases index <;> first | contradiction | exact ⟨_, rfl⟩
      exact (makesNew_subscript context.config container slice).single ends
  | call function frame => exact (makesNew_call hosts anew frame).single ends
  | callMethod receiver name arguments =>
      obtain rfl : name = "copy" := anew
      exact (makesNew_callMethod context receiver arguments).single ends
  | newBytearray bytes => exact (makesNew_newBytearray bytes).single ends
  | newList items => exact (makesNew_newList items).single ends
  | newSet sort elements => exact (makesNew_newSet sort elements).single ends
  | listFrom arguments =>
      exact (makesNew_listOf hosts.spares_next arguments).single ends
  | setFrom sort arguments =>
      exact (makesNew_setOf sort hosts.spares_next arguments).single ends
  | _ => exact anew.elim

end ObjectModel
