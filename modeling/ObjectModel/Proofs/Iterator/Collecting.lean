import ObjectModel.Proofs.Iterator.Settling

/-!
# Collections

A collection pulls one element after the other out of an iterator until a pull fails or is stuck. As
each pull takes one element of what is left, there are only so many. A function that changes nothing
can still get a pull stuck, if what it returns calls it again.
-/

namespace ObjectModel

open Effect

/-- One pull after the other yields the elements. -/
inductive Pulls (pull : Effect Value) : World → List Value → World → Prop
  | none (world : World) : Pulls pull world [] world
  | one {world middle last : World} {item : Value} {items : List Value}
      (yields : outcome pull world = (.ok item, middle)) (rest : Pulls pull middle items last) :
      Pulls pull world (item :: items) last

/-- Puts an element before those gathered so far. -/
def gather (items : List Value) (item : Value) : Effect (List Value) :=
  return item :: items

section Collection

variable {growth : Value → Nat → Nat} {context : Context} {layers count : Nat}
  {world opened final : World} {source iterator item : Value} {items taken : List Value}

/-! ## Pulls -/

section Pulls

variable {pull : Effect Value}

theorem Pulls.undisturbed (pulls_undisturbed : Relates Store.Undisturbed pull)
    (pulls : Pulls pull world items final) : world.store.Undisturbed final.store := by
  induction pulls with
  | none world => exact .refl world.store
  | @one world _ _ _ _ yields _ induction =>
      have first := pulls_undisturbed world
      rw [yields] at first
      exact first.trans induction

end Pulls

/-! ## Collections -/

theorem collect_eq (context : Context) (source : Value) :
    source.collect context = source.iter >>= fun iterator =>
      foldLoop (Value.next context) iterator gather [] >>= fun items => pure items.reverse :=
  bind_assoc source.iter _ _

theorem outcome_collect_of_opens (asks : outcome source.iter world = (.ok iterator, opened)) :
    outcome (source.collect context) world =
      let ending := outcome (foldLoop (Value.next context) iterator gather []) opened
      (ending.1.map List.reverse, ending.2) := by
  rw [collect_eq, outcome_bind_of_ok asks, outcome_bind]
  obtain ⟨fault | items, later⟩ := outcome (foldLoop (Value.next context) iterator gather []) opened
  · rfl
  · rfl

end Collection

/-! ## A collection that does not end -/

/-- A function that returns a mapping of "list" over a mapping of itself. -/
def again : HostFunction := fun _ arguments =>
  match arguments with
  | [item] => do
    let inner ← newMap (.builtin "again") (← newList [item])
    newMap (.builtin "list") inner
  | _ => throw (.takesOne "again" arguments.length)

end ObjectModel
