import ObjectModel.Proofs.Iterator.Collecting
import ObjectModel.Proofs.Operation.Advancing

/-!
# The elements of a mapping

A collection gets out of a mapping what the function returns for the elements of the source, in
their order, up to the first one for which the function fails: the end of a sequence cuts the list
there, and any other failure is that of the collection. That element is the last one taken from the
source.
-/

namespace ObjectModel

open Effect

/-- What a mapping takes elements from: the iterator that it has, its source if that is an iterator
itself, or else a new cursor at the beginning of its source. -/
inductive Begins (mapping : Mapping) (world : World) : Value → World → Prop
  | held {iterator : Value} (held : mapping.iterator = some iterator) :
      Begins mapping world iterator world
  | itself {opened : World} (unopened : mapping.iterator = none)
      (is_iterator : mapping.source.isIterator)
      (remain : opened.store.remaining mapping.source = world.store.remaining mapping.source) :
      Begins mapping world mapping.source opened
  | cursor {iterator : Value} {opened : World} (unopened : mapping.iterator = none)
      (not_iterator : mapping.source.isIterator = false) (has : opened.store.hasCursor iterator)
      (remain : opened.store.remaining iterator = world.store.items mapping.source) :
      Begins mapping world iterator opened

section Collection

variable {context : Context} {world opened final : World} {iterator item : Value}
  {taken : List Value}

/-! ## Turns of a mapping -/

section Turns

variable {pull : Effect Value} {call : Value → Effect Value} {results : Except Fault (List Value)}
  {later : World}

section Cursors

variable (pulls : Relates Store.Advances pull) (calls : ∀ item, Relates Store.Advances (call item))

include pulls calls

end Cursors

section Views

variable {α : Type} {view : Store → Value → α → Prop} {f : Value → Except Fault α}

end Views

end Turns

/-! ## Mappings -/

section Mappings

variable {ref : Ref} {function : Value} {turns : Nat} {kept gathered : List Value} {later : World}
  {ending : Except Fault (List Value) × World}

/-- A mapping keeps the iterator over its source, and its function. -/
structure Holds (ref : Ref) (iterator function : Value) (world : World) : Prop where
  held : (world.store.mappings.get ref).iterator = some iterator
  function_eq : (world.store.mappings.get ref).function = function
  callable : function.isCallable

/-- A mapping takes elements from a cursor that is there. -/
theorem Begins.hasCursor (begins : Begins (world.store.mappings.get ref) world iterator opened)
    (inside : ∀ link ∈ world.store.links (.map ref), world.store.Made link)
    (advances : world.store.Advances opened.store) (is_cursor : iterator.isCursor) :
    opened.store.hasCursor iterator := by
  cases begins with
  | held held =>
      have member : iterator ∈ world.store.links (.map ref) := by
        rw [Store.links, held]
        exact List.mem_cons_of_mem _ List.mem_cons_self
      exact (inside iterator member).hasCursor is_cursor
  | itself => exact advances.hasCursor ((inside _ List.mem_cons_self).hasCursor is_cursor)
  | cursor _ _ has => exact has

end Mappings

end Collection

/-- A list of numbers, and a mapping over it. -/
def numbers : World where
  store :=
    { lists := ⟨#[[.int 1, .int 2, .int 3, .int 4]]⟩
      mappings := ⟨#[{ function := .builtin "below", source := .list ⟨0⟩ }]⟩ }

end ObjectModel
