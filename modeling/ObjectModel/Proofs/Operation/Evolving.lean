import ObjectModel.Proofs.Effect.Sparing
import ObjectModel.Proofs.Operation.Advancing
import ObjectModel.Proofs.Repetition

/-!
# Operations lead the store on courses

Whatever is done, the store changes on a course of small steps, so that every element which a cursor
yields is on record. The functions of the host, and what is done with the elements of a source, are
assumed to keep to that if the step of iterators that they get does. Over operations that take
nothing out of a list the list only grows, at each step of the course.
-/

namespace ObjectModel

open Effect

variable {allowed : Store → Store → Prop} {spared : Value → Prop} {context : Context}

/-- The later store is any at all. -/
def Store.Anyhow (_store _later : Store) : Prop :=
  True

/-- The items of a list are the first ones of those that it has in the later store. -/
def Store.Grows (list : Ref) (store later : Store) : Prop :=
  store.list list <+: later.list list

/-- Changes that spare certain values are allowed on a course, if they are allowed one by one. -/
theorem allowsChanges_evolves
    (allows : ∀ store later : Store, store.Spares spared later → allowed store later) :
    AllowsChanges spared (Store.Evolves allowed) where
  refl := .refl
  trans := .trans
  course evolves := evolves.mono fun conserves => allows _ _ conserves.spares

/-- The functions of the host lead the store on a course of allowed changes if the step of iterators
that they get does. -/
def HostsEvolve (allowed : Store → Store → Prop) (function? : String → Option HostFunction) :
    Prop :=
  ∀ name host, function? name = some host → ∀ next : Value → Effect Value,
    (∀ iterator, Relates (Store.Evolves allowed) (next iterator)) →
      ∀ arguments, Relates (Store.Evolves allowed) (host next arguments)

theorem hostsEvolve_default : HostsEvolve allowed (fun _ => none) :=
  fun _ _ found => nomatch found

theorem HostsEvolve.routines (hosts : HostsEvolve allowed context.function?)
    (allows : ∀ store later : Store, store.Spares spared later → allowed store later) :
    HostRoutines (fun _ effect => Relates (Store.Evolves allowed) (effect context.config)) spared
      context.function? :=
  fun name host found _ steps arguments =>
    .foreign (hosts name host found _
      (fun iterator => (steps iterator).relates (allowsChanges_evolves allows)) arguments)

theorem HostsEvolve.collect (hosts : HostsEvolve allowed context.function?)
    (allows : ∀ store later : Store, store.Spares spared later → allowed store later)
    (source : Value) : Relates (Store.Evolves allowed) (source.collect context) :=
  have collects : Routine (fun _ effect => Relates (Store.Evolves allowed) (effect context.config))
      spared true fun config => source.collect { config, function? := context.function? } :=
    routine_collect (hosts.routines allows) source
  collects.relates (allowsChanges_evolves allows)

namespace Operation

/-- What an operation does with the elements of a source leads the store on a course of allowed
changes. -/
def BodyEvolves (allowed : Store → Store → Prop) (context : Context) (operation : Operation) :
    Prop :=
  ∀ source body, operation = .forEach source body →
    ∀ item, Relates (Store.Evolves allowed) (body context item)

/-- An operation leads the store on a course of allowed changes, if all those are allowed that spare
what is not its target. -/
theorem evolves_perform (hosts : HostsEvolve allowed context.function?) {operation : Operation}
    (body_evolves : operation.BodyEvolves allowed context)
    (allows : ∀ store later : Store, store.Spares spared later → allowed store later)
    (not_spared : ∀ target, operation.target? = some target →
      ∀ value, target.SharesObject value → ¬spared value) :
    Relates (Store.Evolves allowed) (operation.perform context) :=
  have performs := routine_perform (hosts.routines allows)
    (fun source body is_loop item => .foreign (body_evolves source body is_loop item)) not_spared
  performs.relates (allowsChanges_evolves allows)

/-- Every operation leads the store on a course. -/
theorem evolves_perform_anyhow (hosts : HostsEvolve Store.Anyhow context.function?)
    {operation : Operation} (body_evolves : operation.BodyEvolves Store.Anyhow context) :
    Relates (Store.Evolves Store.Anyhow) (operation.perform context) :=
  have spares_none : ∀ store later : Store, store.Spares (fun _ => False) later →
      store.Anyhow later := fun _ _ _ => trivial
  evolves_perform hosts body_evolves spares_none fun _ _ _ _ => not_false

/-- Operations lead the store on a course of allowed changes one after the other, if each does. -/
theorem evolves_performAll {operations : List Operation}
    (each : ∀ operation ∈ operations,
      Relates (Store.Evolves allowed) (operation.perform context)) (world : World) :
    world.store.Evolves allowed (performAll context operations world).store := by
  induction operations generalizing world with
  | nil => exact .refl world.store
  | cons operation operations induction =>
      rw [List.forall_mem_cons] at each
      exact (each.1 world).trans (induction each.2 _)

end Operation

/-! ## Lists that only grow -/

namespace Store

variable {store later last : Store} {list : Ref}

theorem grows_of_spares (spares : store.Spares (· = .list list) later) :
    store.Grows list later := by
  rw [Grows]
  by_cases known : list.index < store.lists.size
  · have same : later.list list = store.list list := spares.lists.get_eq list known rfl
    exact same ▸ List.prefix_rfl
  · have empty : store.list list = [] := by
      rw [Store.list, Pool.get, Array.getD_eq_getD_getElem?,
        Array.getElem?_eq_none (Nat.le_of_not_lt known)]
      rfl
    rw [empty]
    exact List.nil_prefix

/-- A list grows when it gets items that begin with its own. -/
theorem evolves_setList {items : List Value} (begins : store.list list <+: items) :
    store.Evolves (Grows list) { store with lists := store.lists.set list items } := by
  refine (Edits.setList list items).evolves ?_
  rcases store.lists.get_set_eq_or list items list with new | old
  · rw [Grows, Store.list, Store.list, new]
    exact begins
  · have same : (store.lists.set list items).get list = store.list list := old
    change store.list list <+: (store.lists.set list items).get list
    exact same ▸ List.prefix_rfl

end Store

namespace Effect

variable {list : Ref} {α β : Type} {world : World}

/-- The store evolves and the list grows meanwhile. -/
abbrev GrowsList (list : Ref) (effect : Effect α) : Prop :=
  Relates (Store.Evolves (Store.Grows list)) effect

theorem growsList_pure (result : α) : GrowsList list (pure result : Effect α) :=
  fun world => .refl world.store

theorem growsList_ofExcept (result : Except Fault α) : GrowsList list (ofExcept result) := by
  intro world
  rw [outcome_ofExcept]
  exact .refl world.store

theorem GrowsList.bind {effect : Effect α} {next : α → Effect β} (first : GrowsList list effect)
    (rest : ∀ result, GrowsList list (next result)) : GrowsList list (effect >>= next) :=
  Relates.bind .trans first rest

theorem growsList_newList (list : Ref) (items : List Value) : GrowsList list (newList items) :=
  fun _ =>
    have adds := Store.Adds.list items
    adds.evolves (Store.grows_of_spares adds.spares)

theorem growsList_extendList (list : Ref) (items : List Value) :
    GrowsList list (extendList list items) :=
  fun _ => Store.evolves_setList (List.prefix_append _ items)

theorem growsList_inplace (list : Ref) (op : BinaryOperator) (other : Value) :
    GrowsList list (Value.inplace op (.list list) other) := by
  intro world
  cases op with
  | add =>
      have extends_by (items : List Value) : GrowsList list
          (extendList list items >>= fun _ => pure (.list list) : Effect Value) :=
        (growsList_extendList list items).bind fun _ => growsList_pure _
      cases other with
      | list | tuple | str => exact extends_by _ world
      | _ => exact .refl world.store
  | mul =>
      cases counts : Sequence.repeatCount other with
      | error fault =>
          rw [outcome_inplace_mul_list_of_no_count list counts]
          exact .refl world.store
      | ok count =>
          rw [outcome_inplace_mul_list list counts]
          split
          · exact growsList_newList list [] world
          · rename_i positive
            cases repeated : world.store.replicateValues (world.store.list list) count with
            | error fault => exact .refl world.store
            | ok items =>
                exact Store.evolves_setList (Sequence.prefix_of_replicate positive repeated)
  | _ => exact .refl world.store

end Effect

/-- An operation that takes nothing out of a list: it is not a call of one of the two methods that
do. -/
def Operation.TakesNothing (list : Ref) (operation : Operation) : Prop :=
  ∀ name arguments, operation = .callMethod (.list list) name arguments →
    name ≠ "pop" ∧ name ≠ "remove"

theorem growsList_callListMethod {list : Ref} {name : String} {arguments : List Value}
    (collects : ∀ source : Value, GrowsList list (source.collect context))
    (changes : name ∈ ["append", "extend"]) :
    GrowsList list (callListMethod context list name arguments) := by
  have extends_by (items : List Value) : GrowsList list
      (extendList list items >>= fun _ => pure .none : Effect Value) :=
    (growsList_extendList list items).bind fun _ => growsList_pure _
  simp only [List.mem_cons, List.not_mem_nil, or_false] at changes
  rcases changes with rfl | rfl
  · exact (growsList_ofExcept _).bind fun item => extends_by [item]
  · refine (growsList_ofExcept _).bind fun source => ?_
    cases source with
    | list other => exact fun world => extends_by (world.store.list other) world
    | _ => exact (collects _).bind extends_by

namespace Operation

variable {list : Ref} {operation : Operation}

/-- Over an operation that takes nothing out of a list the list only grows. -/
theorem growsList_perform (hosts : HostsEvolve (Store.Grows list) context.function?)
    (body_evolves : operation.BodyEvolves (Store.Grows list) context)
    (takes_nothing : operation.TakesNothing list) :
    GrowsList list (operation.perform context) := by
  by_cases targets : operation.target? = some (.list list)
  case neg =>
    refine evolves_perform hosts body_evolves (fun _ _ => Store.grows_of_spares) ?_
    rintro target is_target _ shares rfl
    rcases shares with rfl | ⟨ref, -, of_list⟩
    · exact targets is_target
    · contradiction
  case pos =>
    cases operation with
    | inplace op left right =>
        obtain ⟨-, same⟩ := Option.ite_none_right_eq_some.mp targets
        obtain rfl := Option.some.inj same
        exact (growsList_inplace list op right).bind fun _ => growsList_pure _
    | callMethod receiver name arguments =>
        obtain ⟨changes, same⟩ := Option.ite_none_right_eq_some.mp targets
        obtain rfl := Option.some.inj same
        obtain ⟨not_pop, not_remove⟩ := takes_nothing name arguments rfl
        have collects := hosts.collect fun _ _ => Store.grows_of_spares
        refine GrowsList.bind (growsList_callListMethod collects ?_) fun _ => growsList_pure _
        simpa [Kind.changingMethods, Value.kind, not_pop, not_remove] using changes
    | setKey => cases Option.some.inj targets
    | addElement sort | removeElement sort | updateSet sort =>
        cases sort <;> cases Option.some.inj targets
    | _ => contradiction

end Operation
end ObjectModel
