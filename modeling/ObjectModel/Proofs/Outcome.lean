import ObjectModel.SetAlgebra

/-!
# Outcomes of effects

The outcome of an effect in a world is its result or fault, together with the world that it leaves.
The outcome of a sequence of effects is found one effect after the other. An effect on a table fails
and changes nothing, or leaves the world with one other table.
-/

namespace ObjectModel
namespace Effect

variable {α β : Type}

/-- The result or fault of an effect, and the world after it. -/
def outcome (effect : Effect α) (world : World) : Except Fault α × World :=
  effect.run.run world

theorem outcome_bind (effect : Effect α) (next : α → Effect β) (world : World) :
    outcome (effect >>= next) world =
      match outcome effect world with
      | (.ok result, later) => outcome (next result) later
      | (.error fault, later) => (.error fault, later) := by
  change (ExceptT.bindCont next (outcome effect world).1).run (outcome effect world).2 = _
  obtain ⟨_ | _, later⟩ := outcome effect world
  · rfl
  · rfl

theorem outcome_bind_of_ok {effect : Effect α} {world later : World} {result : α}
    (succeeds : outcome effect world = (.ok result, later)) (next : α → Effect β) :
    outcome (effect >>= next) world = outcome (next result) later := by
  rw [outcome_bind, succeeds]

@[simp]
theorem exists_of_outcome_bind_ok {effect : Effect α} {next : α → Effect β} {world later : World}
    {result : β} (ends : outcome (effect >>= next) world = (.ok result, later)) :
    ∃ first between, outcome effect world = (.ok first, between) ∧
      outcome (next first) between = (.ok result, later) := by
  rw [outcome_bind] at ends
  generalize outcome effect world = ending at ends ⊢
  obtain ⟨fault | first, between⟩ := ending
  · cases ends
  · exact ⟨first, between, rfl, ends⟩

theorem outcome_getStore (world : World) : outcome getStore world = (.ok world.store, world) :=
  rfl

@[simp]
theorem outcome_read (query : Store → Except Fault α) (world : World) :
    outcome (read query) world = (query world.store, world) := by
  rw [read, outcome_bind_of_ok (outcome_getStore world)]
  cases query world.store <;> rfl

theorem outcome_tryCatch (effect : Effect α) (handler : Fault → Effect α) (world : World) :
    outcome (tryCatch effect handler) world =
      match outcome effect world with
      | (.ok result, later) => (.ok result, later)
      | (.error fault, later) => outcome (handler fault) later := by
  unfold outcome ExceptT.run StateT.run
  change (ExceptT.tryCatch effect handler) world = _
  simp only [ExceptT.tryCatch, ExceptT.mk, bind, StateT.bind]
  cases effect world with
  | mk result later => cases result <;> rfl

@[simp]
theorem outcome_pure (result : α) (world : World) :
    outcome (pure result : Effect α) world = (.ok result, world) :=
  rfl

@[simp]
theorem outcome_throw (fault : Fault) (world : World) :
    outcome (throw fault : Effect α) world = (.error fault, world) :=
  rfl

@[simp]
theorem outcome_ofExcept (result : Except Fault α) (world : World) :
    outcome (ofExcept result) world = (result, world) := by
  cases result <;> rfl

@[simp]
theorem outcome_modifyStore (change : Store → Store) (world : World) :
    outcome (modifyStore change) world = (.ok (), { world with store := change world.store }) :=
  rfl

theorem outcome_bind_pure_eq_error_iff {effect : Effect α} {result : α → β} {world later : World}
    {fault : Fault} :
    outcome (effect >>= fun found => pure (result found)) world = (.error fault, later) ↔
      outcome effect world = (.error fault, later) := by
  rw [outcome_bind]
  obtain ⟨cause | found, middle⟩ := outcome effect world
  · simp
  · simp

/-! ## Effects on tables -/

theorem outcome_setKey (table : Ref) (key value : Value) (world : World) :
    outcome (setKey table key value) world =
      match world.store.insertKey (world.store.table table) key value with
      | .ok after =>
          (.ok (), { world with store := { world.store with
            tables := world.store.tables.set table after } })
      | .error fault => (.error fault, world) := by
  rw [setKey, outcome_bind, outcome_read]
  cases world.store.insertKey (world.store.table table) key value <;> rfl

theorem outcome_removeElement (table : Ref) (element : Value) (world : World) :
    outcome (removeElement table element) world =
      match world.store.eraseKey (world.store.table table) element with
      | .ok (_, after) =>
          (.ok (), { world with store := { world.store with
            tables := world.store.tables.set table after } })
      | .error fault => (.error fault, world) := by
  rw [removeElement, outcome_bind, outcome_read]
  cases world.store.eraseKey (world.store.table table) element <;> rfl

theorem outcome_newSet (sort : SetKind) (elements : List Value) (world : World) :
    outcome (newSet sort elements) world =
      match world.store.tableOfElements elements with
      | .ok table =>
          (.ok (sort.toValue world.store.tables.next), { world with store := { world.store with
            tables := world.store.tables.push table } })
      | .error fault => (.error fault, world) := by
  rw [newSet, outcome_bind, outcome_read]
  cases world.store.tableOfElements elements <;> rfl

/-- A set maps each element to itself. -/
theorem addElement_eq_setKey (table : Ref) (element : Value) :
    addElement table element = setKey table element element :=
  rfl

theorem addElements_cons (table : Ref) (element : Value) (elements : List Value) :
    addElements table (element :: elements) =
      setKey table element element >>= fun _ => addElements table elements := by
  rw [← addElement_eq_setKey]
  rfl

end Effect
end ObjectModel
