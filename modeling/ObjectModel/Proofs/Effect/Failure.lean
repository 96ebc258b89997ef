import ObjectModel.Proofs.Effect.Change
import ObjectModel.Proofs.Effect.Sparing
import ObjectModel.Proofs.Store.Hashability

/-!
# Failures

What changes a list, a byte array or a table looks at everything that can fail before it makes its
one change, and so a failure spares even the values that a success would change. This is shown for
effects in two parts: one that spares these values, and one that succeeds.

Only the update of a set makes several changes, each of which can fail. It leaves what the changes
before the failure have made.
-/

namespace ObjectModel

open Effect

variable {α β : Type} {spared : Value → Prop}

namespace Effect

/-- An effect succeeds in every world. -/
def Succeeds (effect : Effect α) : Prop :=
  ∀ world, ∃ result later, outcome effect world = (.ok result, later)

/-- An effect that fails leaves the objects of certain values as they were. -/
def FailsSparing (spared : Value → Prop) (effect : Effect α) : Prop :=
  ∀ world fault later, outcome effect world = (.error fault, later) →
    world.store.Spares spared later.store

theorem succeeds_pure (result : α) : Succeeds (pure result : Effect α) :=
  fun world => ⟨result, world, rfl⟩

theorem succeeds_modifyStore (change : Store → Store) : Succeeds (modifyStore change) :=
  fun world => ⟨(), _, outcome_modifyStore change world⟩

theorem Succeeds.bind {effect : Effect α} {next : α → Effect β} (first : Succeeds effect)
    (rest : ∀ result, Succeeds (next result)) : Succeeds (effect >>= next) := by
  intro world
  obtain ⟨result, between, ends⟩ := first world
  rw [outcome_bind_of_ok ends]
  exact rest result between

theorem Spares.failsSparing {effect : Effect α} (spares : Spares spared effect) :
    FailsSparing spared effect := by
  intro world fault later ends
  have spares_world := spares world
  rwa [ends] at spares_world

theorem Succeeds.failsSparing {effect : Effect α} (succeeds : Succeeds effect) :
    FailsSparing spared effect := by
  intro world fault later ends
  obtain ⟨result, between, ends_well⟩ := succeeds world
  rw [ends_well] at ends
  cases ends

theorem FailsSparing.bind_of_spares {effect : Effect α} {next : α → Effect β}
    (first : Spares spared effect) (rest : ∀ result, FailsSparing spared (next result)) :
    FailsSparing spared (effect >>= next) := by
  intro world fault later ends
  have first_spares := first world
  rw [outcome_bind] at ends
  generalize outcome effect world = ending at first_spares ends
  obtain ⟨earlier | result, between⟩ := ending
  · cases ends
    exact first_spares
  · exact first_spares.trans (rest result between fault later ends)

theorem FailsSparing.ofExcept_bind {result : Except Fault α} {next : α → Effect β}
    (rest : ∀ value, result = .ok value → FailsSparing spared (next value)) :
    FailsSparing spared (ofExcept result >>= next) := by
  cases result with
  | ok value => exact rest value rfl
  | error fault => exact (spares_throw fault).failsSparing

/-- If nothing can fail behind an effect, it is the effect that has failed. -/
theorem outcome_error_of_bind {effect : Effect α} {next : α → Effect β} {world later : World}
    {fault : Fault} (rest : ∀ result, Succeeds (next result))
    (fails : outcome (effect >>= next) world = (.error fault, later)) :
    outcome effect world = (.error fault, later) := by
  rw [outcome_bind] at fails
  generalize outcome effect world = ending at fails ⊢
  obtain ⟨cause | result, between⟩ := ending
  · cases fails
    rfl
  · obtain ⟨final, last, ends_well⟩ := rest result between
    dsimp only at fails
    rw [ends_well] at fails
    cases fails

/-- If nothing can fail behind what is read off the store, it is the reading that fails, and it
leaves the world as it was. -/
theorem outcome_read_bind_eq_error_iff {query : Store → Except Fault α} {next : α → Effect β}
    {world later : World} {fault : Fault} (rest : ∀ result, Succeeds (next result)) :
    outcome (read query >>= next) world = (.error fault, later) ↔
      later = world ∧ query world.store = .error fault := by
  constructor
  · intro fails
    have read_fails := outcome_error_of_bind rest fails
    rw [outcome_read] at read_fails
    exact ⟨(Prod.mk.inj read_fails).2.symm, (Prod.mk.inj read_fails).1⟩
  · rintro ⟨rfl, fails⟩
    rw [outcome_bind, outcome_read, fails]

theorem FailsSparing.bind_of_succeeds {effect : Effect α} {next : α → Effect β}
    (first : FailsSparing spared effect) (rest : ∀ result, Succeeds (next result)) :
    FailsSparing spared (effect >>= next) :=
  fun world fault later fails => first world fault later (outcome_error_of_bind rest fails)

theorem succeeds_extendList (ref : Ref) (items : List Value) : Succeeds (extendList ref items) :=
  fun _ => ⟨(), _, rfl⟩

theorem succeeds_newTable (table : Table Value Value) : Succeeds (newTable table) :=
  fun _ => ⟨_, _, rfl⟩

/-- A change after which nothing can fail. -/
theorem Succeeds.thenReturn {effect : Effect α} (succeeds : Succeeds effect) (result : β) :
    FailsSparing spared (do let _ ← effect; return result) :=
  (succeeds.bind fun _ => succeeds_pure result).failsSparing

theorem spares_newList (items : List Value) : Spares spared (newList items) :=
  have routine : Routine (SparingAt {} spared) spared true fun _ => newList items :=
    routine_newList items
  routine.spares

theorem spares_binaryScalar (op : BinaryOperator) (inplace : Bool) (left right : Value) :
    Spares spared (binaryScalar op inplace left right) :=
  have routine : Routine (SparingAt {} spared) spared true
      fun _ => binaryScalar op inplace left right :=
    routine_binaryScalar op inplace left right
  routine.spares

end Effect

/-! ## In-place operators -/

theorem failsSparing_inplaceList (ref : Ref) (op : BinaryOperator) (other : Value) :
    FailsSparing spared (inplaceList ref op other) := by
  refine .bind_of_spares spares_getStore fun store => ?_
  cases op with
  | add =>
      cases other with
      | list | tuple | str => exact (succeeds_extendList ref _).thenReturn _
      | _ => exact ((spares_throw _).bind fun _ => spares_pure _).failsSparing
  | mul =>
      have repeats (count : Nat) : FailsSparing spared
          (if count = 0 then newList []
          else do
            setList ref (← ofExcept (store.replicateValues (store.list ref) count))
            return .list ref) := by
        split
        · exact (spares_newList []).failsSparing
        · exact .bind_of_spares (spares_ofExcept _) fun _ =>
            (succeeds_modifyStore _).thenReturn _
      cases other with
      | bool b =>
          cases b with
          | true => exact (spares_pure _).failsSparing
          | false => exact (spares_newList []).failsSparing
      | _ => exact .bind_of_spares (spares_ofExcept _) repeats
  | _ => exact (spares_throw _).failsSparing

theorem failsSparing_inplaceBytearray (ref : Ref) (op : BinaryOperator) (other : Value) :
    FailsSparing spared (inplaceBytearray ref op other) := by
  refine .bind_of_spares spares_getStore fun store => ?_
  split
  · exact (succeeds_modifyStore _).thenReturn _
  · split
    · exact (spares_binaryScalar _ _ _ _).failsSparing
    · exact .bind_of_spares (spares_ofExcept _) fun _ => (succeeds_modifyStore _).thenReturn _
  · exact (spares_binaryScalar _ _ _ _).failsSparing

/-! ## Tables -/

theorem failsSparing_setKey (table : Ref) (key value : Value) :
    FailsSparing spared (setKey table key value) :=
  .bind_of_spares (spares_read _) fun _ => (succeeds_modifyStore _).failsSparing

theorem failsSparing_removeElement (table : Ref) (element : Value) :
    FailsSparing spared (removeElement table element) :=
  .bind_of_spares (spares_read _) fun _ => (succeeds_modifyStore _).failsSparing

section World

variable {table : Ref} {key value : Value} {world later : World} {fault : Fault}

theorem eq_of_setKey_error
    (fails : outcome (setKey table key value) world = (.error fault, later)) : later = world :=
  ((outcome_read_bind_eq_error_iff fun _ => succeeds_modifyStore _).mp fails).1

theorem eq_of_removeElement_error
    (fails : outcome (removeElement table key) world = (.error fault, later)) : later = world :=
  ((outcome_read_bind_eq_error_iff fun _ => succeeds_modifyStore _).mp fails).1

end World

/-! ## Methods -/

theorem failsSparing_popList (ref : Ref) : FailsSparing spared (popList ref) := by
  refine .bind_of_spares spares_getStore fun store => ?_
  dsimp only
  split
  · exact (succeeds_modifyStore _).thenReturn _
  · exact (spares_throw _).failsSparing

theorem failsSparing_removeFromList (ref : Ref) (value : Value) :
    FailsSparing spared (removeFromList ref value) := by
  refine .bind_of_spares spares_getStore fun store => ?_
  dsimp only
  split
  · exact (succeeds_modifyStore _).failsSparing
  · exact (spares_throw _).failsSparing

section Methods

variable {context : Context} {ref : Ref} {name : String} {arguments : List Value}

theorem failsSparing_callListMethod
    (collects : ∀ source : Value, Effect.Spares spared (source.collect context)) :
    FailsSparing spared (callListMethod context ref name arguments) := by
  unfold callListMethod
  split
  · exact .bind_of_spares (spares_ofExcept _) fun _ => (succeeds_extendList ref _).thenReturn _
  · refine .bind_of_spares (spares_ofExcept _) fun source => ?_
    split
    · exact .bind_of_spares spares_getStore fun _ => (succeeds_extendList ref _).thenReturn _
    · exact .bind_of_spares (collects _) fun _ => (succeeds_extendList ref _).thenReturn _
  · exact .bind_of_spares (spares_ofExcept _) fun _ =>
      .bind_of_spares spares_getStore fun _ => (spares_newList _).failsSparing
  · exact .bind_of_spares (spares_ofExcept _) fun _ => failsSparing_popList ref
  · exact .bind_of_spares (spares_ofExcept _) fun value =>
      (failsSparing_removeFromList ref value).bind_of_succeeds fun _ => succeeds_pure _
  · exact (spares_throw _).failsSparing

theorem failsSparing_callSetMethod {sort : SetKind}
    (no_update : name = "update" → ∀ source, arguments ≠ [source]) :
    FailsSparing spared (callSetMethod sort ref name arguments) := by
  unfold callSetMethod
  split
  · exact .bind_of_spares (spares_ofExcept _) fun element =>
      (failsSparing_setKey ref element element).bind_of_succeeds fun _ => succeeds_pure _
  · exact .bind_of_spares (spares_ofExcept _) fun element =>
      (failsSparing_removeElement ref element).bind_of_succeeds fun _ => succeeds_pure _
  · exact .ofExcept_bind fun source asks => absurd (eq_of_onlyArgument asks) (no_update rfl source)
  · refine .bind_of_spares (spares_ofExcept _) fun _ => .bind_of_spares spares_getStore fun _ => ?_
    exact ((succeeds_newTable _).bind fun _ => succeeds_pure _).failsSparing
  · exact (spares_throw _).failsSparing

theorem failsSparing_callBytearrayMethod :
    FailsSparing spared (callBytearrayMethod ref name arguments) := by
  unfold callBytearrayMethod
  split
  · exact .bind_of_spares (spares_ofExcept _) fun byte =>
      .bind_of_spares spares_getStore fun _ => (succeeds_modifyStore _).thenReturn _
  · exact (spares_throw _).failsSparing

end Methods

/-! ## The update of a set -/

/-- How the update of a set from a source fails: on the kind of the source, with nothing done, or on
an element without a hash, with all elements before it added in their order. -/
inductive UpdateFails (table : Ref) (source : Value) (world : World) : Fault → World → Prop
  | kind (no_source : world.store.setSource? source = none) :
      UpdateFails table source world (.notIterable source.kind) world
  | element {before after : List Value} {element : Value} {fault : Fault} {later : World}
      (of_source : world.store.setSource? source = some (before ++ element :: after))
      (added : outcome (addElements table before) world = (.ok (), later))
      (unhashable : later.store.hash element = .error fault) :
      UpdateFails table source world fault later

/-- The first element without a hash ends the addition of elements. -/
theorem exists_split_of_addElements {table : Ref} {elements : List Value} {world later : World}
    {fault : Fault} (fails : outcome (addElements table elements) world = (.error fault, later)) :
    ∃ before element after, elements = before ++ element :: after ∧
      outcome (addElements table before) world = (.ok (), later) ∧
      later.store.hash element = .error fault := by
  induction elements generalizing world with
  | nil => cases fails
  | cons element elements induction =>
      rw [addElements_cons, outcome_bind, outcome_setKey] at fails
      cases inserts : world.store.insertKey (world.store.table table) element element with
      | error cause =>
          rw [inserts] at fails
          cases fails
          exact ⟨[], element, elements, rfl, rfl, Store.insertKey_eq_error_iff.mp inserts⟩
      | ok after =>
          rw [inserts] at fails
          obtain ⟨before, failing, rest, rfl, added, unhashable⟩ := induction fails
          refine ⟨element :: before, failing, rest, rfl, ?_, unhashable⟩
          rw [addElements_cons, outcome_bind, outcome_setKey, inserts]
          exact added

theorem updateFails_of_updateSet {table : Ref} {source : Value} {world later : World}
    {fault : Fault} (fails : outcome (updateSet table source) world = (.error fault, later)) :
    UpdateFails table source world fault later := by
  rw [updateSet, outcome_bind_of_ok (outcome_getStore world)] at fails
  cases of_source : world.store.setSource? source with
  | none =>
      rw [of_source] at fails
      cases fails
      exact .kind of_source
  | some elements =>
      rw [of_source] at fails
      obtain ⟨before, element, after, rfl, added, unhashable⟩ := exists_split_of_addElements fails
      exact .element of_source added unhashable

end ObjectModel
