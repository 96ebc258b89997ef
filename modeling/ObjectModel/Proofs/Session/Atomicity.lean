import ObjectModel.Proofs.Effect.Failure
import ObjectModel.Proofs.Session.Frame

/-!
# Failed operations

An operation that fails leaves even its target as it was. Set algebra in place changes its left
operand element by element and then makes a new set, but it can only fail before: the elements that
it adds are keys of tables, and in a session these have hashes. The update of a set is the
exception.
-/

namespace ObjectModel

open Effect

variable {context : Context} {stage : Stage} {spared : Value → Prop} {operation : Operation}

namespace Stage

/-- At a sound stage keys can be added one by one, and stay keys. -/
theorem exists_addElements (sound : stage.Sound) {world : World}
    (same : world.store = stage.store) (table : Ref) {elements : List Value}
    (admits : stage.AdmitsAll elements)
    (is_key : ∀ element ∈ elements, stage.store.IsKey element) :
    ∃ later, outcome (addElements table elements) world = (.ok (), later) := by
  induction elements generalizing stage world with
  | nil => exact ⟨world, rfl⟩
  | cons element elements induction =>
      rw [AdmitsAll, List.forall_mem_cons] at admits
      rw [List.forall_mem_cons] at is_key
      obtain ⟨after, inserts⟩ :=
        Store.exists_insertKey is_key.1 (stage.store.table table) element
      obtain ⟨later, precedes, later_sound, store_eq, -⟩ :=
        yields_setKey table admits.1 admits.1 sound world same
      rw [addElements_cons, outcome_bind]
      rw [outcome_setKey, same, inserts] at store_eq ⊢
      exact induction later_sound store_eq (AdmitsAll.kept admits.2 precedes)
        fun key member =>
          isKey_kept sound precedes (admits.2 key member).known (is_key.2 key member)

/-- What set algebra selects has hashes. -/
theorem Sound.isKey_combineSets (sound : stage.Sound) {operation : SetOperation}
    {left right : Ref} {elements : List Value}
    (combines : stage.store.combineSets operation left right = .ok elements) :
    ∀ element ∈ elements, stage.store.IsKey element := by
  intro element member
  rcases List.mem_append.mp (Store.combineSets_subset combines member) with of_left | of_right
  · exact ((sound.tables left).keys element of_left).2
  · exact ((sound.tables right).keys element of_right).2

/-- At a sound stage a set is made of any keys. -/
theorem exists_newSet_of_isKey {world : World} (same : world.store = stage.store) (sort : SetKind)
    {elements : List Value} (is_key : ∀ element ∈ elements, stage.store.IsKey element) :
    ∃ result later, outcome (newSet sort elements) world = (.ok result, later) := by
  obtain ⟨table, makes⟩ := Store.exists_tableOfKeys is_key
  rw [outcome_newSet, same, makes]
  exact ⟨_, _, rfl⟩

/-- At a sound stage set algebra in place fails before it changes anything. -/
theorem eq_of_inplaceSet_error (sound : stage.Sound) {world later : World}
    (same : world.store = stage.store) {sort : SetKind} {left : Ref} {op : BinaryOperator}
    {other : Value} {fault : Fault}
    (fails : outcome (sort.inplace left op other) world = (.error fault, later)) :
    later = world := by
  unfold SetKind.inplace at fails
  split at fails
  · rename_i right operation _ _
    rw [outcome_bind, outcome_read, same] at fails
    cases combines : stage.store.combineSets operation left right with
    | error cause =>
        rw [combines] at fails
        exact (Prod.mk.inj fails).2.symm
    | ok elements =>
        rw [combines] at fails
        have admits := sound.admitsAll_combineSets combines
        have is_key := sound.isKey_combineSets combines
        dsimp only at fails
        split at fails
        · obtain ⟨between, added⟩ := exists_addElements sound same left admits is_key
          obtain ⟨next, precedes, -, store_eq, -⟩ := yields_addElements left admits sound world same
          rw [added] at store_eq
          obtain ⟨result, last, made⟩ := exists_newSet_of_isKey store_eq sort fun key member =>
            isKey_kept sound precedes (admits key member).known (is_key key member)
          rw [outcome_bind_of_ok added, made] at fails
          cases fails
        · obtain ⟨result, last, made⟩ := exists_newSet_of_isKey same sort is_key
          rw [made] at fails
          cases fails
  · exact (Prod.mk.inj fails).2.symm

end Stage

/-! ## Operations -/

namespace Operation

/-- The table and the source of the update of a set. -/
def update? : Operation → Option (Ref × Value)
  | callMethod (.set table) "update" [source] => some (table, source)
  | updateSet _ table source => some (table, source)
  | _ => none

/-- Apart from the update of a set and set algebra in place, an operation with a target spares
whatever functions of the host do, if it fails. -/
theorem failsSparing_perform (hosts : HostsSpare spared context.function?) {target : Value}
    (targets : operation.target? = some target) (no_update : operation.update? = none)
    (no_algebra : ∀ op table right, operation ≠ .inplace op (.set table) right) :
    FailsSparing spared (operation.perform context) := by
  cases operation with
  | inplace op left right =>
      refine FailsSparing.bind_of_succeeds ?_ fun _ => succeeds_pure _
      cases left with
      | list ref => exact failsSparing_inplaceList ref op right
      | bytearray ref => exact failsSparing_inplaceBytearray ref op right
      | set table => exact absurd rfl (no_algebra op table right)
      | _ => simp [target?, Value.kind, Kind.inplaceOperators] at targets
  | callMethod receiver name arguments =>
      refine FailsSparing.bind_of_succeeds ?_ fun _ => succeeds_pure _
      cases receiver with
      | list ref => exact failsSparing_callListMethod hosts.spares_collect
      | set table =>
          refine failsSparing_callSetMethod fun is_update source is_only => ?_
          subst is_update is_only
          contradiction
      | bytearray ref => exact failsSparing_callBytearrayMethod
      | _ => simp [target?, Value.kind, Kind.changingMethods] at targets
  | setKey table key value =>
      exact (failsSparing_setKey table key value).bind_of_succeeds fun _ => succeeds_pure _
  | addElement sort table element =>
      exact (failsSparing_setKey table element element).bind_of_succeeds fun _ => succeeds_pure _
  | removeElement sort table element =>
      exact (failsSparing_removeElement table element).bind_of_succeeds fun _ => succeeds_pure _
  | _ => contradiction

/-- The update of a set fails as its addition of elements does. -/
theorem updateFails_of_perform {table : Ref} {source : Value}
    (updates : operation.update? = some (table, source)) {world later : World} {fault : Fault}
    (fails : outcome (operation.perform context) world = (.error fault, later)) :
    UpdateFails table source world fault later := by
  unfold update? at updates
  split at updates
  · cases updates
    have method_fails := outcome_error_of_bind (fun _ => succeeds_pure _) fails
    have update_fails : outcome (Effect.updateSet table source >>= fun _ => pure Value.none) world =
        (.error fault, later) := method_fails
    exact updateFails_of_updateSet (outcome_error_of_bind (fun _ => succeeds_pure _) update_fails)
  · cases updates
    exact updateFails_of_updateSet (outcome_error_of_bind (fun _ => succeeds_pure _) fails)
  · contradiction

end Operation

namespace Session

variable {session : Session}

/-- In every session that can come about: if an operation other than the update of a set fails,
every value keeps its contents, and so does its target. If the update of a set fails, the set has
got the elements before the one that has no hash, or none on a source of the wrong kind. Insertions
into tables and removals from them that fail leave the world as it was. -/
theorem failure_atomic (honest : HonestHosts context.function?)
    (reachable : session.Reachable context) :
    (∀ operation, operation.Allowed context session.hand → ∀ fault,
      (session.ending context operation).1 = .error fault → operation.update? = none →
        ∀ value, session.Has value → LeavesAlone context [operation] value →
          session.world.store.Keeps (session.step context operation).world.store value) ∧
    (∀ operation, operation.Allowed context session.hand → ∀ fault,
      (session.ending context operation).1 = .error fault → ∀ table source,
        operation.update? = some (table, source) →
          UpdateFails table source session.world fault
            (session.step context operation).world) ∧
    ∀ table key value fault later,
      outcome (setKey table key value) session.world = (.error fault, later) ∨
        outcome (removeElement table key) session.world = (.error fault, later) →
          later = session.world := by
  obtain ⟨stage, fits⟩ := reachable.exists_stage honest
  have ends {operation : Operation} {fault : Fault}
      (fails : (session.ending context operation).1 = .error fault) :
      outcome (operation.perform context) session.world =
        (.error fault, (session.step context operation).world) := Prod.ext fails rfl
  refine ⟨?other, ?update, ?table⟩
  case other =>
    intro operation allowed fault fails no_update value has ⟨hosts, bodies⟩
    refine (?_ : session.world.store.Spares (· = value) _).keeps
      (fits.store_eq ▸ (fits.admits has).known) rfl
    by_cases targets : operation.target? = some value
    · by_cases algebra : ∃ op table right, operation = .inplace op (.set table) right
      · obtain ⟨op, table, right, rfl⟩ := algebra
        have inplace_fails := outcome_error_of_bind (fun _ => succeeds_pure _) (ends fails)
        rw [Stage.eq_of_inplaceSet_error fits.sound fits.store_eq inplace_fails]
        exact .refl _
      · push Not at algebra
        exact Operation.failsSparing_perform hosts targets no_update algebra _ _ _ (ends fails)
    · exact fits.spares_step allowed (fits.admits has) hosts
        (bodies operation List.mem_cons_self) targets
  case update =>
    intro operation allowed fault fails table source updates
    exact Operation.updateFails_of_perform updates (ends fails)
  case table =>
    rintro table key value fault later (set_fails | erase_fails)
    · exact eq_of_setKey_error set_fails
    · exact eq_of_removeElement_error erase_fails

/-- The operations that make a list, sums of its items to come, a set, and a list that holds the
first one. -/
def preparing : List Operation :=
  [.newList [.int 1], .newMap (.builtin "sum") (.list ⟨0⟩), .newSet .mutable [],
    .newList [.int 1, .list ⟨0⟩]]

/-- The session after these operations. -/
def prepared : Session :=
  preparing.foldl (step hosted) (start {})

theorem reachable_prepared : prepared.Reachable hosted := by
  let listed := (start {}).step hosted (.newList [.int 1])
  let mapped := listed.step hosted (.newMap (.builtin "sum") (.list ⟨0⟩))
  let gathered := mapped.step hosted (.newSet .mutable [])
  have listed_hand : listed.hand = [.list ⟨0⟩] := by rfl
  have gathered_hand : gathered.hand = [.list ⟨0⟩, .map ⟨0⟩, .set ⟨0⟩] := by rfl
  have in_listed : Value.list ⟨0⟩ ∈ listed.hand := by simp [listed_hand]
  have in_gathered : Value.list ⟨0⟩ ∈ gathered.hand := by simp [gathered_hand]
  refine ⟨{}, preparing, .perform (.of_operands ?_ nofun nofun)
    (.perform (.of_operands ?_ nofun nofun) (.perform (.of_operands nofun nofun nofun)
      (.perform (.of_operands ?_ nofun nofun) (.done _))))⟩
  · exact List.forall_mem_singleton.mpr (.inl rfl)
  · exact List.forall_mem_cons.mpr ⟨.inl rfl, List.forall_mem_singleton.mpr (.inr in_listed)⟩
  · exact List.forall_mem_cons.mpr ⟨.inl rfl, List.forall_mem_singleton.mpr (.inr in_gathered)⟩

/-- An item that has no sum ends the extension of its own list, and one without a hash ends the
update of a set behind the item before it. -/
theorem failure_atomic_prepared :
    let extending : Operation := .callMethod (.list ⟨0⟩) "extend" [.map ⟨0⟩]
    let updating : Operation := .callMethod (.set ⟨0⟩) "update" [.list ⟨1⟩]
    prepared.Reachable hosted ∧
      (prepared.ending hosted extending).1 = .error .sumFailed ∧
      prepared.world.store.Keeps (prepared.step hosted extending).world.store (.list ⟨0⟩) ∧
      UpdateFails ⟨0⟩ (.list ⟨1⟩) prepared.world (.unhashable .list)
        (prepared.step hosted updating).world ∧
      (outcome (setKey ⟨0⟩ (.list ⟨0⟩) .none) prepared.world).2 = prepared.world := by
  intro extending updating
  have hand_prepared : prepared.hand = [.list ⟨0⟩, .map ⟨0⟩, .set ⟨0⟩, .list ⟨1⟩] := by rfl
  have extending_fails : (prepared.ending hosted extending).1 = .error .sumFailed := by cbv
  have updating_fails : (prepared.ending hosted updating).1 = .error (.unhashable .list) := by rfl
  have extending_allowed : extending.Allowed hosted prepared.hand :=
    .of_operands (by simp [extending, hand_prepared]) (by simp [extending]) (by simp [extending])
  have updating_allowed : updating.Allowed hosted prepared.hand :=
    .of_operands (by simp [updating, hand_prepared]) (by simp [updating]) (by simp [updating])
  have no_body (value : Value) : extending.BodySpares hosted (· = value) := by
    simp [extending, Operation.BodySpares]
  obtain ⟨keeps, update_fails, unchanged⟩ := failure_atomic honestHosts_hosted reachable_prepared
  refine ⟨reachable_prepared, extending_fails, ?_, ?_, ?_⟩
  · exact keeps extending extending_allowed _ extending_fails rfl _
      (.inl (by simp [hand_prepared]))
      ⟨hostsSpare_hosted _, List.forall_mem_singleton.mpr (no_body _)⟩
  · exact update_fails updating updating_allowed _ updating_fails _ _ rfl
  · exact unchanged ⟨0⟩ (.list ⟨0⟩) .none (.unhashable .list) _ (.inl rfl)

end Session
end ObjectModel
