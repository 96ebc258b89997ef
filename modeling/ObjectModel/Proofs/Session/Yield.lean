import ObjectModel.Proofs.Effect.Agreement
import ObjectModel.Proofs.Session.Stage

/-!
# Effects at a stage

An effect at a sound stage ends at a sound later stage, at which its result is as expected.
Sequences of effects go from one stage to the next. New objects may hold what the stage admits, and
so may the new contents of an old one.
-/

namespace ObjectModel

open Effect

variable {α β : Type}

namespace Stage

/-- An effect that begins with the store of a stage, if that is sound, ends with the store of a
sound later stage, at which its result is as expected. -/
def Yields (stage : Stage) (effect : Effect α) (expected : Stage → α → Prop) : Prop :=
  stage.Sound → ∀ world : World, world.store = stage.store →
    ∃ later, stage.Precedes later ∧ later.Sound ∧
      (outcome effect world).2.store = later.store ∧
      ∀ result, (outcome effect world).1 = .ok result → expected later result

variable {stage later : Stage} {expected weaker : Stage → α → Prop} {effect : Effect α}

theorem Yields.mono (yields : stage.Yields effect expected)
    (weaken : ∀ later result, stage.Precedes later → expected later result → weaker later result) :
    stage.Yields effect weaker := by
  intro sound world same
  obtain ⟨later, precedes, later_sound, store_eq, meets⟩ := yields sound world same
  exact ⟨later, precedes, later_sound, store_eq, fun result ends =>
    weaken later result precedes (meets result ends)⟩

theorem yields_pure {result : α} (meets : expected stage result) :
    stage.Yields (pure result) expected := by
  intro sound world same
  refine ⟨stage, .refl stage, sound, same, ?_⟩
  rintro _ ⟨⟩
  exact meets

theorem yields_throw (fault : Fault) : stage.Yields (throw fault) expected := by
  intro sound world same
  exact ⟨stage, .refl stage, sound, same, nofun⟩

theorem yields_throw_bind (fault : Fault) {next : α → Effect β} {wanted : Stage → β → Prop} :
    stage.Yields (throw fault >>= next) wanted := by
  intro sound world same
  rw [outcome_bind, outcome_throw]
  exact ⟨stage, .refl stage, sound, same, nofun⟩

theorem Yields.bind {next : α → Effect β} {wanted : Stage → β → Prop}
    (first : stage.Yields effect expected)
    (rest : ∀ later result, stage.Precedes later → expected later result →
      later.Yields (next result) wanted) :
    stage.Yields (effect >>= next) wanted := by
  intro sound world same
  obtain ⟨middle, precedes, middle_sound, store_eq, meets⟩ := first sound world same
  rw [outcome_bind]
  generalize outcome effect world = ending at store_eq meets ⊢
  obtain ⟨fault | result, between⟩ := ending
  · exact ⟨middle, precedes, middle_sound, store_eq, nofun⟩
  · obtain ⟨last, follows, last_sound, last_eq, last_meets⟩ :=
      rest middle result precedes (meets result rfl) middle_sound between store_eq
    exact ⟨last, precedes.trans follows, last_sound, last_eq, last_meets⟩

theorem yields_getStore_bind {next : Store → Effect α}
    (rest : stage.Sound → stage.Yields (next stage.store) expected) :
    stage.Yields (getStore >>= next) expected := by
  intro sound world same
  rw [outcome_bind_of_ok (outcome_getStore world), same]
  exact rest sound sound world same

theorem yields_ofExcept_bind {result : Except Fault α} {next : α → Effect β}
    {wanted : Stage → β → Prop}
    (rest : ∀ value, result = .ok value → stage.Yields (next value) wanted) :
    stage.Yields (ofExcept result >>= next) wanted := by
  cases result with
  | ok value => exact rest value rfl
  | error fault => exact yields_throw fault

theorem yields_read_bind {query : Store → Except Fault α} {next : α → Effect β}
    {wanted : Stage → β → Prop}
    (rest : stage.Sound → ∀ result, query stage.store = .ok result →
      stage.Yields (next result) wanted) :
    stage.Yields (read query >>= next) wanted := by
  rw [Effect.read, bind_assoc]
  exact yields_getStore_bind fun sound => yields_ofExcept_bind (rest sound)

theorem Yields.tryCatch {handler : Fault → Effect α} (attempt : stage.Yields effect expected)
    (handles : ∀ later fault, stage.Precedes later → later.Yields (handler fault) expected) :
    stage.Yields (tryCatch effect handler) expected := by
  intro sound world same
  obtain ⟨middle, precedes, middle_sound, store_eq, meets⟩ := attempt sound world same
  rw [outcome_tryCatch]
  generalize outcome effect world = ending at store_eq meets ⊢
  obtain ⟨fault | result, between⟩ := ending
  · obtain ⟨last, follows, last_sound, last_eq, last_meets⟩ :=
      handles middle fault precedes middle_sound between store_eq
    exact ⟨last, precedes.trans follows, last_sound, last_eq, last_meets⟩
  · exact ⟨middle, precedes, middle_sound, store_eq, meets⟩

/-- A loop yields what its turns do, if what holds of its state holds after each turn. -/
theorem Yields.loop {σ : Type} {turn : σ → Effect (σ ⊕ α)} {holds : Stage → σ → Prop} {state : σ}
    (turns : ∀ middle state, stage.Precedes middle → holds middle state →
      middle.Yields (turn state) fun later => Sum.elim (holds later) (expected later))
    (begins : holds stage state) : stage.Yields (Effect.loop turn state) expected := by
  intro sound world same
  rcases loopsTo_or_endless turn state world with loops | ⟨-, endless⟩
  · rw [loops.outcome_loop]
    generalize outcome (Effect.loop turn state) world = ending at loops
    induction loops generalizing stage with
    | result comes =>
        have ends := turns stage _ (.refl stage) begins sound _ same
        rw [comes] at ends
        obtain ⟨later, precedes, later_sound, store_eq, meets⟩ := ends
        refine ⟨later, precedes, later_sound, store_eq, ?_⟩
        rintro _ ⟨⟩
        exact meets _ rfl
    | fault fails =>
        have ends := turns stage _ (.refl stage) begins sound _ same
        rw [fails] at ends
        obtain ⟨later, precedes, later_sound, store_eq, -⟩ := ends
        exact ⟨later, precedes, later_sound, store_eq, nofun⟩
    | again continues _ induction =>
        have goes_on := turns stage _ (.refl stage) begins sound _ same
        rw [continues] at goes_on
        obtain ⟨middle, precedes, middle_sound, store_eq, meets⟩ := goes_on
        obtain ⟨later, follows, ends⟩ := induction
          (fun later state follows => turns later state (precedes.trans follows))
          (meets _ rfl) middle_sound store_eq
        exact ⟨later, precedes.trans follows, ends⟩
  · rw [endless]
    exact ⟨stage, .refl stage, sound, same, nofun⟩

/-- An unbounded effect yields what all of its attempts do. -/
theorem yields_unbounded {attempts : Nat → Effect α}
    (each : ∀ depth, stage.Yields (attempts depth) expected) :
    stage.Yields (unbounded attempts) expected := by
  intro sound world same
  rcases firstToEnd_or_endless attempts world with ⟨depth, -, ends⟩ | ⟨-, endless⟩
  · rw [ends]
    exact each depth sound world same
  · rw [endless]
    exact ⟨stage, .refl stage, sound, same, nofun⟩

/-- The item of a step, if there is one, is as expected of the step. -/
theorem Yields.nextItem {next : Value → Effect Value} {iterator : Value}
    (step : stage.Yields (next iterator) Admits) :
    stage.Yields (nextItemBy next iterator) fun later found => later.AdmitsAll found.toList := by
  refine Yields.tryCatch (step.bind fun later item _ admits => yields_pure ?_)
    fun later fault _ => ?_
  · simpa [AdmitsAll] using admits
  · split
    · exact yields_pure nofun
    · exact yields_throw fault

theorem yields_readLine (prompt : String) : stage.Yields (readLine prompt) Admits := by
  rintro sound ⟨store, script, shown⟩ rfl
  refine ⟨stage, .refl stage, sound, ?_, ?_⟩
  · cases script <;> rfl
  · intro result ends
    cases script with
    | nil => cases ends
    | cons line script =>
        cases ends
        exact admits_of_plain (fun _ => rfl) rfl

/-! ## Changes of the store -/

theorem precedes_of_spares {store : Store}
    (spares : stage.store.Spares (·.kind = .tuple) store) :
    stage.Precedes { stage with store } where
  spares := spares
  kinds_eq _ _ := rfl

/-- An effect that succeeds, whatever the console is. -/
theorem yields_of_outcome (result : α) (precedes : stage.Precedes later)
    (sound_later : stage.Sound → later.Sound)
    (ends : ∀ console, outcome effect ⟨stage.store, console⟩ = (.ok result, ⟨later.store, console⟩))
    (meets : expected later result) : stage.Yields effect expected := by
  rintro sound ⟨store, console⟩ rfl
  rw [ends console]
  refine ⟨later, precedes, sound_later sound, rfl, ?_⟩
  rintro _ ⟨⟩
  exact meets

section Additions

variable {items : List Value} {table : Table Value Value}

theorem yields_newBytearray (bytes : List UInt8) : stage.Yields (newBytearray bytes) Admits := by
  have precedes := precedes_of_spares (stage.store.spares_addBuffer bytes)
  refine yields_of_outcome (.bytearray stage.store.buffers.next) precedes (fun sound => ?_)
    (fun _ => rfl) ⟨?_, nofun⟩
  · exact { sound.covers_kept precedes with }
  · exact decide_eq_true (stage.store.buffers.index_next_lt_size_push bytes)

theorem yields_newTuple (admits : stage.AdmitsAll items) :
    stage.Yields (newTuple items) Admits := by
  have precedes := precedes_of_spares (stage.store.spares_addTuple items)
  refine yields_of_outcome (.tuple stage.store.tuples.next) precedes (fun sound => ?_)
    (fun _ => rfl) ⟨?_, nofun⟩
  · have covers := sound.covers_kept precedes
    exact { covers with tuples := covers.tuples.push (admits.kept precedes) }
  · exact decide_eq_true (stage.store.tuples.index_next_lt_size_push items)

theorem yields_newList (admits : stage.AdmitsAll items) :
    stage.Yields (newList items) Admits := by
  have precedes := precedes_of_spares (stage.store.spares_addList items)
  refine yields_of_outcome (.list stage.store.lists.next) precedes (fun sound => ?_)
    (fun _ => rfl) ⟨?_, nofun⟩
  · have covers := sound.covers_kept precedes
    exact { covers with lists := covers.lists.push (admits.kept precedes) }
  · exact decide_eq_true (stage.store.lists.index_next_lt_size_push items)

theorem yields_newHostObject {fields : List (String × Value)}
    (admits : ∀ field ∈ fields, stage.Admits field.2) :
    stage.Yields (newHostObject fields) Admits := by
  have precedes := precedes_of_spares (stage.store.spares_addRecord fields)
  refine yields_of_outcome (.hostObject stage.store.records.next) precedes (fun sound => ?_)
    (fun _ => rfl) ⟨?_, nofun⟩
  · have covers := sound.covers_kept precedes
    exact { covers with
      records := covers.records.push fun field member => (admits field member).kept precedes }
  · exact decide_eq_true (stage.store.records.index_next_lt_size_push fields)

/-- A new table can get any kind. -/
theorem yields_newTable (kind : Kind) (fits : stage.FitsTable table) :
    stage.Yields (newTable table) fun later ref =>
      ∀ value, value.table? = some ref → value.kind = kind → later.Admits value := by
  let kinds (ref : Ref) : Kind := if ref = stage.store.tables.next then kind else stage.kinds ref
  have precedes : stage.Precedes
      ⟨{ stage.store with tables := stage.store.tables.push table }, kinds⟩ := by
    refine ⟨stage.store.spares_addTable table, fun ref known => if_neg ?_⟩
    rintro rfl
    exact Nat.lt_irrefl _ known
  refine yields_of_outcome stage.store.tables.next precedes (fun sound => ?_) (fun _ => rfl)
    fun value of_value is_kind => ?_
  · have covers := sound.covers_kept precedes
    exact { covers with tables := covers.tables.push (fits.kept sound precedes) }
  · refine ⟨Store.knows_of_index_lt of_value (Pool.index_next_lt_size_push _ table), ?_⟩
    intro ref of_ref
    obtain rfl := Option.some.inj (of_ref.symm.trans of_value)
    exact is_kind.trans (if_pos rfl).symm

theorem yields_newListIterator (list : Ref) : stage.Yields (newListIterator list) Admits := by
  have precedes := precedes_of_spares (stage.store.spares_addListCursor { target := list })
  exact yields_of_outcome (.listIterator stage.store.listCursors.next) precedes
    (fun sound => { sound.covers_kept precedes with })
    (fun _ => rfl) (admits_of_plain (fun _ => rfl) rfl)

theorem yields_newKeyCursor (table : Ref) : stage.Yields (newKeyCursor table) fun _ _ => True := by
  have precedes := precedes_of_spares (stage.store.spares_addKeyCursor { target := table })
  exact yields_of_outcome stage.store.keyCursors.next precedes
    (fun sound => { sound.covers_kept precedes with })
    (fun _ => rfl) trivial

theorem yields_newSeqIterator (admits : stage.AdmitsAll items) :
    stage.Yields (newSeqIterator items) Admits := by
  have precedes := precedes_of_spares (stage.store.spares_addSequenceCursor items)
  refine yields_of_outcome (.seqIterator stage.store.sequenceCursors.next) precedes
    (fun sound => ?_) (fun _ => rfl)
    (admits_of_plain (fun _ => rfl) rfl)
  have covers := sound.covers_kept precedes
  exact { covers with sequenceCursors := covers.sequenceCursors.push (admits.kept precedes) }

theorem yields_newMap {function source : Value} (admits_function : stage.Admits function)
    (admits_source : stage.Admits source) : stage.Yields (newMap function source) Admits := by
  have precedes := precedes_of_spares (stage.store.spares_addMapping { function, source })
  refine yields_of_outcome (.map stage.store.mappings.next) precedes
    (fun sound => ?_) (fun _ => rfl)
    (admits_of_plain (fun _ => rfl) rfl)
  have covers := sound.covers_kept precedes
  have fits : stage.FitsMapping { function, source } := ⟨admits_function, admits_source, nofun⟩
  exact { covers with mappings := covers.mappings.push (fits.kept precedes) }

end Additions

/-- A change keeps the stage if it spares tuples and leaves a store that is covered. -/
theorem yields_modifyStore {change : Store → Store}
    (spares : stage.store.Spares (·.kind = .tuple) (change stage.store))
    (covers : stage.Precedes { stage with store := change stage.store } → stage.Sound →
      Covers { stage with store := change stage.store } (change stage.store)) :
    stage.Yields (modifyStore change) fun _ _ => True :=
  have precedes := precedes_of_spares spares
  yields_of_outcome () precedes (covers precedes) (fun _ => rfl) trivial

theorem yields_setBuffer (ref : Ref) (bytes : List UInt8) :
    stage.Yields (setBuffer ref bytes) fun _ _ => True :=
  yields_modifyStore (stage.store.spares_setBuffer bytes nofun) fun precedes sound =>
    { sound.covers_kept precedes with }

theorem yields_setList (ref : Ref) {items : List Value} (admits : stage.AdmitsAll items) :
    stage.Yields (setList ref items) fun _ _ => True := by
  refine yields_modifyStore (stage.store.spares_setList items nofun) fun precedes sound => ?_
  have covers := sound.covers_kept precedes
  exact { covers with lists := covers.lists.set ref (admits.kept precedes) }

theorem yields_setTable (ref : Ref) {table : Table Value Value} (fits : stage.FitsTable table) :
    stage.Yields (setTable ref table) fun _ _ => True := by
  refine yields_modifyStore (stage.store.spares_withTable table ?_) fun precedes sound => ?_
  · intro value of_value is_tuple
    cases value <;> simp [Value.table?, Value.kind] at of_value is_tuple
  · have covers := sound.covers_kept precedes
    exact { covers with tables := covers.tables.set ref (fits.kept sound precedes) }

end Stage
end ObjectModel
