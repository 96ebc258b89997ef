import ObjectModel.Proofs.Effect.Routine

/-!
# Effects that agree but for reports

Two endings agree if they leave the same world, with the same result or with two faults of which
both or neither are the end of a sequence, and both or neither say that the computation does not
end. Effects agree if their endings do in every world. Sequences of effects keep that, and so do
loops, which look at a fault for nothing but the end of a sequence. A routine therefore agrees with
itself under all configurations.
-/

namespace ObjectModel

open Effect

variable {α β : Type}

/-- Two endings that differ in the report of a failure at most. -/
inductive AgreeButReport : Except Fault α × World → Except Fault α × World → Prop
  | result (result : α) (later : World) : AgreeButReport (.ok result, later) (.ok result, later)
  | failure {fault other : Fault} (same_signal : fault.isEndOfSequence = other.isEndOfSequence)
      (same_end : fault = .endless ↔ other = .endless) (later : World) :
      AgreeButReport (.error fault, later) (.error other, later)

theorem AgreeButReport.refl (ending : Except Fault α × World) : AgreeButReport ending ending := by
  obtain ⟨_ | _, later⟩ := ending
  · exact .failure rfl .rfl later
  · exact .result _ later

theorem AgreeButReport.symm {ending other : Except Fault α × World}
    (agree : AgreeButReport ending other) : AgreeButReport other ending := by
  cases agree with
  | result result later => exact .result result later
  | failure same_signal same_end later => exact .failure same_signal.symm same_end.symm later

theorem AgreeButReport.endless_iff {ending other : Except Fault α × World}
    (agree : AgreeButReport ending other) : Endless ending ↔ Endless other := by
  cases agree with
  | result result later => exact Iff.rfl
  | failure same_signal same_end later =>
      rw [endless_error_iff, endless_error_iff]
      exact same_end

theorem AgreeButReport.world_eq {ending other : Except Fault α × World}
    (agree : AgreeButReport ending other) : ending.2 = other.2 := by
  cases agree <;> rfl

theorem outcome_nextItemBy (next : Value → Effect Value) (iterator : Value) (world : World) :
    outcome (nextItemBy next iterator) world =
      match outcome (next iterator) world with
      | (.ok item, later) => (.ok (some item), later)
      | (.error fault, later) =>
          (if fault.isEndOfSequence then .ok none else .error fault, later) := by
  rw [nextItemBy, outcome_tryCatch, outcome_bind]
  obtain ⟨fault | item, later⟩ := outcome (next iterator) world
  · dsimp only
    cases fault.isEndOfSequence <;> rfl
  · rfl

namespace Effect

/-- Two effects whose endings differ in the report of a failure at most. -/
def Agree (effect other : Effect α) : Prop :=
  ∀ world, AgreeButReport (outcome effect world) (outcome other world)

/-- An effect that never fails with the end of a sequence. -/
def NeverSignals (effect : Effect α) : Prop :=
  ∀ world, NoSignal (outcome effect world).1

theorem Agree.refl (effect : Effect α) : Agree effect effect :=
  fun _ => .refl _

theorem Agree.bind {effect other : Effect α} {next after : α → Effect β}
    (first : Agree effect other) (rest : ∀ result, Agree (next result) (after result)) :
    Agree (effect >>= next) (other >>= after) := by
  intro world
  have agree := first world
  rw [outcome_bind, outcome_bind]
  generalize outcome effect world = ending at agree ⊢
  generalize outcome other world = ending' at agree ⊢
  cases agree with
  | result result later => exact rest result later
  | failure same_signal same_end later => exact .failure same_signal same_end later

theorem Agree.nextItem {next other : Value → Effect Value} {iterator : Value}
    (step : Agree (next iterator) (other iterator)) :
    Agree (nextItemBy next iterator) (nextItemBy other iterator) := by
  intro world
  have agree := step world
  rw [outcome_nextItemBy, outcome_nextItemBy]
  generalize outcome (next iterator) world = ending at agree ⊢
  generalize outcome (other iterator) world = ending' at agree ⊢
  cases agree with
  | result item later => exact .result (some item) later
  | @failure fault cause same_signal same_end later =>
      dsimp only
      rw [← same_signal]
      cases ended : fault.isEndOfSequence with
      | true => exact .result none later
      | false => exact .failure same_signal same_end later

/-- The last turns of two loops agree if the turns do. -/
theorem LoopsTo.exists_agreeing {σ : Type} {turn after : σ → Effect (σ ⊕ α)} {state : σ}
    {world : World} {ending : Except Fault α × World} (loops : LoopsTo turn state world ending)
    (turns : ∀ state, Agree (turn state) (after state)) :
    ∃ other, LoopsTo after state world other ∧ AgreeButReport ending other := by
  induction loops with
  | @result state world later result comes =>
      have agree := turns state world
      rw [comes] at agree
      generalize reached : outcome (after state) world = other at agree
      cases agree
      exact ⟨_, .result reached, .refl _⟩
  | @fault state world later fault fails =>
      have agree := turns state world
      rw [fails] at agree
      generalize reached : outcome (after state) world = other at agree
      cases agree with
      | failure same_signal same_end =>
          exact ⟨_, .fault reached, .failure same_signal same_end later⟩
  | @again state next world middle ending continues rest induction =>
      have agree := turns state world
      rw [continues] at agree
      generalize reached : outcome (after state) world = other at agree
      cases agree
      obtain ⟨other, loops, agrees⟩ := induction
      exact ⟨other, .again reached loops, agrees⟩

theorem Agree.loop {σ : Type} {turn after : σ → Effect (σ ⊕ α)}
    (turns : ∀ state, Agree (turn state) (after state)) (state : σ) :
    Agree (loop turn state) (loop after state) := by
  intro world
  rcases loopsTo_or_endless turn state world with loops | ⟨never, endless⟩
  · obtain ⟨other, other_loops, agree⟩ := loops.exists_agreeing turns
    rwa [other_loops.outcome_loop]
  · have other_never (ending : Except Fault α × World) : ¬LoopsTo after state world ending := by
      intro loops
      obtain ⟨other, other_loops, -⟩ :=
        loops.exists_agreeing fun state world => (turns state world).symm
      exact never other other_loops
    rw [endless, outcome_loop_of_not_loopsTo other_never]
    exact .refl _

theorem Agree.unbounded {attempts others : Nat → Effect α}
    (each : ∀ depth, Agree (attempts depth) (others depth)) :
    Agree (unbounded attempts) (unbounded others) := by
  intro world
  have same_end (depth : Nat) := (each depth world).endless_iff
  rcases firstToEnd_or_endless attempts world with ⟨depth, first, same⟩ | ⟨all, endless⟩
  · have other_first : FirstToEnd others world depth :=
      { ends := fun ends => first.ends ((same_end depth).mpr ends)
        before := fun less below => (same_end less).mp (first.before less below) }
    rw [same, other_first.outcome_unbounded]
    exact each depth world
  · rw [endless, outcome_unbounded_of_endless fun depth => (same_end depth).mp (all depth)]
    exact .refl _

theorem NeverSignals.bind {effect : Effect α} {next : α → Effect β} (first : NeverSignals effect)
    (rest : ∀ result, NeverSignals (next result)) : NeverSignals (effect >>= next) := by
  intro world
  have first_proper := first world
  rw [outcome_bind]
  generalize outcome effect world = ending at first_proper ⊢
  obtain ⟨fault | result, later⟩ := ending
  · exact noSignal_error (first_proper fault rfl)
  · exact rest result later

theorem neverSignals_nextItemBy (next : Value → Effect Value) (iterator : Value) :
    NeverSignals (nextItemBy next iterator) := by
  intro world
  rw [outcome_nextItemBy]
  obtain ⟨fault | item, later⟩ := outcome (next iterator) world
  · dsimp only
    cases ended : fault.isEndOfSequence
    · exact noSignal_error ended
    · exact noSignal_ok none
  · exact noSignal_ok _

theorem NeverSignals.loop {σ : Type} {turn : σ → Effect (σ ⊕ α)}
    (turns : ∀ state, NeverSignals (turn state)) (state : σ) : NeverSignals (loop turn state) := by
  intro world
  rcases loopsTo_or_endless turn state world with loops | ⟨-, endless⟩
  · generalize outcome (Effect.loop turn state) world = ending at loops ⊢
    induction loops with
    | result comes => exact noSignal_ok _
    | @fault state world later fault fails =>
        exact noSignal_error (turns state world fault (congrArg Prod.fst fails))
    | again continues rest induction => exact induction
  · rw [endless]
    exact noSignal_error rfl

theorem noSignal_unbounded {attempts : Nat → Effect α} {world : World}
    (each : ∀ depth, NoSignal (outcome (attempts depth) world).1) :
    NoSignal (outcome (unbounded attempts) world).1 := by
  rcases firstToEnd_or_endless attempts world with ⟨depth, -, same⟩ | ⟨-, endless⟩
  · rw [same]
    exact each depth
  · rw [endless]
    exact noSignal_error rfl

theorem neverSignals_readLine (prompt : String) : NeverSignals (readLine prompt) := by
  rintro ⟨store, script, shown⟩
  cases script with
  | nil => exact noSignal_error rfl
  | cons line script => exact noSignal_ok _

end Effect

namespace Routine

variable {admitted : (α : Type) → (Config → Effect α) → Prop} {spared : Value → Prop}
  {signals : Bool} {effect : Config → Effect α}

/-- Whatever is admitted, the routines that do not signal consume each end of a sequence. -/
theorem neverSignals (routine : Routine admitted spared false effect) (config : Config) :
    NeverSignals (effect config) := by
  generalize silent : false = signals at routine
  induction routine with
  | pure result => exact fun _ => noSignal_ok result
  | fail fault proper alike => exact fun _ => noSignal_error (proper config)
  | signal fault => contradiction
  | getStore => exact fun world => noSignal_ok world.store
  | primitive effect evolves proper => exact proper silent.symm
  | readLine prompt => exact neverSignals_readLine prompt
  | bind first rest first_proper rest_proper =>
      exact (first_proper silent).bind fun result => rest_proper result silent
  | nextItem step => exact neverSignals_nextItemBy _ _
  | report attempt fault proper endless_iff induction =>
      intro world
      have attempt_proper := induction rfl world
      rw [outcome_tryCatch]
      generalize outcome _ world = ending at attempt_proper ⊢
      obtain ⟨cause | result, later⟩ := ending
      · exact noSignal_error (proper config cause (attempt_proper cause rfl))
      · exact noSignal_ok result
  | loop turns state turns_proper => exact .loop (fun state => turns_proper state silent) state
  | unbounded each each_proper =>
      exact fun world => noSignal_unbounded fun depth => each_proper depth silent world
  | foreign is_admitted => contradiction

/-- A routine agrees with itself under all configurations, if what it admits does. -/
theorem agree (routine : Routine admitted spared signals effect)
    (admits : ∀ α effect, admitted α effect → ∀ config other, Agree (effect config) (effect other))
    (config other : Config) : Agree (effect config) (effect other) := by
  induction routine with
  | fail fault proper alike =>
      exact fun world => .failure ((proper config).trans (proper other).symm)
        ⟨alike config other, alike other config⟩ world
  | bind first rest first_agrees rest_agree => exact first_agrees.bind rest_agree
  | nextItem step step_agrees => exact step_agrees.nextItem
  | report attempt fault proper endless_iff induction =>
      intro world
      have attempt_proper := attempt.neverSignals config world
      have attempt_proper' := attempt.neverSignals other world
      have agree := induction world
      rw [outcome_tryCatch, outcome_tryCatch]
      generalize outcome _ world = ending at attempt_proper agree ⊢
      generalize outcome _ world = ending' at attempt_proper' agree ⊢
      cases agree with
      | result result later => exact .result result later
      | failure same_signal same_end later =>
          have proper_left := proper config _ (attempt_proper _ rfl)
          have proper_right := proper other _ (attempt_proper' _ rfl)
          refine .failure (proper_left.trans proper_right.symm) ?_ later
          exact (endless_iff config _).trans (same_end.trans (endless_iff other _).symm)
  | loop turns state turns_agree => exact .loop turns_agree state
  | unbounded each each_agree => exact .unbounded each_agree
  | foreign is_admitted => exact admits _ _ is_admitted config other
  | _ => exact .refl _

end Routine
end ObjectModel
