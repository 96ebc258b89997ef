import ObjectModel.Proofs.Effect.Call

/-!
# What effects do to the store

A preorder of stores can say what may happen to a store. Effects keep to it, whether they succeed or
fail, if their parts do. So a routine keeps to a preorder that allows all courses of changes which
spare certain values, if what is foreign to it does.
-/

namespace ObjectModel

open Effect

variable {α β : Type} {related : Store → Store → Prop} {spared : Value → Prop}

/-- A preorder of stores that allows the courses of changes which spare certain values. -/
structure AllowsChanges (spared : Value → Prop) (related : Store → Store → Prop) : Prop where
  refl : ∀ store, related store store
  trans : ∀ {store later last}, related store later → related later last → related store last
  course : ∀ {store later : Store}, store.Evolves (Store.Conserves spared) later →
    related store later

namespace Effect

/-- An effect relates the store before it to the one after it. -/
def Relates (related : Store → Store → Prop) (effect : Effect α) : Prop :=
  ∀ world : World, related world.store (outcome effect world).2.store

theorem Relates.bind {effect : Effect α} {next : α → Effect β}
    (trans : ∀ {store later last}, related store later → related later last → related store last)
    (first : Relates related effect) (rest : ∀ result, Relates related (next result)) :
    Relates related (effect >>= next) := by
  intro world
  have first_relates := first world
  rw [outcome_bind]
  generalize outcome effect world = ending at first_relates ⊢
  obtain ⟨fault | result, later⟩ := ending
  · exact first_relates
  · exact trans first_relates (rest result later)

theorem Relates.tryCatch {effect : Effect α} {handler : Fault → Effect α}
    (trans : ∀ {store later last}, related store later → related later last → related store last)
    (attempt : Relates related effect) (handles : ∀ fault, Relates related (handler fault)) :
    Relates related (tryCatch effect handler) := by
  intro world
  have attempt_relates := attempt world
  rw [outcome_tryCatch]
  generalize outcome effect world = ending at attempt_relates ⊢
  obtain ⟨fault | result, later⟩ := ending
  · exact trans attempt_relates (handles fault later)
  · exact attempt_relates

theorem Relates.nextItem {next : Value → Effect Value} {iterator : Value}
    (allows : AllowsChanges spared related) (step : Relates related (next iterator)) :
    Relates related (nextItemBy next iterator) := by
  refine .tryCatch allows.trans
    (.bind allows.trans step fun item world => allows.refl world.store) fun fault => ?_
  split
  · exact fun world => allows.refl world.store
  · exact fun world => allows.refl world.store

/-- A loop that does not end leaves the store as it is, and else each turn keeps to the preorder. -/
theorem Relates.loop {σ : Type} {turn : σ → Effect (σ ⊕ α)} (allows : AllowsChanges spared related)
    (turns : ∀ state, Relates related (turn state)) (state : σ) :
    Relates related (loop turn state) := by
  intro world
  rcases loopsTo_or_endless turn state world with loops | ⟨-, endless⟩
  · generalize outcome (Effect.loop turn state) world = ending at loops ⊢
    induction loops with
    | @result state world later result comes =>
        have turn_relates := turns state world
        rwa [comes] at turn_relates
    | @fault state world later fault fails =>
        have turn_relates := turns state world
        rwa [fails] at turn_relates
    | @again state after world middle ending continues rest induction =>
        have turn_relates := turns state world
        rw [continues] at turn_relates
        exact allows.trans turn_relates induction
  · rw [endless]
    exact allows.refl world.store

theorem Relates.unbounded {attempts : Nat → Effect α} (allows : AllowsChanges spared related)
    (each : ∀ depth, Relates related (attempts depth)) : Relates related (unbounded attempts) := by
  intro world
  rcases firstToEnd_or_endless attempts world with ⟨depth, -, same⟩ | ⟨-, endless⟩
  · rw [same]
    exact each depth world
  · rw [endless]
    exact allows.refl world.store

theorem relates_readLine (refl : ∀ store, related store store) (prompt : String) :
    Relates related (readLine prompt) := by
  rintro ⟨store, script, shown⟩
  cases script <;> exact refl store

end Effect

/-- A routine keeps to a preorder if what is foreign to it does. -/
theorem Routine.relates {config : Config} {signals : Bool} {effect : Config → Effect α}
    (allows : AllowsChanges spared related)
    (routine : Routine (fun _ effect => Relates related (effect config)) spared signals effect) :
    Relates related (effect config) := by
  induction routine with
  | pure result => exact fun world => allows.refl world.store
  | fail fault proper alike => exact fun world => allows.refl world.store
  | signal fault => exact fun world => allows.refl world.store
  | getStore => exact fun world => allows.refl world.store
  | primitive effect evolves proper => exact fun world => allows.course (evolves world)
  | readLine prompt => exact relates_readLine allows.refl prompt
  | bind first rest first_relates rest_relates =>
      exact .bind allows.trans first_relates rest_relates
  | nextItem step step_relates => exact .nextItem allows step_relates
  | report attempt fault proper endless_iff attempt_relates =>
      exact .tryCatch allows.trans attempt_relates fun cause world => allows.refl world.store
  | loop turns state turns_relate => exact .loop allows turns_relate state
  | unbounded each each_relates => exact .unbounded allows each_relates
  | foreign keeps => exact keeps

end ObjectModel
