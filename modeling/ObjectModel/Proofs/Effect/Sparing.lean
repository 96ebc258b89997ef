import ObjectModel.Proofs.Effect.Relation

/-!
# What effects spare

An effect spares a set of values if it changes none of their objects, whether it succeeds or fails.
Sequences of effects and loops spare what their parts do, and so a routine spares what all its
changes spare. The functions of the host are foreign to routines, and are assumed to spare what the
step of iterators that they get spares.
-/

namespace ObjectModel

open Effect

variable {α β : Type} {spared : Value → Prop}

namespace Effect

/-- An effect leaves the objects of certain values as they are. -/
def Spares (spared : Value → Prop) (effect : Effect α) : Prop :=
  ∀ world : World, world.store.Spares spared (outcome effect world).2.store

theorem spares_pure (result : α) : Spares spared (pure result : Effect α) :=
  fun world => .refl world.store

theorem spares_throw (fault : Fault) : Spares spared (throw fault : Effect α) :=
  fun world => .refl world.store

theorem spares_getStore : Spares spared getStore :=
  fun world => .refl world.store

theorem spares_ofExcept (result : Except Fault α) : Spares spared (ofExcept result) := by
  intro world
  rw [outcome_ofExcept]
  exact .refl world.store

theorem spares_read (query : Store → Except Fault α) : Spares spared (read query) := by
  intro world
  rw [outcome_read]
  exact .refl world.store

theorem Spares.bind {effect : Effect α} {next : α → Effect β} (first : Spares spared effect)
    (rest : ∀ result, Spares spared (next result)) : Spares spared (effect >>= next) :=
  Relates.bind .trans first rest

end Effect

/-- The effects that spare certain values under a configuration. -/
def SparingAt (config : Config) (spared : Value → Prop) (α : Type)
    (effect : Config → Effect α) : Prop :=
  Effect.Spares spared (effect config)

theorem allowsChanges_spares (spared : Value → Prop) :
    AllowsChanges spared (Store.Spares spared) where
  refl := .refl
  trans := .trans
  course evolves := (evolves.mono fun conserves => conserves.spares).spares

/-- A routine spares what its changes spare, if what is foreign to it does. -/
theorem Routine.spares {config : Config} {signals : Bool} {effect : Config → Effect α}
    (routine : Routine (SparingAt config spared) spared signals effect) :
    Effect.Spares spared (effect config) :=
  Routine.relates (allowsChanges_spares spared) routine

theorem spares_binary (op : BinaryOperator) (left right : Value) :
    Effect.Spares spared (left.binary op right) :=
  have routine : Routine (SparingAt {} spared) spared true fun _ => left.binary op right :=
    routine_binary op left right
  routine.spares

/-! ## Functions of the host -/

/-- The functions of the host spare certain values if the step of iterators that they get does. -/
def HostsSpare (spared : Value → Prop) (function? : String → Option HostFunction) : Prop :=
  ∀ name host, function? name = some host → ∀ next : Value → Effect Value,
    (∀ iterator, Effect.Spares spared (next iterator)) →
      ∀ arguments, Effect.Spares spared (host next arguments)

namespace HostsSpare

variable {context : Context}

theorem routines (hosts : HostsSpare spared context.function?) :
    HostRoutines (SparingAt context.config spared) spared context.function? :=
  fun name host found _ steps arguments =>
    .foreign (hosts name host found _ (fun iterator => (steps iterator).spares) arguments)

theorem spares_next (hosts : HostsSpare spared context.function?) (iterator : Value) :
    Effect.Spares spared (iterator.next context) :=
  (routine_next hosts.routines iterator).spares

theorem spares_collect (hosts : HostsSpare spared context.function?) (source : Value) :
    Effect.Spares spared (source.collect context) :=
  have collects : Routine (SparingAt context.config spared) spared true fun config =>
      source.collect { config, function? := context.function? } :=
    routine_collect hosts.routines source
  collects.spares

end HostsSpare

end ObjectModel
