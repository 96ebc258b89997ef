import ObjectModel.Builtin
import ObjectModel.Proofs.Effect.Unbounded
import ObjectModel.Proofs.Store.Insertion
import ObjectModel.Proofs.Store.Layers

/-!
# Effects that settle

An effect settles if it does not disturb iteration, ends, and yields what is expected of it.
Sequences of effects settle if their parts do. New objects have no more layers than what they hold.
-/

namespace ObjectModel

open Effect

variable {α β : Type}

/-- In a world, an effect does not disturb iteration, and it ends. Its result, if it has one, is as
expected in the store that it leaves. -/
structure Settles (world : World) (effect : Effect α) (expected : Store → α → Prop) : Prop where
  undisturbed : world.store.Undisturbed (outcome effect world).2.store
  ends : ¬Endless (outcome effect world)
  meets : ∀ result, (outcome effect world).1 = .ok result →
    expected (outcome effect world).2.store result

variable {world later : World} {effect : Effect α} {expected weaker : Store → α → Prop}

theorem settles_of_ok {result : α} (ends : outcome effect world = (.ok result, later))
    (undisturbed : world.store.Undisturbed later.store) (meets : expected later.store result) :
    Settles world effect expected := by
  constructor <;> rw [ends]
  · exact undisturbed
  · exact nofun
  · rintro _ ⟨⟩
    exact meets

theorem settles_of_error {fault : Fault} (ends : outcome effect world = (.error fault, later))
    (undisturbed : world.store.Undisturbed later.store) (proper : fault ≠ .endless) :
    Settles world effect expected := by
  constructor <;> rw [ends]
  · exact undisturbed
  · exact fun same => proper (Except.error.inj same)
  · exact nofun

theorem settles_pure {result : α} (meets : expected world.store result) :
    Settles world (pure result) expected :=
  settles_of_ok rfl (.refl world.store) meets

theorem settles_throw {fault : Fault} (proper : fault ≠ .endless) :
    Settles world (throw fault) expected :=
  settles_of_error rfl (.refl world.store) proper

theorem Settles.mono (settles : Settles world effect expected)
    (weaken : ∀ result later, world.store.Undisturbed later → expected later result →
      weaker later result) : Settles world effect weaker where
  undisturbed := settles.undisturbed
  ends := settles.ends
  meets result ends := weaken result _ settles.undisturbed (settles.meets result ends)

theorem Settles.bind {next : α → Effect β} {wanted : Store → β → Prop}
    (first : Settles world effect expected)
    (rest : ∀ result later, world.store.Undisturbed later.store → expected later.store result →
      Settles later (next result) wanted) : Settles world (effect >>= next) wanted := by
  obtain ⟨undisturbed, proper, meets⟩ := first
  have sequence := outcome_bind effect next world
  generalize outcome effect world = ending at undisturbed proper meets sequence
  obtain ⟨fault | result, between⟩ := ending
  · exact settles_of_error sequence undisturbed fun same => proper (congrArg Except.error same)
  · obtain ⟨follows, proper_too, meets_too⟩ := rest result between undisturbed (meets result rfl)
    constructor <;> rw [sequence]
    · exact undisturbed.trans follows
    · exact proper_too
    · exact meets_too

theorem settles_getStore_bind {next : Store → Effect α}
    (rest : Settles world (next world.store) expected) :
    Settles world (getStore >>= next) expected := by
  have same := outcome_bind_of_ok (outcome_getStore world) next
  obtain ⟨undisturbed, proper, meets⟩ := rest
  constructor <;> rw [same] <;> assumption

theorem settles_ofExcept_bind {result : Except Fault α} {next : α → Effect β}
    {wanted : Store → β → Prop} (proper : result ≠ .error .endless)
    (rest : ∀ value, result = .ok value → Settles world (next value) wanted) :
    Settles world (ofExcept result >>= next) wanted := by
  cases result with
  | ok value => exact rest value rfl
  | error fault => exact settles_throw fun same => proper (congrArg Except.error same)

theorem settles_read_bind {query : Store → Except Fault α} {next : α → Effect β}
    {wanted : Store → β → Prop} (proper : query world.store ≠ .error .endless)
    (rest : ∀ result, query world.store = .ok result → Settles world (next result) wanted) :
    Settles world (read query >>= next) wanted := by
  rw [Effect.read, bind_assoc]
  exact settles_getStore_bind (settles_ofExcept_bind proper rest)

theorem Settles.tryCatch {handler : Fault → Effect α} (attempt : Settles world effect expected)
    (handles : ∀ fault later, fault ≠ .endless → Settles later (handler fault) expected) :
    Settles world (tryCatch effect handler) expected := by
  obtain ⟨undisturbed, proper, meets⟩ := attempt
  have sequence := outcome_tryCatch effect handler world
  generalize outcome effect world = ending at undisturbed proper meets sequence
  obtain ⟨fault | result, between⟩ := ending
  · obtain ⟨follows, proper_too, meets_too⟩ :=
      handles fault between fun same => proper (congrArg Except.error same)
    constructor <;> rw [sequence]
    · exact undisturbed.trans follows
    · exact proper_too
    · exact meets_too
  · exact settles_of_ok sequence undisturbed (meets result rfl)

/-- A loop settles if its turn does, and if it goes on so that the rest of it settles. -/
theorem Settles.loop {σ : Type} {turn : σ → Effect (σ ⊕ α)} {state : σ}
    (onward : Store → σ → Prop)
    (first : Settles world (turn state) fun later => Sum.elim (onward later) (expected later))
    (rest : ∀ after later, world.store.Undisturbed later.store → onward later.store after →
      Settles later (Effect.loop turn after) expected) :
    Settles world (Effect.loop turn state) expected := by
  obtain ⟨undisturbed, ends, meets⟩ := first
  obtain ⟨⟨fault | after | result, later⟩, turns⟩ :
      ∃ ending, outcome (turn state) world = ending := ⟨_, rfl⟩
  all_goals rw [turns] at undisturbed ends meets
  · exact settles_of_error (LoopsTo.fault turns).outcome_loop undisturbed
      (mt endless_error_iff.mpr ends)
  · obtain ⟨follows, rest_ends, rest_meets⟩ := rest after later undisturbed (meets _ rfl)
    have same : outcome (Effect.loop turn state) world =
        outcome (Effect.loop turn after) later := by
      rcases loopsTo_or_endless turn after later with loops | ⟨-, endless⟩
      · exact (LoopsTo.again turns loops).outcome_loop
      · rw [endless] at rest_ends
        exact absurd (endless_error later) rest_ends
    constructor <;> rw [same]
    · exact undisturbed.trans follows
    · exact rest_ends
    · exact rest_meets
  · exact settles_of_ok (LoopsTo.result turns).outcome_loop undisturbed (meets _ rfl)

/-- The item of a step, if there is one, is as expected of the step. -/
theorem Settles.nextItem {next : Value → Effect Value} {iterator : Value}
    {expected : Store → Value → Prop} (step : Settles world (next iterator) expected) :
    Settles world (nextItemBy next iterator)
      fun later found => ∀ item, found = some item → expected later item := by
  refine Settles.tryCatch (step.bind fun item later _ meets => settles_pure ?_)
    fun fault later proper => ?_
  · rintro _ ⟨⟩
    exact meets
  · split
    · exact settles_pure nofun
    · exact settles_throw proper

/-! ## New objects -/

section Additions

variable {growth : Value → Nat → Nat} {layers : Nat} {items : List Value}

theorem settles_newBytearray (bytes : List UInt8) :
    Settles world (newBytearray bytes) fun later => later.Layered growth layers := by
  refine settles_of_ok rfl (Store.undisturbed_of_mappings_eq (world.store.spares_addBuffer bytes)
    world.store.advances_withContents rfl) (Store.layered_of_no_links ?_ nofun rfl)
  exact decide_eq_true (world.store.buffers.index_next_lt_size_push bytes)

theorem settles_newList (layered : ∀ item ∈ items, world.store.Layered growth layers item) :
    Settles world (newList items) fun later => later.Layered growth layers := by
  have undisturbed := Store.undisturbed_of_mappings_eq (world.store.spares_addList items)
    world.store.advances_withContents rfl
  refine settles_of_ok rfl undisturbed (.plain nofun ?_ fun link member => ?_)
  · exact decide_eq_true (world.store.lists.index_next_lt_size_push items)
  · rw [Store.links, Store.list, Pool.get_push_next] at member
    exact (layered link member).kept undisturbed

/-- A new table has no more layers than its keys. -/
theorem Store.layered_of_addTable {store later : Store} {table : Table Value Value} {value : Value}
    (extended : later = { store with tables := store.tables.push table })
    (layered : ∀ key ∈ table.keys, store.Layered growth layers key)
    (of_value : value.table? = some store.tables.next) : later.Layered growth layers value := by
  have undisturbed : store.Undisturbed later := by
    rw [extended]
    exact undisturbed_of_mappings_eq (store.spares_addTable table) store.advances_withContents rfl
  have same_table : later.table store.tables.next = table := by
    rw [extended]
    exact Pool.get_push_next _ _
  have known : store.tables.next.index < later.tables.size := by
    rw [extended]
    exact store.tables.index_next_lt_size_push table
  have keys_layered : ∀ key ∈ later.elements store.tables.next,
      later.Layered growth layers key := by
    intro key member
    rw [elements, same_table] at member
    exact (layered key member).kept undisturbed
  cases value with
  | set | frozenset | dict =>
      obtain rfl := Option.some.inj of_value
      exact .plain (fun _ same => by cases same) (decide_eq_true known) keys_layered
  | _ => contradiction

theorem settles_newTable {table : Table Value Value}
    (layered : ∀ key ∈ table.keys, world.store.Layered growth layers key) :
    Settles world (newTable table) fun later ref =>
      ∀ value, value.table? = some ref → later.Layered growth layers value :=
  settles_of_ok rfl (Store.undisturbed_of_mappings_eq (world.store.spares_addTable table)
    world.store.advances_withContents rfl) fun _ of_value =>
      Store.layered_of_addTable rfl layered of_value

theorem settles_newSet (sort : SetKind)
    (layered : ∀ item ∈ items, world.store.Layered growth layers item) :
    Settles world (newSet sort items) fun later => later.Layered growth layers := by
  refine settles_read_bind (Store.tableOfElements_ne_endless layered) fun table makes => ?_
  refine (settles_newTable fun key member =>
    layered key (Store.keys_subset_of_tableOfElements makes member)).bind
      fun ref later _ layered_later => settles_pure ?_
  exact layered_later _ (sort.table?_toValue ref)

theorem settles_dictOfHost (fields : List (String × Value)) :
    Settles world (dictOfHost fields) fun later => later.Layered growth layers := by
  have named : ∀ pair ∈ fields.map fun field => (Value.str field.1, field.2),
      world.store.Layered growth layers pair.1 := by
    intro pair member
    obtain ⟨field, -, rfl⟩ := List.mem_map.mp member
    exact Store.layered_of_no_links rfl nofun rfl
  refine settles_read_bind (Store.tableOfPairs_ne_endless named) fun table makes => ?_
  refine (settles_newTable fun key member => ?_).bind
    fun ref later _ layered_later => settles_pure (layered_later (.dict ref) rfl)
  obtain ⟨pair, is_pair, rfl⟩ := List.mem_map.mp (Store.keys_subset_of_tableOfPairs makes member)
  exact named pair is_pair

end Additions

theorem settles_readLine {growth : Value → Nat → Nat} {layers : Nat} (prompt : String) :
    Settles world (readLine prompt) fun later => later.Layered growth layers := by
  obtain ⟨store, script, shown⟩ := world
  cases script with
  | nil => exact settles_of_error rfl (.refl store) nofun
  | cons line script =>
      exact settles_of_ok rfl (.refl store) (Store.layered_of_no_links rfl nofun rfl)

end ObjectModel
