import ObjectModel.Proofs.Effect.Settling
import ObjectModel.Proofs.Iterator.Draining

/-!
# Steps that settle

The functions of the object model settle if steps of iterators do. If so do the functions of the
host, and add no more layers to what they get than their growth says, no step is stuck: the source
of a mapping has fewer layers than the mapping itself, and so have the elements that its function is
called with.
-/

namespace ObjectModel

open Effect

variable {growth : Value → Nat → Nat} {layers : Nat} {world : World} {source iterator : Value}

/-- An iterator has yielded an item with no more layers, and has one element less left. -/
structure Store.Takes (growth : Value → Nat → Nat) (layers : Nat) (store : Store) (iterator : Value)
    (later : Store) (item : Value) : Prop where
  layered : later.Layered growth layers item
  fewer : ∀ count, store.AtMost count iterator →
    ∃ rest, count = rest + 1 ∧ later.AtMost rest iterator

/-- Steps of iterators with so many layers settle. -/
def StepSettles (growth : Value → Nat → Nat) (layers : Nat) (next : Value → Effect Value) : Prop :=
  ∀ (world : World) (iterator : Value), world.store.Layered growth layers iterator →
    Settles world (next iterator) (world.store.Takes growth layers iterator)

/-- The functions of the host settle if the step of iterators that they get does, and what they
return has no more layers than their growth says. -/
def HostsSettle (growth : Value → Nat → Nat) (function? : String → Option HostFunction) : Prop :=
  ∀ name host, function? name = some host →
    ∀ (next : Value → Effect Value) (layers : Nat), StepSettles growth layers next →
      ∀ (world : World) (arguments : List Value),
        (∀ argument ∈ arguments, world.store.Layered growth layers argument) →
          Settles world (host next arguments) fun later =>
            later.Layered growth (growth (.builtin name) layers)

theorem hostsSettle_default : HostsSettle growth (fun _ => none) :=
  fun _ _ found => nomatch found

/-! ## Requests for iterators -/

/-- A request for an iterator settles for one over the source. -/
theorem settles_iter (known : world.store.knows source) :
    Settles world source.iter fun later iterator => later.IteratesOver source iterator := by
  have opens := opens_iter world source
  obtain ⟨⟨fault | iterator, opened⟩, asks⟩ :
      ∃ ending, outcome source.iter world = ending := ⟨_, rfl⟩
  all_goals rw [asks] at opens
  · cases opens
    exact settles_of_error asks (.refl world.store) nofun
  · have undisturbed : world.store.Undisturbed opened.store := opens.evolves.undisturbed
    exact settles_of_ok asks undisturbed (opens.iteratesOver (undisturbed.spares.knows known))

/-! ## Loops -/

section Loops

variable {σ : Type} {next : Value → Effect Value} {step : σ → Value → Effect σ}
  {holds : Store → σ → Prop} {state initial : σ}

/-- A loop over what has only so many elements left ends, for each turn takes one of these. What
holds of the state holds at the end if each step keeps it. -/
theorem settles_foldLoop (steps : StepSettles growth layers next)
    (combines : ∀ (world : World) state item, holds world.store state →
      world.store.Layered growth layers item → Settles world (step state item) holds)
    (stays : ∀ (store later : Store) state, store.Undisturbed later → holds store state →
      holds later state)
    (layered : world.store.Layered growth layers iterator) {count : Nat}
    (at_most : world.store.AtMost count iterator) (begins : holds world.store state) :
    Settles world (foldLoop next iterator step state) holds := by
  induction count using Nat.strong_induction_on generalizing world state with
  | _ count induction =>
      let onward (later : Store) (after : σ) : Prop := holds later after ∧
        ∃ fewer < count, later.Layered growth layers iterator ∧ later.AtMost fewer iterator
      refine Settles.loop onward ?_ fun after later _ going => ?_
      · refine (steps world iterator layered).nextItem.bind fun found middle undisturbed takes => ?_
        have holds_middle := stays _ _ state undisturbed begins
        cases found with
        | none => exact settles_pure holds_middle
        | some item =>
            obtain ⟨item_layered, fewer⟩ := takes item rfl
            obtain ⟨rest, rfl, at_most_rest⟩ := fewer _ at_most
            have layered_middle := layered.kept undisturbed
            exact (combines middle state item holds_middle item_layered).bind
              fun after later follows holds_after => settles_pure ⟨holds_after, rest,
                Nat.lt_succ_self rest, layered_middle.kept follows,
                at_most_rest.kept layered_middle follows⟩
      · obtain ⟨holds_after, fewer, less, layered_later, at_most_later⟩ := going
        exact induction fewer less layered_later at_most_later holds_after

theorem settles_foldItems (steps : StepSettles growth layers next)
    (combines : ∀ (world : World) state item, holds world.store state →
      world.store.Layered growth layers item → Settles world (step state item) holds)
    (stays : ∀ (store later : Store) state, store.Undisturbed later → holds store state →
      holds later state)
    (layered : world.store.Layered growth layers source) (begins : holds world.store initial) :
    Settles world (foldItems next source step initial) holds := by
  refine (settles_iter layered.made.knows).bind fun iterator opened undisturbed goes_over => ?_
  have iterator_layered := (layered.kept undisturbed).of_iteratesOver goes_over
  obtain ⟨count, at_most⟩ := iterator_layered.exists_atMost
  exact settles_foldLoop steps combines stays iterator_layered at_most
    (stays _ _ initial undisturbed begins)

theorem settles_collectItems (steps : StepSettles growth layers next)
    (layered : world.store.Layered growth layers source) :
    Settles world (collectItems next source) fun later items =>
      ∀ item ∈ items, later.Layered growth layers item := by
  have gathers : Settles world (foldItems next source (fun items item => return item :: items) [])
      fun later items => ∀ item ∈ items, later.Layered growth layers item := by
    refine settles_foldItems steps (fun world items item items_layered item_layered =>
      settles_pure ?_) (fun store later items undisturbed items_layered item member => ?_)
      layered nofun
    · exact List.forall_mem_cons.mpr ⟨item_layered, items_layered⟩
    · exact (items_layered item member).kept undisturbed
  exact gathers.bind fun items later _ items_layered => settles_pure fun item member =>
    items_layered item (List.mem_reverse.mp member)

end Loops

/-! ## Functions -/

section Functions

variable {next : Value → Effect Value} {argument : Value}

theorem settles_listOf (steps : StepSettles growth layers next)
    (layered : world.store.Layered growth layers argument) :
    Settles world (listOf next [argument]) fun later => later.Layered growth layers := by
  have collects : Settles world (collectItems next argument >>= newList)
      fun later => later.Layered growth layers :=
    (settles_collectItems steps layered).bind fun _ _ _ => settles_newList
  refine settles_getStore_bind ?_
  cases argument with
  | list | tuple => exact settles_newList layered.item
  | _ => exact collects

theorem settles_setOf (sort : SetKind) (steps : StepSettles growth layers next)
    (layered : world.store.Layered growth layers argument) :
    Settles world (setOf sort next [argument]) fun later => later.Layered growth layers := by
  have collects : Settles world (collectItems next argument >>= newSet sort)
      fun later => later.Layered growth layers :=
    (settles_collectItems steps layered).bind fun _ _ _ => settles_newSet sort
  refine settles_getStore_bind ?_
  cases argument with
  | list | tuple | set | frozenset | str => exact settles_newSet sort layered.item
  | _ => exact collects

/-- A number added to a value is a number, or the addition fails. -/
theorem settles_binary_add {total item : Value} (is_number : total.number?.isSome) :
    Settles world (total.binary .add item) fun _ result => result.number?.isSome := by
  obtain ⟨number, same⟩ := Option.isSome_iff_exists.mp is_number
  have as_scalar : total.binary .add item = binaryScalar .add false total item := by
    cases total <;> first | rfl | contradiction
  rw [as_scalar, binaryScalar, same]
  cases item.number? with
  | some other =>
      refine settles_pure ?_
      cases number.combine .add other <;> rfl
  | none =>
      refine settles_getStore_bind ?_
      cases total <;> first | exact settles_throw nofun | contradiction

theorem settles_sumOf (steps : StepSettles growth layers next)
    (layered : world.store.Layered growth layers argument) :
    Settles world (sumOf next argument (.int 0)) fun later => later.Layered growth layers :=
  have adds : Settles world (sumOf next argument (.int 0)) fun _ result => result.number?.isSome :=
    settles_foldItems steps (fun _ _ _ is_number _ => settles_binary_add is_number)
      (fun _ _ _ _ is_number => is_number) layered rfl
  adds.mono fun _ _ _ is_number => Store.layered_number is_number

/-! A function that is called with one value asks for the arguments first. -/

theorem settles_arguments_bind {α : Type} {expected : Store → α → Prop}
    {arguments : List Value} {asks : Except Fault (List Value)} {rest : List Value → Effect α}
    (same : asks = .ok arguments) (settles : Settles world (rest arguments) expected) :
    Settles world (ofExcept asks >>= rest) expected := by
  rw [same]
  exact settles

theorem layered_str (text : String) : world.store.Layered growth layers (.str text) :=
  Store.layered_of_no_links rfl nofun rfl

theorem settles_runBytearray :
    Settles world (Builtin.runBytearray (.ofList [argument]))
      fun later => later.Layered growth layers := by
  refine settles_arguments_bind rfl (settles_getStore_bind ?_)
  cases world.store.bytes? argument with
  | some bytes => exact settles_newBytearray bytes
  | none => exact settles_throw nofun

theorem settles_runInput :
    Settles world (Builtin.runInput (.ofList [argument]))
      fun later => later.Layered growth layers :=
  settles_arguments_bind rfl (settles_getStore_bind (settles_readLine _))

theorem settles_runIter (layered : world.store.Layered growth layers argument) :
    Settles world (Builtin.runIter (.ofList [argument]))
      fun later => later.Layered growth layers := by
  have asks {world : World} {source : Value}
      (layered : world.store.Layered growth layers source) :
      Settles world source.iter fun later => later.Layered growth layers :=
    (settles_iter layered.made.knows).mono fun _ _ undisturbed goes_over =>
      (layered.kept undisturbed).of_iteratesOver goes_over
  refine settles_arguments_bind rfl ?_
  cases argument with
  | hostObject ref =>
      exact settles_getStore_bind ((settles_dictOfHost _).bind fun _ _ _ => asks)
  | _ => exact asks layered

theorem settles_runLen :
    Settles world (Builtin.runLen (.ofList [argument]))
      fun later => later.Layered growth layers := by
  refine settles_arguments_bind rfl (settles_getStore_bind ?_)
  cases world.store.length? argument with
  | some length => exact settles_pure (Store.layered_number rfl)
  | none => exact settles_throw nofun

theorem settles_runRepr :
    Settles world (Builtin.runRepr (.ofList [argument]))
      fun later => later.Layered growth layers :=
  settles_arguments_bind rfl (settles_getStore_bind (settles_pure (layered_str _)))

theorem settles_runStr :
    Settles world (Builtin.runStr (.ofList [argument]))
      fun later => later.Layered growth layers :=
  settles_arguments_bind rfl (settles_getStore_bind (settles_pure (layered_str _)))

theorem settles_runSum (config : Config) (steps : StepSettles growth layers next)
    (layered : world.store.Layered growth layers argument) :
    Settles world (Builtin.runSum config next (.ofList [argument]))
      fun later => later.Layered growth layers :=
  settles_arguments_bind rfl ((settles_sumOf steps layered).tryCatch fun fault _ proper =>
    settles_throw (mt (fault.reportedBy_eq_endless_iff config.sumReport).mp proper))

/-- A function of the object model settles when it is called with one value. -/
theorem settles_run (config : Config) (steps : StepSettles growth layers next)
    (function : Builtin) (layered : world.store.Layered growth layers argument) :
    Settles world (function.run config next (.ofList [argument]))
      fun later => later.Layered growth layers := by
  cases function with
  | bytearray => exact settles_runBytearray
  | frozenset => exact settles_arguments_bind rfl (settles_setOf .frozen steps layered)
  | input => exact settles_runInput
  | iter => exact settles_runIter layered
  | len => exact settles_runLen
  | list => exact settles_arguments_bind rfl (settles_listOf steps layered)
  | map => exact settles_throw nofun
  | repr => exact settles_runRepr
  | set => exact settles_arguments_bind rfl (settles_setOf .mutable steps layered)
  | str => exact settles_runStr
  | sum => exact settles_runSum config steps layered

end Functions

/-! ## Calls and steps -/

section Calls

variable {context : Context}

theorem settles_callBy (hosts : HostsSettle growth context.function?)
    {next : Value → Effect Value} (steps : StepSettles growth layers next)
    {function item : Value} (layered : world.store.Layered growth layers item) :
    Settles world (callBy context next function (.ofList [item]))
      fun later => later.Layered growth (max layers (growth function layers)) := by
  unfold callBy
  cases function with
  | builtin name =>
      dsimp only
      cases Builtin.ofName? name with
      | some builtin =>
          exact (settles_run context.config steps builtin layered).mono
            fun _ _ _ layered => layered.mono (le_max_left _ _)
      | none =>
          cases found : context.function? name with
          | none => exact settles_throw nofun
          | some host =>
              exact settles_arguments_bind rfl ((hosts name host found next layers steps
                world [item] (List.forall_mem_singleton.mpr layered)).mono
                  fun _ _ _ layered => layered.mono (le_max_right _ _))
  | _ => exact settles_throw nofun

theorem settles_next_cursor {cursor : Value} (is_cursor : cursor.isCursor)
    (layered : world.store.Layered growth layers cursor) :
    Settles world (cursor.next context) fun later => later.Layered growth layers := by
  have steps : outcome (cursor.next context) world = world.step cursor :=
    outcome_next_cursor is_cursor world
  have undisturbed := world.undisturbed_step cursor
  obtain ⟨⟨fault | item, later⟩, ending⟩ : ∃ ending, world.step cursor = ending := ⟨_, rfl⟩
  all_goals rw [ending] at steps undisturbed
  · obtain ⟨-, rfl, -⟩ := World.eq_of_step_error ending
    exact settles_of_error steps undisturbed nofun
  · refine settles_of_ok steps undisturbed ?_
    refine (layered.link (Store.not_map_of_isCursor is_cursor) item ?_).kept undisturbed
    rw [Store.links_of_isCursor is_cursor,
      World.remaining_of_step_ok (layered.made.hasCursor is_cursor) ending]
    exact List.mem_cons_self

/-- A mapping settles for an iterator with fewer layers, which it has from then on. -/
theorem settles_sourceIterator {ref : Ref}
    (layered : world.store.Layered growth layers (.map ref)) :
    Settles world (sourceIterator ref) fun later source => ∃ under < layers,
      growth (later.mappings.get ref).function under ≤ layers ∧
        later.Layered growth under source where
  undisturbed := undisturbed_sourceIterator ref world
  ends := (resolves_sourceIterator ref world).ends
  meets _ opens := (exists_source_layered layered (Prod.ext opens rfl)).2

/-- A step of a mapping settles if steps of what has fewer layers do. -/
theorem settles_next_map (continuous : HostsContinuous context.function?)
    (hosts : HostsSettle growth context.function?)
    (steps : ∀ under < layers, StepSettles growth under (Value.next context)) {ref : Ref}
    (layered : world.store.Layered growth layers (.map ref)) :
    Settles world ((Value.map ref).next context) fun later => later.Layered growth layers := by
  have settles : Settles world (stepBy context (Value.next context) (.map ref))
      fun later => later.Layered growth layers := by
    refine (settles_sourceIterator layered).bind fun source opened _ source_layered =>
      settles_getStore_bind ?_
    obtain ⟨under, below, grows, source_layered⟩ := source_layered
    dsimp only
    split
    · refine (steps under below opened source source_layered).bind fun item middle _ takes => ?_
      exact (settles_callBy hosts (steps under below) takes.layered).mono
        fun _ _ _ layered => layered.mono (max_le below.le grows)
    · exact settles_throw nofun
  have same := ((continuous.next_eq_stepBy (.map ref) world).2.eq settles.ends).symm
  obtain ⟨undisturbed, ends, meets⟩ := settles
  constructor <;> rw [same] <;> assumption

/-- Where the functions of the host settle, so do steps of whatever has layers. -/
theorem stepSettles_next (continuous : HostsContinuous context.function?)
    (undisturbing : HostsUndisturbing context.function?)
    (hosts : HostsSettle growth context.function?) :
    StepSettles growth layers (Value.next context) := by
  induction layers using Nat.strong_induction_on with
  | _ layers induction =>
      intro world iterator layered
      suffices settles : Settles world (iterator.next context)
          fun later => later.Layered growth layers from
        ⟨settles.undisturbed, settles.ends, fun item yields => ⟨settles.meets item yields,
          fun count at_most => fewer_of_next continuous undisturbing layered at_most
            (Prod.ext yields rfl)⟩⟩
      cases is_iterator : iterator.isIterator with
      | false =>
          exact settles_of_error (next_of_not_iterator continuous is_iterator world)
            (.refl world.store) nofun
      | true =>
          obtain is_cursor | ⟨ref, rfl⟩ := Value.isCursor_or_map is_iterator
          · exact settles_next_cursor is_cursor layered
          · exact settles_next_map continuous hosts induction layered

/-- Where the functions of the host settle, a collection from a drainable value ends. -/
theorem Store.Drainable.not_endless_collect (drainable : world.store.Drainable source)
    (continuous : HostsContinuous context.function?)
    (undisturbing : HostsUndisturbing context.function?)
    (hosts : HostsSettle growth context.function?) :
    ¬Endless (outcome (source.collect context) world) := by
  obtain ⟨layers, layered⟩ : ∃ layers, world.store.Layered growth layers source :=
    drainable.exists_layered
  exact (settles_collectItems (stepSettles_next continuous undisturbing hosts) layered).ends

/-- The functions of the object model alone keep no such collection from ending. -/
theorem Store.Drainable.not_endless_collect_default (drainable : world.store.Drainable source)
    (config : Config) : ¬Endless (outcome (source.collect { config }) world) := by
  have hosts : HostsSettle (fun _ layers => layers) (fun _ => none) := hostsSettle_default
  exact drainable.not_endless_collect hostsContinuous_default hostsUndisturbing_default hosts

end Calls

end ObjectModel
