import ObjectModel.Proofs.Effect.Cursor
import ObjectModel.Proofs.Effect.Unbounded

/-!
# Routines

A routine is an effect for each configuration, composed of a few sorts of steps: it reads the store,
leads it on a course of changes that spare certain values, consumes the end of an iterator, loops,
and fails. The configuration chooses between faults at most. The effects of the object model are
routines, and so an induction on how routines are composed proves what is true of all of them.
-/

namespace ObjectModel

open Effect

/-- The effects composed of steps of the object model, which spare the given values, and of admitted
effects, which can be anything. Those that signal can fail with the end of a sequence. -/
inductive Routine (admitted : (α : Type) → (Config → Effect α) → Prop) (spared : Value → Prop) :
    Bool → {α : Type} → (Config → Effect α) → Prop
  | pure {signals : Bool} {α : Type} (result : α) :
      Routine admitted spared signals fun _ => pure result
  | fail {signals : Bool} {α : Type} (fault : Config → Fault)
      (proper : ∀ config, (fault config).isEndOfSequence = false)
      (alike : ∀ config other, fault config = .endless → fault other = .endless) :
      Routine admitted spared signals fun config => (throw (fault config) : Effect α)
  | signal {α : Type} (fault : Fault) :
      Routine admitted spared true fun _ => (throw fault : Effect α)
  | getStore {signals : Bool} : Routine admitted spared signals fun _ => getStore
  | primitive {signals : Bool} {α : Type} (effect : Effect α)
      (evolves : ∀ world : World,
        world.store.Evolves (Store.Conserves spared) (outcome effect world).2.store)
      (proper : signals = false → ∀ world, NoSignal (outcome effect world).1) :
      Routine admitted spared signals fun _ => effect
  | readLine {signals : Bool} (prompt : String) :
      Routine admitted spared signals fun _ => readLine prompt
  | bind {signals : Bool} {α β : Type} {effect : Config → Effect α}
      {next : α → Config → Effect β} (first : Routine admitted spared signals effect)
      (rest : ∀ result, Routine admitted spared signals (next result)) :
      Routine admitted spared signals fun config =>
        effect config >>= fun result => next result config
  | nextItem {signals : Bool} {next : Config → Value → Effect Value} {iterator : Value}
      (step : Routine admitted spared true fun config => next config iterator) :
      Routine admitted spared signals fun config => nextItemBy (next config) iterator
  | report {signals : Bool} {α : Type} {effect : Config → Effect α}
      (attempt : Routine admitted spared false effect) (fault : Config → Fault → Fault)
      (proper : ∀ config cause, cause.isEndOfSequence = false →
        (fault config cause).isEndOfSequence = false)
      (endless_iff : ∀ config cause, fault config cause = .endless ↔ cause = .endless) :
      Routine admitted spared signals fun config =>
        tryCatch (effect config) fun cause => throw (fault config cause)
  | loop {signals : Bool} {σ α : Type} {turn : Config → σ → Effect (σ ⊕ α)}
      (turns : ∀ state, Routine admitted spared signals fun config => turn config state)
      (state : σ) : Routine admitted spared signals fun config => loop (turn config) state
  | unbounded {signals : Bool} {α : Type} {attempts : Config → Nat → Effect α}
      (each : ∀ depth, Routine admitted spared signals fun config => attempts config depth) :
      Routine admitted spared signals fun config => unbounded (attempts config)
  | foreign {α : Type} {effect : Config → Effect α} (is_admitted : admitted α effect) :
      Routine admitted spared true effect

variable {admitted : (α : Type) → (Config → Effect α) → Prop} {spared : Value → Prop}
  {signals : Bool} {α : Type}

theorem Routine.throw {fault : Fault} (proper : fault.isEndOfSequence = false) :
    Routine admitted spared signals fun _ => (throw fault : Effect α) :=
  .fail (fun _ => fault) (fun _ => proper) fun _ _ same => same

theorem Routine.ofExcept {result : Except Fault α} (proper : NoSignal result) :
    Routine admitted spared signals fun _ => ofExcept result := by
  cases result with
  | ok result => exact .pure result
  | error fault => exact .throw (proper fault rfl)

theorem Routine.read {query : Store → Except Fault α} (proper : ∀ store, NoSignal (query store)) :
    Routine admitted spared signals fun _ => read query :=
  .bind .getStore fun store => .ofExcept (proper store)

/-- A change that rests on something read off the store. -/
theorem Routine.change {β : Type} {query : Store → Except Fault β} {next : β → Effect α}
    (proper : ∀ store, NoSignal (query store))
    (evolves : ∀ (world : World) result, query world.store = .ok result →
      world.store.Evolves (Store.Conserves spared) (outcome (next result) world).2.store)
    (silent : ∀ result world, NoSignal (outcome (next result) world).1) :
    Routine admitted spared signals fun _ => Effect.read query >>= next := by
  refine .primitive _ (fun world => ?_) fun _ world => ?_
  · rw [outcome_bind, outcome_read]
    cases reads : query world.store with
    | error fault => exact .refl world.store
    | ok result => exact evolves world result reads
  · rw [outcome_bind, outcome_read]
    cases reads : query world.store with
    | error fault => exact noSignal_error (proper world.store fault reads)
    | ok result => exact silent result world

theorem Routine.modifyStore (change : Store → Store)
    (edits : ∀ store : Store, store.Edits (change store))
    (conserves : ∀ store : Store, store.Conserves spared (change store)) :
    Routine admitted spared signals fun _ => modifyStore change :=
  .primitive _ (fun world => (edits world.store).evolves (conserves world.store))
    fun _ _ => noSignal_ok ()

/-- A new object spares all others. -/
theorem Routine.add (change : Store → Store) (adds : ∀ store : Store, store.Adds (change store)) :
    Routine admitted spared signals fun _ => Effect.modifyStore change :=
  .modifyStore change (fun store => .adds (adds store)) fun store => (adds store).conserves

/-! ## New objects -/

theorem routine_newBytearray (bytes : List UInt8) :
    Routine admitted spared signals fun _ => newBytearray bytes :=
  .bind .getStore fun _ => .bind (.add _ fun _ => .buffer bytes) fun _ => .pure _

theorem routine_newTuple (items : List Value) :
    Routine admitted spared signals fun _ => newTuple items :=
  .bind .getStore fun _ => .bind (.add _ fun _ => .tuple items) fun _ => .pure _

theorem routine_newList (items : List Value) :
    Routine admitted spared signals fun _ => newList items :=
  .bind .getStore fun _ => .bind (.add _ fun _ => .list items) fun _ => .pure _

theorem routine_newHostObject (fields : List (String × Value)) :
    Routine admitted spared signals fun _ => newHostObject fields :=
  .bind .getStore fun _ => .bind (.add _ fun _ => .record fields) fun _ => .pure _

theorem routine_newListIterator (list : Ref) :
    Routine admitted spared signals fun _ => newListIterator list :=
  .bind .getStore fun _ => .bind (.add _ fun _ => .listCursor list) fun _ => .pure _

theorem routine_newKeyCursor (table : Ref) :
    Routine admitted spared signals fun _ => newKeyCursor table :=
  .bind .getStore fun _ => .bind (.add _ fun _ => .keyCursor table) fun _ => .pure _

theorem routine_newSeqIterator (items : List Value) :
    Routine admitted spared signals fun _ => newSeqIterator items :=
  .bind .getStore fun _ => .bind (.add _ fun _ => .sequenceCursor items) fun _ => .pure _

theorem routine_newMap (function source : Value) :
    Routine admitted spared signals fun _ => newMap function source :=
  .bind .getStore fun _ => .bind (.add _ fun _ => .mapping function source) fun _ => .pure _

/-- A new table that is read off the store is indexed if the tables of the store are. -/
theorem routine_newTable {query : Store → Except Fault (Table Value Value)}
    (proper : ∀ store, NoSignal (query store))
    (indexed : ∀ store table, query store = .ok table → store.Indexed → table.Indexed)
    (make : Ref → α) :
    Routine admitted spared signals fun _ =>
      (do return make (← newTable (← Effect.read query)) : Effect α) :=
  .change proper
    (fun world table reads =>
      have adds := Store.Adds.table table (indexed world.store table reads)
      adds.evolves adds.conserves)
    fun _ _ => noSignal_ok _

theorem routine_tableOfPairs (pairs : List (Value × Value)) (make : Ref → α) :
    Routine admitted spared signals fun _ =>
      (do return make (← newTable (← Effect.read (·.tableOfPairs pairs))) : Effect α) :=
  routine_newTable (fun store => store.noSignal_tableOfPairs _)
    (fun _ _ makes _ => (Store.builds_of_tableOfPairs makes).keyed.indexed) make

theorem routine_newSet (sort : SetKind) (elements : List Value) :
    Routine admitted spared signals fun _ => newSet sort elements :=
  routine_newTable (fun store => store.noSignal_tableOfElements elements)
    (fun _ _ makes _ => (Store.builds_of_tableOfElements makes).keyed.indexed) sort.toValue

theorem routine_dictOfHost (fields : List (String × Value)) :
    Routine admitted spared signals fun _ => dictOfHost fields :=
  routine_tableOfPairs _ Value.dict

/-! ## Operators -/

theorem routine_concatenate (inplace : Bool) (left right : Value) :
    Routine admitted spared signals fun _ => concatenate inplace left right := by
  refine .bind .getStore fun store => ?_
  cases left with
  | str a => cases right <;> first | exact .pure _ | exact .throw rfl
  | bytes a =>
      cases store.bytes? right with
      | some b => exact .pure _
      | none => exact .throw rfl
  | bytearray a =>
      cases store.bytes? right with
      | some b => exact routine_newBytearray _
      | none => exact .throw rfl
  | tuple a => cases right <;> first | exact routine_newTuple _ | exact .throw rfl
  | _ => exact .throw rfl

theorem routine_repeatSequence {notSequence : Fault}
    (proper : notSequence.isEndOfSequence = false) (sequence count : Value) :
    Routine admitted spared signals fun _ => repeatSequence notSequence sequence count := by
  refine .bind .getStore fun store => ?_
  have replicates {α : Type} (memory : Memory) (size length : Nat) (items : List α) :
      Routine admitted spared signals fun _ => (ofExcept
        (Sequence.times (Sequence.replicate memory size length items) count) : Effect (List α)) :=
    .ofExcept (noSignal_times (noSignal_replicate memory size length items) count)
  cases sequence with
  | str text => exact .bind (replicates _ _ _ _) fun _ => .pure _
  | bytes bytes => exact .bind (replicates _ _ _ _) fun _ => .pure _
  | bytearray ref => exact .bind (replicates _ _ _ _) routine_newBytearray
  | tuple ref => exact .bind (replicates _ _ _ _) routine_newTuple
  | list ref => exact .bind (replicates _ _ _ _) routine_newList
  | _ => exact .throw proper

theorem routine_repetition (inplace : Bool) (left right : Value) :
    Routine admitted spared signals fun _ => repetition inplace left right := by
  unfold repetition
  by_cases swapped : left.integer?.isSome ∧ right.isOneOf KindSet.sequences
  · simp only [swapped, and_self, if_true]
    exact routine_repeatSequence rfl right left
  · simp only [swapped, if_false]
    exact routine_repeatSequence rfl left right

theorem routine_joinScalars (op : BinaryOperator) (inplace : Bool) (left right : Value) :
    Routine admitted spared signals fun _ =>
      (match op with
      | .add => concatenate inplace left right
      | .mul => repetition inplace left right
      | _ => throw (.unsupportedOperands op inplace left.kind right.kind) : Effect Value) := by
  cases op with
  | add => exact routine_concatenate inplace left right
  | mul => exact routine_repetition inplace left right
  | _ => exact .throw rfl

theorem routine_binaryScalar (op : BinaryOperator) (inplace : Bool) (left right : Value) :
    Routine admitted spared signals fun _ => binaryScalar op inplace left right := by
  unfold binaryScalar
  have joins : Routine admitted spared signals _ := routine_joinScalars op inplace left right
  cases left.number? with
  | none => exact joins
  | some x =>
      cases right.number? with
      | none => exact joins
      | some y =>
          cases Number.Operation.ofOp? op with
          | none => exact .throw rfl
          | some operation => exact .pure _

theorem routine_binaryList (ref : Ref) (op : BinaryOperator) (other : Value) :
    Routine admitted spared signals fun _ => binaryList ref op other := by
  have unsupported :
      (Fault.unsupportedOperands op false .list other.kind).isEndOfSequence = false := rfl
  cases op with
  | add =>
      cases other with
      | list right => exact .bind .getStore fun _ => .bind .getStore fun _ => routine_newList _
      | _ => exact .throw rfl
  | mul => exact routine_repeatSequence unsupported (.list ref) other
  | _ => exact .throw rfl

theorem routine_binarySet (sort : SetKind) (left : Ref) (op : BinaryOperator) (other : Value) :
    Routine admitted spared signals fun _ => sort.binary left op other := by
  unfold SetKind.binary
  cases other.setTable? with
  | none => exact .throw (sort.rejection_proper op false other)
  | some right =>
      cases SetOperation.ofOp? op with
      | none => exact .throw (sort.rejection_proper op false other)
      | some operation =>
          exact .bind (.read fun store => store.noSignal_combineSets operation left right)
            (routine_newSet sort)

theorem routine_binary (op : BinaryOperator) (left right : Value) :
    Routine admitted spared signals fun _ => left.binary op right := by
  unfold Value.binary
  cases left with
  | list ref => exact routine_binaryList ref op right
  | set ref => exact routine_binarySet .mutable ref op right
  | frozenset ref => exact routine_binarySet .frozen ref op right
  | _ => exact routine_binaryScalar op false _ right

theorem routine_unary (op : UnaryOperator) (operand : Value) :
    Routine admitted spared signals fun _ => operand.unary op := by
  unfold Value.unary
  cases op with
  | not => exact .bind .getStore fun _ => .pure _
  | _ =>
      cases operand.number? with
      | none => exact .throw rfl
      | some number => cases number <;> first | exact .pure _ | exact .throw rfl

/-! ## Iteration -/

theorem routine_iter (source : Value) :
    Routine admitted spared signals fun _ => source.iter := by
  refine .bind .getStore fun store => ?_
  cases source with
  | list ref => exact routine_newListIterator ref
  | set ref => exact .bind (routine_newKeyCursor ref) fun _ => .pure _
  | frozenset ref => exact .bind (routine_newKeyCursor ref) fun _ => .pure _
  | dict ref => exact .bind (routine_newKeyCursor ref) fun _ => .pure _
  | tuple ref => exact routine_newSeqIterator _
  | str text => exact routine_newSeqIterator _
  | bytes contents => exact routine_newSeqIterator _
  | bytearray ref => exact routine_newSeqIterator _
  | _ => first | exact .pure _ | exact .throw rfl

/-- A step of a cursor as a routine. -/
theorem routine_step {effect : Effect Value} {cursor : Value}
    (steps : ∀ world, outcome effect world = world.step cursor) :
    Routine admitted spared true fun _ => effect :=
  .primitive effect (fun world => steps world ▸ world.evolves_step cursor) nofun

theorem routine_sourceIterator (ref : Ref) :
    Routine admitted spared signals fun _ => sourceIterator ref :=
  .primitive _ (fun world => (resolves_sourceIterator ref world).evolves spared)
    fun _ world => (resolves_sourceIterator ref world).proper

section Loops

variable {σ : Type} {next : Config → Value → Effect Value} {step : σ → Value → Config → Effect σ}

theorem routine_foldLoop
    (steps : ∀ iterator, Routine admitted spared true fun config => next config iterator)
    (combines : ∀ state item, Routine admitted spared signals (step state item)) (iterator : Value)
    (state : σ) :
    Routine admitted spared signals fun config =>
      foldLoop (next config) iterator (fun state item => step state item config) state := by
  refine .loop (fun state => .bind (.nextItem (steps iterator)) fun found => ?_) state
  cases found with
  | none => exact .pure _
  | some item => exact .bind (combines state item) fun _ => .pure _

theorem routine_foldItems
    (steps : ∀ iterator, Routine admitted spared true fun config => next config iterator)
    (combines : ∀ state item, Routine admitted spared signals (step state item)) (source : Value)
    (initial : σ) :
    Routine admitted spared signals fun config =>
      foldItems (next config) source (fun state item => step state item config) initial :=
  .bind (routine_iter source) fun iterator => routine_foldLoop steps combines iterator initial

theorem routine_collectItems
    (steps : ∀ iterator, Routine admitted spared true fun config => next config iterator)
    (source : Value) :
    Routine admitted spared signals fun config => collectItems (next config) source :=
  .bind (routine_foldItems steps (fun _ _ => .pure _) source []) fun _ => .pure _

end Loops

/-! ## Subscripts -/

theorem routine_subscriptItem (edition : Config → Edition) (sequence : String) (items : List α)
    (one : α → Value) (index : Value) :
    Routine admitted spared signals fun config =>
      (match index.integer? with
      | some n => return one (← ofExcept (itemAt sequence items n))
      | none => throw (.badIndex sequence (edition config) index.kind) : Effect Value) := by
  cases index.integer? with
  | some n => exact .bind (.ofExcept (noSignal_itemAt sequence items n)) fun _ => .pure _
  | none => exact .fail _ (fun _ => rfl) nofun

theorem routine_subscriptSequence (edition : Config → Edition) (sequence : String) (items : List α)
    (one : α → Value) {many : List α → Effect Value}
    (makes : ∀ selected, Routine admitted spared signals fun _ => many selected) (index : Value) :
    Routine admitted spared signals fun config =>
      subscriptSequence (edition config) sequence items one many index := by
  unfold subscriptSequence
  have single : Routine admitted spared signals _ :=
    routine_subscriptItem edition sequence items one index
  cases index with
  | slice slice => exact .bind (.ofExcept (noSignal_apply slice items)) makes
  | _ => exact single

theorem routine_subscript (container index : Value) :
    Routine admitted spared signals fun config => container.subscript config index := by
  refine .bind .getStore fun store => ?_
  cases container with
  | list ref => exact routine_subscriptSequence Config.edition _ _ _ routine_newList index
  | tuple ref => exact routine_subscriptSequence Config.edition _ _ _ routine_newTuple index
  | str text => exact routine_subscriptSequence (fun _ => .v34) _ _ _ (fun _ => .pure _) index
  | bytes contents => exact routine_subscriptSequence Config.edition _ _ _ (fun _ => .pure _) index
  | bytearray ref => exact routine_subscriptSequence Config.edition _ _ _ routine_newBytearray index
  | set ref => exact .throw (SetKind.mutable.subscriptFault_proper index)
  | frozenset ref => exact .throw (SetKind.frozen.subscriptFault_proper index)
  | dict ref =>
      refine .bind (.ofExcept (store.noSignal_lookup? (store.table ref) index)) fun found => ?_
      cases found with
      | some value => exact .pure value
      | none => exact .throw rfl
  | hostObject ref =>
      dsimp only
      cases (store.record ref).find? fun field => index.text? == some field.1 with
      | some field => exact .pure field.2
      | none => exact .throw rfl
  | _ => exact .throw rfl

end ObjectModel
