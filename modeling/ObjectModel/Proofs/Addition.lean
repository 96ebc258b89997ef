import ObjectModel.Proofs.Effect.Settling

/-!
# What additions make

An addition makes one sequence at most and leaves everything else as it is. What it makes is told by
the sequences that there are, so it does not matter where iterators stand.
-/

namespace ObjectModel

open Effect

/-- What an addition makes: nothing new, or a sequence with storage of its own. -/
inductive Creation where
  /-- A value without a new object. -/
  | value (value : Value)
  /-- A byte array. -/
  | bytearray (bytes : List UInt8)
  /-- A tuple. -/
  | tuple (items : List Value)
  /-- A list. -/
  | list (items : List Value)

/-- Makes what is to be made. -/
def Creation.make : Creation → Effect Value
  | value result => pure result
  | bytearray bytes => newBytearray bytes
  | tuple items => newTuple items
  | list items => newList items

/-- Two stores with the same byte arrays, tuples and lists. -/
structure Store.SameSequences (store other : Store) : Prop where
  buffers_eq : store.buffers = other.buffers
  tuples_eq : store.tuples = other.tuples
  lists_eq : store.lists = other.lists

/-- The additions of two values come to the same in all worlds with the same sequences. -/
structure AddsAs (left right : Value) (store : Store) (creation : Except Fault Creation) :
    Prop where
  outcome_eq : ∀ world, store.SameSequences world.store →
    outcome (left.binary .add right) world = outcome (ofExcept creation >>= Creation.make) world
  typeError : ∀ fault, creation = .error fault → fault.category = .typeError

variable {left right : Value} {store : Store}

theorem addsAs_error {fault : Fault} (is_type_error : fault.category = .typeError)
    (fails : ∀ world, outcome (left.binary .add right) world = outcome (throw fault) world) :
    AddsAs left right store (.error fault) where
  outcome_eq world _ := fails world
  typeError := by
    rintro _ ⟨⟩
    exact is_type_error

theorem addsAs_ok (creation : Creation)
    (makes : ∀ world, store.SameSequences world.store →
      outcome (left.binary .add right) world = outcome creation.make world) :
    AddsAs left right store (.ok creation) where
  outcome_eq := makes
  typeError _ is_error := by contradiction

theorem Store.SameSequences.bytes?_eq {other : Store} (same : store.SameSequences other)
    (value : Value) : other.bytes? value = store.bytes? value := by
  cases value with
  | bytearray ref => exact congrArg (fun pool => some (pool.get ref)) same.buffers_eq.symm
  | _ => rfl

theorem outcome_add_bytes (first : List UInt8) (right : Value) (world : World) :
    outcome ((Value.bytes first).binary .add right) world =
      match world.store.bytes? right with
      | some second => outcome (Creation.value (.bytes (first ++ second))).make world
      | none => (.error (.unsupportedOperands .add false .bytes right.kind), world) := by
  change outcome (concatenate false (.bytes first) right) world = _
  rw [concatenate, outcome_bind_of_ok (outcome_getStore world)]
  dsimp only
  cases world.store.bytes? right <;> rfl

theorem outcome_add_bytearray (ref : Ref) (right : Value) (world : World) :
    outcome ((Value.bytearray ref).binary .add right) world =
      match world.store.bytes? right with
      | some second => outcome (Creation.bytearray (world.store.buffer ref ++ second)).make world
      | none => (.error (.unsupportedOperands .add false .bytearray right.kind), world) := by
  change outcome (concatenate false (.bytearray ref) right) world = _
  rw [concatenate, outcome_bind_of_ok (outcome_getStore world)]
  dsimp only
  cases world.store.bytes? right <;> rfl

/-- Bytes are joined with byte strings of either sort, and with nothing else. -/
theorem exists_addsAs_bytes (first : Store → List UInt8) (create : List UInt8 → Creation)
    (kept : ∀ world : World, store.SameSequences world.store → first world.store = first store)
    (joins : ∀ world, outcome (left.binary .add right) world =
      match world.store.bytes? right with
      | some second => outcome (create (first world.store ++ second)).make world
      | none => (.error (.unsupportedOperands .add false left.kind right.kind), world)) :
    ∃ creation, AddsAs left right store creation := by
  cases is_bytes : store.bytes? right with
  | some second =>
      refine ⟨_, addsAs_ok (create (first store ++ second)) fun world same => ?_⟩
      rw [joins, same.bytes?_eq, is_bytes, kept world same]
  | none =>
      refine ⟨.error (.unsupportedOperands .add false left.kind right.kind), ?_, ?_⟩
      · intro world same
        rw [joins, same.bytes?_eq, is_bytes]
        rfl
      · rintro _ ⟨⟩
        rfl

theorem exists_addsAs (left right : Value) (store : Store) :
    ∃ creation, AddsAs left right store creation := by
  have number (number : Number) (is_number : left.number? = some number)
      (scalar : left.binary .add right = binaryScalar .add false left right) :
      ∃ creation, AddsAs left right store creation := by
    cases is_number_too : right.number? with
    | some other =>
        refine ⟨_, addsAs_ok (.value (number.combine .add other).toValue) fun _ _ => ?_⟩
        rw [scalar, binaryScalar, is_number, is_number_too]
        rfl
    | none =>
        refine ⟨.error (.unsupportedOperands .add false left.kind right.kind),
          addsAs_error rfl fun _ => ?_⟩
        rw [scalar, binaryScalar, is_number, is_number_too]
        cases left <;> first | contradiction | rfl
  cases left with
  | list a =>
      cases right with
      | list b =>
          refine ⟨_, addsAs_ok (.list (store.list a ++ store.list b)) fun world same => ?_⟩
          rw [Store.list, Store.list, same.lists_eq]
          rfl
      | _ => exact ⟨_, addsAs_error rfl fun _ => rfl⟩
  | tuple a =>
      cases right with
      | tuple b =>
          refine ⟨_, addsAs_ok (.tuple (store.tuple a ++ store.tuple b)) fun world same => ?_⟩
          rw [Store.tuple, Store.tuple, same.tuples_eq]
          rfl
      | _ => exact ⟨_, addsAs_error rfl fun _ => rfl⟩
  | str a =>
      cases right with
      | str b => exact ⟨_, addsAs_ok (.value (.str (a ++ b))) fun _ _ => rfl⟩
      | _ => exact ⟨_, addsAs_error rfl fun _ => rfl⟩
  | bytes a =>
      exact exists_addsAs_bytes (fun _ => a) (fun bytes => .value (.bytes bytes)) (fun _ _ => rfl)
        (outcome_add_bytes a right)
  | bytearray a =>
      exact exists_addsAs_bytes (·.buffer a) .bytearray
        (fun _ same => congrArg (·.get a) same.buffers_eq.symm) (outcome_add_bytearray a right)
  | bool | int | float | complex => exact number _ rfl rfl
  | set ref | frozenset ref =>
      cases right with
      | set | frozenset => exact ⟨_, addsAs_error rfl fun _ => rfl⟩
      | _ => exact ⟨_, addsAs_error rfl fun _ => rfl⟩
  | _ => exact ⟨_, addsAs_error rfl fun _ => rfl⟩

/-! ## What stays -/

/-- The later world differs by one new sequence at most. -/
inductive World.GainsSequence (world : World) : World → Prop
  | nothing : GainsSequence world world
  | bytearray (bytes : List UInt8) : GainsSequence world
      { world with store := { world.store with buffers := world.store.buffers.push bytes } }
  | tuple (items : List Value) : GainsSequence world
      { world with store := { world.store with tuples := world.store.tuples.push items } }
  | list (items : List Value) : GainsSequence world
      { world with store := { world.store with lists := world.store.lists.push items } }

variable {world later : World}

theorem Creation.gainsSequence_make (creation : Creation) (world : World) :
    world.GainsSequence (outcome creation.make world).2 := by
  cases creation with
  | value => exact .nothing
  | bytearray bytes => exact .bytearray bytes
  | tuple items => exact .tuple items
  | list items => exact .list items

theorem Store.SameSequences.refl (store : Store) : store.SameSequences store where
  buffers_eq := rfl
  tuples_eq := rfl
  lists_eq := rfl

theorem Store.SameSequences.trans {other last : Store} (first : store.SameSequences other)
    (second : other.SameSequences last) : store.SameSequences last where
  buffers_eq := first.buffers_eq.trans second.buffers_eq
  tuples_eq := first.tuples_eq.trans second.tuples_eq
  lists_eq := first.lists_eq.trans second.lists_eq

/-- An addition makes a sequence at most, and one that fails makes none. -/
theorem gainsSequence_binary_add (left right : Value) (world : World) :
    world.GainsSequence (outcome (left.binary .add right) world).2 := by
  obtain ⟨creation, adds⟩ := exists_addsAs left right world.store
  rw [adds.outcome_eq world (.refl world.store)]
  cases creation with
  | error fault => exact .nothing
  | ok creation => exact creation.gainsSequence_make world

theorem typeError_of_binary_add {fault : Fault}
    (fails : outcome (left.binary .add right) world = (.error fault, later)) :
    fault.category = .typeError ∧ later = world := by
  obtain ⟨creation, adds⟩ := exists_addsAs left right world.store
  rw [adds.outcome_eq world (.refl world.store)] at fails
  cases creation with
  | error cause =>
      obtain ⟨⟨⟩, rfl⟩ := Prod.mk.inj fails
      exact ⟨adds.typeError _ rfl, rfl⟩
  | ok creation => cases creation <;> cases fails

namespace World.GainsSequence

theorem spares {spared : Value → Prop} (gains : world.GainsSequence later) :
    world.store.Spares spared later.store := by
  cases gains with
  | nothing => exact .refl world.store
  | bytearray bytes => exact world.store.spares_addBuffer bytes
  | tuple items => exact world.store.spares_addTuple items
  | list items => exact world.store.spares_addList items

theorem undisturbed (gains : world.GainsSequence later) :
    world.store.Undisturbed later.store := by
  refine Store.undisturbed_of_mappings_eq gains.spares ?_ ?_
  · cases gains <;> exact world.store.advances_withContents
  · cases gains <;> rfl

/-- Nothing is taken from a cursor. -/
theorem remaining_eq {cursor : Value} (gains : world.GainsSequence later)
    (made : world.store.Made cursor) (is_cursor : cursor.isCursor) :
    later.store.remaining cursor = world.store.remaining cursor := by
  cases gains with
  | list items =>
      have retains : world.store.lists.Retains (fun _ => True) (world.store.lists.push items) :=
        world.store.lists.retains_push items
      cases cursor with
      | listIterator ref => exact congrArg (List.drop _) (retains.get_eq _ made.2 trivial)
      | setIterator | dictKeyIterator | seqIterator => rfl
      | _ => contradiction
  | _ => cases cursor <;> rfl

end World.GainsSequence

/-- Additions settle. -/
theorem settles_addition (left right : Value) (world : World) :
    Settles world (left.binary .add right) fun _ _ => True where
  undisturbed := (gainsSequence_binary_add left right world).undisturbed
  ends endless := by
    have fails : outcome (left.binary .add right) world =
        (.error .endless, (outcome (left.binary .add right) world).2) :=
      Prod.ext endless rfl
    have is_type_error := (typeError_of_binary_add fails).1
    contradiction
  meets _ _ := trivial

theorem Creation.make_congr (creation : Creation) {world other : World}
    (same : world.store.SameSequences other.store) :
    (outcome creation.make other).1 = (outcome creation.make world).1 ∧
      (outcome creation.make world).2.store.SameSequences
        (outcome creation.make other).2.store := by
  obtain ⟨buffers_eq, tuples_eq, lists_eq⟩ := same
  cases creation with
  | value => exact ⟨rfl, buffers_eq, tuples_eq, lists_eq⟩
  | bytearray bytes =>
      refine ⟨?_, congrArg (·.push bytes) buffers_eq, tuples_eq, lists_eq⟩
      change Except.ok (Value.bytearray other.store.buffers.next) = _
      rw [← buffers_eq]
      rfl
  | tuple items =>
      refine ⟨?_, buffers_eq, congrArg (·.push items) tuples_eq, lists_eq⟩
      change Except.ok (Value.tuple other.store.tuples.next) = _
      rw [← tuples_eq]
      rfl
  | list items =>
      refine ⟨?_, buffers_eq, tuples_eq, congrArg (·.push items) lists_eq⟩
      change Except.ok (Value.list other.store.lists.next) = _
      rw [← lists_eq]
      rfl

/-- Additions come to the same in two worlds with the same sequences. -/
theorem binary_add_congr (left right : Value) {world other : World}
    (same : world.store.SameSequences other.store) :
    (outcome (left.binary .add right) other).1 = (outcome (left.binary .add right) world).1 ∧
      (outcome (left.binary .add right) world).2.store.SameSequences
        (outcome (left.binary .add right) other).2.store := by
  obtain ⟨creation, adds⟩ := exists_addsAs left right world.store
  rw [adds.outcome_eq world (.refl world.store), adds.outcome_eq other same]
  cases creation with
  | error fault => exact ⟨rfl, same⟩
  | ok creation => exact creation.make_congr same

end ObjectModel
