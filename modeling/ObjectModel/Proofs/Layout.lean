import ObjectModel.Proofs.Addition
import ObjectModel.Proofs.Effect.Sparing
import ObjectModel.Proofs.Repetition
import ObjectModel.Proofs.Store.Layers

/-!
# The layout of joined and repeated sequences

Two sequences of one kind join to the items of the first and then those of the second. A repeated
sequence goes through its items in turn, so what stands at a place is told by the place modulo the
length. Sequences of all five kinds are made of parts, and `*` repeats the parts; the layout is
proved for parts and read off for every kind.
-/

namespace ObjectModel

open Effect

variable {α : Type} {items : List α}

/-! ## Repeated items -/

namespace Sequence

theorem length_flatten_replicate (items : List α) (count : Nat) :
    (List.replicate count items).flatten.length = items.length * count := by
  simp [Nat.mul_comm]

theorem getElem?_flatten_replicate {count place : Nat} (inside : place < items.length * count) :
    (List.replicate count items).flatten[place]? = items[place % items.length]? := by
  induction count generalizing place with
  | zero => simp at inside
  | succ count induction =>
      rw [List.replicate_succ, List.flatten_cons, List.getElem?_append]
      split_ifs with first
      · rw [Nat.mod_eq_of_lt first]
      · have beyond : items.length ≤ place := Nat.le_of_not_lt first
        rw [Nat.mul_succ] at inside
        rw [induction (by omega), ← Nat.mod_eq_sub_mod beyond]

theorem replicate_eq {memory : Memory} {size length count : Nat}
    (no_length : items = [] → length = 0) :
    replicate memory size length items count =
      if fits memory size length count then .ok (List.replicate count items).flatten
      else .error .sequenceTooLarge := by
  unfold replicate
  split_ifs with nothing fits fits
  · rw [Bool.or_eq_true, List.isEmpty_iff, beq_iff_eq] at nothing
    rcases nothing with rfl | rfl
    · simp
    · rfl
  · rw [Bool.or_eq_true, List.isEmpty_iff, beq_iff_eq] at nothing
    rcases nothing with empty | rfl
    · simp [no_length empty, Sequence.fits] at fits
    · simp [Sequence.fits] at fits
  · rfl
  · rfl

theorem repeatCount_eq {count : Value} {n : Int} (integer : count.integer? = some n) :
    repeatCount count = if n < 2 ^ 64 then .ok n.toNat else .error .indexTooLarge := by
  cases count with
  | bool b =>
      obtain rfl := Option.some.inj integer
      cases b <;> rfl
  | int m =>
      obtain rfl := Option.some.inj integer
      have limit : ((1 <<< 64 : Nat) : Int) = 2 ^ 64 := rfl
      rw [repeatCount, limit]
      split_ifs with not_positive fits
      · rw [Int.toNat_of_nonpos not_positive]
      · omega
      · rfl
      · rfl
  | _ => contradiction

end Sequence

/-! ## Sequences as parts -/

namespace Store

/-- A value is a known sequence of a kind with certain items, as many as its length says. -/
structure LaysOut (store : Store) (value : Value) (kind : Kind) (items : List Value) : Prop where
  known : store.knows value
  kind_eq : value.kind = kind
  items_eq : store.items value = items
  length_eq : store.length? value = some items.length

variable {store : Store} {value : Value} {items : List Value}

theorem length?_of_sequence (store : Store) (is_sequence : value.kind ∈ KindSet.sequences) :
    store.length? value = some (store.items value).length := by
  rw [KindSet.mem_sequences_iff] at is_sequence
  cases value with
  | list ref => rfl
  | tuple ref => rfl
  | bytearray ref => exact congrArg some (List.length_map Value.byte).symm
  | bytes contents => exact congrArg some (List.length_map Value.byte).symm
  | str text =>
      rw [length?, ← String.length_toList]
      exact congrArg some (List.length_map Value.char).symm
  | _ => simp [Value.kind] at is_sequence

theorem Keeps.items_eq {later : Store} (keeps : store.Keeps later value) :
    later.items value = store.items value := by
  cases value with
  | list ref => exact keeps
  | tuple ref => exact keeps
  | bytearray ref => exact congrArg (List.map Value.byte) keeps
  | set ref => exact congrArg Table.keys keeps
  | frozenset ref => exact congrArg Table.keys keeps
  | dict ref => exact congrArg Table.keys keeps
  | _ => rfl

theorem laysOut_of_items (is_sequence : value.kind ∈ KindSet.sequences)
    (known : store.knows value) (items_eq : store.items value = items) :
    store.LaysOut value value.kind items where
  known
  kind_eq := rfl
  items_eq
  length_eq := items_eq ▸ store.length?_of_sequence is_sequence

/-- A sequence keeps its layout as long as its object is kept. -/
theorem LaysOut.of_spares {later : Store} {kind : Kind} (laid_out : store.LaysOut value kind items)
    (is_sequence : kind ∈ KindSet.sequences) (spares : store.Spares (fun _ => True) later) :
    later.LaysOut value kind items := by
  obtain ⟨known, rfl, rfl, -⟩ := laid_out
  exact laysOut_of_items is_sequence (spares.knows known) (spares.keeps known trivial).items_eq

/-! ### Room -/

/-- The size of the parts that a sequence is kept in: values, or bytes. -/
def partSize (store : Store) : Value → Nat
  | .list _ | .tuple _ => store.memory.valueSize
  | _ => 1

/-- The number of parts that a sequence is kept in. Those of a text are the bytes of its encoding.
-/
def partCount (store : Store) : Value → Nat
  | .str text => text.utf8ByteSize
  | value => (store.length? value).getD 0

/-- A sequence can be repeated `count` times: the result takes up no more bytes than a sequence may,
and memory for it can be reserved. -/
structure HasRoom (store : Store) (value : Value) (count : Nat) : Prop where
  length_le : store.partCount value * count ≤ Sequence.maxBytes / max (store.partSize value) 1
  bytes_le : store.partCount value * count * store.partSize value ≤ store.memory.available

theorem fits_iff (store : Store) (value : Value) (count : Nat) :
    Sequence.fits store.memory (store.partSize value) (store.partCount value) count ↔
      count ≤ 1 ∨ store.HasRoom value count := by
  rw [Sequence.fits, Bool.or_eq_true, Bool.and_eq_true, decide_eq_true_eq, decide_eq_true_eq,
    decide_eq_true_eq]
  exact or_congr_right ⟨fun room => ⟨room.1, room.2⟩, fun room => ⟨room.length_le, room.bytes_le⟩⟩

theorem hasRoom_of_empty (empty : store.partCount value = 0)
    (count : Nat) : store.HasRoom value count := by
  constructor <;> simp [empty]

theorem partCount_eq_zero (is_sequence : value.kind ∈ KindSet.sequences)
    (empty : store.items value = []) : store.partCount value = 0 := by
  have no_length := store.length?_of_sequence is_sequence
  rw [empty, List.length_nil] at no_length
  cases value with
  | str text =>
      have no_chars : text.toList = [] := List.map_eq_nil_iff.mp empty
      rw [String.toList_eq_nil_iff] at no_chars
      simp [partCount, no_chars]
  | _ => exact congrArg (Option.getD · 0) no_length

end Store

namespace Effect

/-- The effect succeeds with a sequence of a kind that has certain items. -/
def Makes (effect : Effect Value) (world : World) (kind : Kind) (items : List Value) : Prop :=
  ∃ result later, outcome effect world = (.ok result, later) ∧ later.store.LaysOut result kind items

variable {kind : Kind} {items : List Value} {effect other : Effect Value}

theorem Makes.congr {world : World} (makes : Makes other world kind items)
    (same : outcome effect world = outcome other world) : Makes effect world kind items := by
  rw [Makes, same]
  exact makes

theorem makes_newList (items : List Value) (world : World) :
    Makes (newList items) world .list items :=
  have is_sequence : Kind.list ∈ KindSet.sequences := by decide
  ⟨_, _, rfl, Store.laysOut_of_items is_sequence
    (decide_eq_true (world.store.lists.index_next_lt_size_push items)) (Pool.get_push_next _ _)⟩

theorem makes_newTuple (items : List Value) (world : World) :
    Makes (newTuple items) world .tuple items :=
  have is_sequence : Kind.tuple ∈ KindSet.sequences := by decide
  ⟨_, _, rfl, Store.laysOut_of_items is_sequence
    (decide_eq_true (world.store.tuples.index_next_lt_size_push items)) (Pool.get_push_next _ _)⟩

theorem makes_newBytearray (bytes : List UInt8) (world : World) :
    Makes (newBytearray bytes) world .bytearray (bytes.map Value.byte) :=
  have is_sequence : Kind.bytearray ∈ KindSet.sequences := by decide
  ⟨_, _, rfl, Store.laysOut_of_items is_sequence
    (decide_eq_true (world.store.buffers.index_next_lt_size_push bytes))
    (congrArg (List.map Value.byte) (Pool.get_push_next _ _))⟩

theorem makes_bytes (bytes : List UInt8) (world : World) :
    Makes (pure (.bytes bytes)) world .bytes (bytes.map Value.byte) :=
  have is_sequence : Kind.bytes ∈ KindSet.sequences := by decide
  ⟨_, _, rfl, Store.laysOut_of_items is_sequence rfl rfl⟩

theorem makes_str (text : String) (world : World) :
    Makes (pure (.str text)) world .str (text.toList.map Value.char) :=
  have is_sequence : Kind.str ∈ KindSet.sequences := by decide
  ⟨_, _, rfl, Store.laysOut_of_items is_sequence rfl rfl⟩

end Effect

/-! ## Joined sequences -/

/-- Two values of one kind, or two byte strings. -/
def Value.Joins (left right : Value) : Prop :=
  left.kind = right.kind ∨
    left.kind ∈ KindSet.byteSequences ∧ right.kind ∈ KindSet.byteSequences

variable {left right : Value} {world : World}

theorem Value.Joins.kind_eq (joins : left.Joins right)
    (no_bytes : left.kind ∉ KindSet.byteSequences) : left.kind = right.kind :=
  joins.resolve_right fun both => no_bytes both.1

theorem Value.Joins.right_bytes (joins : left.Joins right)
    (is_bytes : left.kind ∈ KindSet.byteSequences) : right.kind ∈ KindSet.byteSequences := by
  rcases joins with same | both
  · exact same ▸ is_bytes
  · exact both.2

theorem exists_bytes (is_bytes : right.kind ∈ KindSet.byteSequences) (store : Store) :
    ∃ bytes, store.bytes? right = some bytes ∧ store.items right = bytes.map Value.byte := by
  cases right with
  | bytes contents => exact ⟨_, rfl, rfl⟩
  | bytearray ref => exact ⟨_, rfl, rfl⟩
  | _ => exact absurd is_bytes (by simp only [Value.kind]; decide)

/-- Two sequences are joined to a new one of the kind on the left. -/
theorem makes_binary_add (is_sequence : left.kind ∈ KindSet.sequences) (joins : left.Joins right) :
    Makes (left.binary .add right) world left.kind
      (world.store.items left ++ world.store.items right) := by
  rw [KindSet.mem_sequences_iff] at is_sequence
  cases left with
  | list a =>
      have same := joins.kind_eq (by simp only [Value.kind]; decide)
      cases right with
      | list b => exact makes_newList _ world
      | _ => contradiction
  | tuple a =>
      have same := joins.kind_eq (by simp only [Value.kind]; decide)
      cases right with
      | tuple b => exact makes_newTuple _ world
      | _ => contradiction
  | str a =>
      have same := joins.kind_eq (by simp only [Value.kind]; decide)
      cases right with
      | str b =>
          have joined := makes_str (a ++ b) world
          rw [String.toList_append, List.map_append] at joined
          exact joined
      | _ => contradiction
  | bytes a =>
      obtain ⟨b, is_bytes, items_eq⟩ := exists_bytes
        (joins.right_bytes (by simp only [Value.kind]; decide)) world.store
      have adds := outcome_add_bytes a right world
      rw [is_bytes] at adds
      rw [items_eq, Store.items, ← List.map_append]
      exact (makes_bytes (a ++ b) world).congr adds
  | bytearray a =>
      obtain ⟨b, is_bytes, items_eq⟩ := exists_bytes
        (joins.right_bytes (by simp only [Value.kind]; decide)) world.store
      have adds := outcome_add_bytearray a right world
      rw [is_bytes] at adds
      rw [items_eq, Store.items, ← List.map_append]
      exact (makes_newBytearray (world.store.buffer a ++ b) world).congr adds
  | _ => simp [Value.kind] at is_sequence

/-! ## Repeated sequences -/

/-- A sequence is made of parts that `*` repeats. -/
structure PartsOf (value : Value) (parts : Store → List α) (one : α → Value)
    (make : List α → Effect Value) : Prop where
  items_eq : ∀ store, store.items value = (parts store).map one
  repeatSequence_eq : ∀ notSequence count world,
    outcome (repeatSequence notSequence value count) world =
      outcome (do
        make (← ofExcept (Sequence.times (Sequence.replicate world.store.memory
          (world.store.partSize value) (world.store.partCount value) (parts world.store)) count)))
        world
  makes : ∀ selected world, Makes (make selected) world value.kind (selected.map one)

theorem exists_partsOf {value : Value} (is_sequence : value.kind ∈ KindSet.sequences) :
    ∃ (α : Type) (parts : Store → List α) (one : α → Value) (make : List α → Effect Value),
      PartsOf value parts one make := by
  rw [KindSet.mem_sequences_iff] at is_sequence
  cases value with
  | list ref =>
      exact ⟨Value, (·.list ref), id, newList, fun _ => (List.map_id _).symm, fun _ _ _ => rfl,
        fun selected world => (List.map_id selected).symm ▸ makes_newList selected world⟩
  | tuple ref =>
      exact ⟨Value, (·.tuple ref), id, newTuple, fun _ => (List.map_id _).symm, fun _ _ _ => rfl,
        fun selected world => (List.map_id selected).symm ▸ makes_newTuple selected world⟩
  | bytearray ref =>
      exact ⟨UInt8, (·.buffer ref), Value.byte, newBytearray, fun _ => rfl, fun _ _ _ => rfl,
        makes_newBytearray⟩
  | bytes contents =>
      exact ⟨UInt8, fun _ => contents, Value.byte, fun bytes => pure (.bytes bytes), fun _ => rfl,
        fun _ _ _ => rfl, makes_bytes⟩
  | str text =>
      exact ⟨Char, fun _ => text.toList, Value.char, fun chars => pure (.str (String.ofList chars)),
        fun _ => rfl, fun _ _ _ => rfl, fun selected world => by
          have made := makes_str (String.ofList selected) world
          rwa [String.toList_ofList] at made⟩
  | _ => simp [Value.kind] at is_sequence

section Counts

variable {value count : Value} {n : Int}

theorem binary_mul_eq (is_sequence : value.kind ∈ KindSet.sequences) (count : Value)
    (notSequence : Fault) : value.binary .mul count = repeatSequence notSequence value count := by
  rw [KindSet.mem_sequences_iff] at is_sequence
  cases value with
  | list ref => rfl
  | tuple ref => rfl
  | bytearray ref => rfl
  | bytes contents => rfl
  | str text => rfl
  | _ => simp [Value.kind] at is_sequence

/-- An integer on the left repeats like one on the right. -/
theorem binary_mul_swap (is_sequence : value.kind ∈ KindSet.sequences)
    (integer : count.integer? = some n) : count.binary .mul value = value.binary .mul count := by
  have is_count : count.integer?.isSome := integer ▸ rfl
  have no_number : value.number? = none := by
    rw [KindSet.mem_sequences_iff] at is_sequence
    cases value <;> first | rfl | simp [Value.kind] at is_sequence
  have scalar : binaryScalar .mul false count value = value.binary .mul count := by
    rw [binary_mul_eq is_sequence count (.unsupportedOperands .mul false count.kind value.kind)]
    unfold binaryScalar
    rw [no_number]
    cases count.number? <;> exact if_pos ⟨is_count, decide_eq_true is_sequence⟩
  cases count with
  | bool b => exact scalar
  | int m => exact scalar
  | _ => contradiction

theorem outcome_binary_mul_tooOften (is_sequence : value.kind ∈ KindSet.sequences)
    (integer : count.integer? = some n) (beyond : ¬ n < 2 ^ 64) :
    outcome (value.binary .mul count) world = (.error .indexTooLarge, world) := by
  obtain ⟨α, parts, one, make, parts_of⟩ := exists_partsOf is_sequence
  have refuses := (Sequence.repeatCount_eq integer).trans (if_neg beyond)
  rw [binary_mul_eq is_sequence count .indexTooLarge, parts_of.repeatSequence_eq]
  rw [Sequence.times_of_no_count refuses]
  rfl

/-- How often parts are repeated depends on the room for them alone. -/
theorem PartsOf.times_eq {parts : Store → List α} {one : α → Value} {make : List α → Effect Value}
    (parts_of : PartsOf value parts one make) (is_sequence : value.kind ∈ KindSet.sequences)
    (integer : count.integer? = some n)
    (counts : n < 2 ^ 64) (store : Store) [Decidable (n.toNat ≤ 1 ∨ store.HasRoom value n.toNat)] :
    Sequence.times (Sequence.replicate store.memory (store.partSize value) (store.partCount value)
      (parts store)) count =
        if n.toNat ≤ 1 ∨ store.HasRoom value n.toNat then
          .ok (List.replicate n.toNat (parts store)).flatten
        else .error .sequenceTooLarge := by
  have no_length (empty : parts store = []) : store.partCount value = 0 := by
    apply Store.partCount_eq_zero is_sequence
    rw [parts_of.items_eq, empty, List.map_nil]
  rw [Sequence.times_of_count ((Sequence.repeatCount_eq integer).trans (if_pos counts)),
    Sequence.replicate_eq no_length]
  exact if_congr (store.fits_iff value n.toNat) rfl rfl

theorem makes_binary_mul (is_sequence : value.kind ∈ KindSet.sequences)
    (integer : count.integer? = some n) (counts : n < 2 ^ 64)
    (room : n.toNat ≤ 1 ∨ world.store.HasRoom value n.toNat) :
    Makes (value.binary .mul count) world value.kind
      (List.replicate n.toNat (world.store.items value)).flatten := by
  classical
  obtain ⟨α, parts, one, make, parts_of⟩ := exists_partsOf is_sequence
  have makes := parts_of.makes (List.replicate n.toNat (parts world.store)).flatten world
  rw [List.map_flatten, List.map_replicate, ← parts_of.items_eq] at makes
  refine makes.congr ?_
  rw [binary_mul_eq is_sequence count .sequenceTooLarge, parts_of.repeatSequence_eq]
  rw [parts_of.times_eq is_sequence integer counts, if_pos room]
  rfl

theorem outcome_binary_mul_tooLarge (is_sequence : value.kind ∈ KindSet.sequences)
    (integer : count.integer? = some n) (counts : n < 2 ^ 64)
    (no_room : ¬ (n.toNat ≤ 1 ∨ world.store.HasRoom value n.toNat)) :
    outcome (value.binary .mul count) world = (.error .sequenceTooLarge, world) := by
  classical
  obtain ⟨α, parts, one, make, parts_of⟩ := exists_partsOf is_sequence
  rw [binary_mul_eq is_sequence count .sequenceTooLarge, parts_of.repeatSequence_eq]
  rw [parts_of.times_eq is_sequence integer counts, if_neg no_room]
  rfl

/-- How a sequence that is repeated by the integer `n` ends: with its items in turn, for lack of
memory, or with the refusal of the count. -/
inductive RepeatEnds (world : World) (value : Value) (n : Int) : Except Fault Value × World → Prop
  | made {result : Value} {later : World}
      (laid_out : later.store.LaysOut result value.kind
        (List.replicate n.toNat (world.store.items value)).flatten) :
      RepeatEnds world value n (.ok result, later)
  | tooLarge (counts : n < 2 ^ 64)
      (no_room : ¬ (n.toNat ≤ 1 ∨ world.store.HasRoom value n.toNat)) :
      RepeatEnds world value n (.error .sequenceTooLarge, world)
  | tooOften (beyond : ¬ n < 2 ^ 64) : RepeatEnds world value n (.error .indexTooLarge, world)

theorem repeatEnds_of_outcome {ending : Except Fault Value × World}
    (is_sequence : value.kind ∈ KindSet.sequences) (integer : count.integer? = some n)
    (ends : outcome (value.binary .mul count) world = ending) :
    RepeatEnds world value n ending := by
  by_cases counts : n < 2 ^ 64
  · by_cases room : n.toNat ≤ 1 ∨ world.store.HasRoom value n.toNat
    · obtain ⟨result, later, makes, laid_out⟩ :=
        makes_binary_mul is_sequence integer counts room
      exact makes.symm.trans ends ▸ .made laid_out
    · rw [outcome_binary_mul_tooLarge is_sequence integer counts room] at ends
      exact ends ▸ .tooLarge counts room
  · rw [outcome_binary_mul_tooOften is_sequence integer counts] at ends
    exact ends ▸ .tooOften counts

end Counts

/-- How a sequence is repeated by a count that is the integer `n`. -/
structure Repeats (world : World) (value count : Value) (n : Int) : Prop where
  /-- The operands can change places. -/
  swaps : outcome (count.binary .mul value) world = outcome (value.binary .mul count) world
  /-- The result is of the same kind and goes through the items in turn. -/
  laysOut : ∀ result later, outcome (value.binary .mul count) world = (.ok result, later) →
    ∃ items, later.store.LaysOut result value.kind items ∧
      items.length = (world.store.items value).length * n.toNat ∧
        ∀ place < items.length,
          items[place]? = (world.store.items value)[place % (world.store.items value).length]?
  /-- A result that there is room for is reached if the count fits a word. -/
  succeeds : n < 2 ^ 64 → world.store.HasRoom value n.toNat →
    ∃ result later, outcome (value.binary .mul count) world = (.ok result, later)
  /-- A count that fits no word is refused, and no other one. -/
  indexError : (∃ fault later, outcome (value.binary .mul count) world = (.error fault, later) ∧
    fault.category = .indexError) ↔ 0 < n ∧ ¬ n < 2 ^ 64
  /-- Memory is lacking where there is no room for more than one copy, -/
  memoryError : (∃ fault later, outcome (value.binary .mul count) world = (.error fault, later) ∧
    fault.category = .memoryError) ↔ 1 < n ∧ n < 2 ^ 64 ∧ ¬ world.store.HasRoom value n.toNat
  /-- and so only where there is something to repeat. -/
  repeatsSome : ∀ fault later, outcome (value.binary .mul count) world = (.error fault, later) →
    fault.category = .memoryError → world.store.items value ≠ [] ∧ 0 < n
  /-- There are no other failures, and no failure has an effect. -/
  fails : ∀ fault later, outcome (value.binary .mul count) world = (.error fault, later) →
    later = world ∧ (fault.category = .indexError ∨ fault.category = .memoryError)

theorem repeats {value count : Value} {n : Int} (is_sequence : value.kind ∈ KindSet.sequences)
    (integer : count.integer? = some n) (world : World) : Repeats world value count n where
  swaps := congrArg (outcome · world) (binary_mul_swap is_sequence integer)
  laysOut result later ends := by
    cases repeatEnds_of_outcome is_sequence integer ends with
    | made laid_out =>
        refine ⟨_, laid_out, Sequence.length_flatten_replicate _ _, fun place inside => ?_⟩
        rw [Sequence.length_flatten_replicate] at inside
        exact Sequence.getElem?_flatten_replicate inside
  succeeds counts room := by
    obtain ⟨result, later, ends, -⟩ := makes_binary_mul is_sequence integer counts (.inr room)
    exact ⟨result, later, ends⟩
  indexError := by
    constructor
    · rintro ⟨fault, later, ends, is_index⟩
      cases repeatEnds_of_outcome is_sequence integer ends with
      | tooLarge => contradiction
      | tooOften beyond => exact ⟨by omega, beyond⟩
    · intro large
      exact ⟨_, _, outcome_binary_mul_tooOften is_sequence integer large.2, rfl⟩
  memoryError := by
    constructor
    · rintro ⟨fault, later, ends, is_memory⟩
      cases repeatEnds_of_outcome is_sequence integer ends with
      | tooOften => contradiction
      | tooLarge counts no_room =>
          rw [not_or] at no_room
          exact ⟨by omega, counts, no_room.2⟩
    · rintro ⟨several, counts, no_room⟩
      have too_large : ¬ (n.toNat ≤ 1 ∨ world.store.HasRoom value n.toNat) :=
        not_or.mpr ⟨by omega, no_room⟩
      exact ⟨_, _, outcome_binary_mul_tooLarge is_sequence integer counts too_large, rfl⟩
  repeatsSome fault later ends is_memory := by
    cases repeatEnds_of_outcome is_sequence integer ends with
    | tooOften => contradiction
    | tooLarge counts no_room =>
        rw [not_or] at no_room
        refine ⟨fun empty => no_room.2 ?_, by omega⟩
        exact Store.hasRoom_of_empty (Store.partCount_eq_zero is_sequence empty) n.toNat
  fails fault later ends := by
    cases repeatEnds_of_outcome is_sequence integer ends with
    | tooLarge => exact ⟨rfl, .inr rfl⟩
    | tooOften => exact ⟨rfl, .inl rfl⟩

/-! ## Repetition in two steps -/

/-- A sequence that is repeated by two counts, and by both together, has the same items as the
two results joined. -/
def AddsUp (world : World) (value first second total : Value) : Prop :=
  ∀ x y z later,
    outcome (do
      let x ← value.binary .mul first
      let y ← value.binary .mul second
      let z ← value.binary .mul total
      return (x, y, z)) world = (.ok (x, y, z), later) →
    ∃ items, later.store.LaysOut z value.kind items ∧
      Makes (x.binary .add y) later value.kind items

theorem laysOut_of_outcome {value count result : Value} {n : Int} {world later : World}
    (is_sequence : value.kind ∈ KindSet.sequences) (integer : count.integer? = some n)
    (ends : outcome (value.binary .mul count) world = (.ok result, later)) :
    later.store.LaysOut result value.kind
      (List.replicate n.toNat (world.store.items value)).flatten := by
  cases repeatEnds_of_outcome is_sequence integer ends with
  | made laid_out => exact laid_out

theorem spares_of_outcome {value count result : Value} {world later : World}
    (ends : outcome (value.binary .mul count) world = (.ok result, later)) :
    world.store.Spares (fun _ => True) later.store := by
  have spares : Effect.Spares (fun _ => True) (value.binary .mul count) :=
    spares_binary .mul value count
  have kept := spares world
  rwa [ends] at kept

theorem addsUp {value first second total : Value} {m n : Int}
    (is_sequence : value.kind ∈ KindSet.sequences) {world : World}
    (known : world.store.knows value) (is_first : first.integer? = some m)
    (is_second : second.integer? = some n) (is_total : total.integer? = some (m + n))
    (positive : 0 ≤ m) (positive_second : 0 ≤ n) : AddsUp world value first second total := by
  intro x y z later ends
  obtain ⟨x, after_first, first_ends, ends⟩ := exists_of_outcome_bind_ok ends
  obtain ⟨y, after_second, second_ends, ends⟩ := exists_of_outcome_bind_ok ends
  obtain ⟨z, after_total, total_ends, ends⟩ := exists_of_outcome_bind_ok ends
  cases ends
  have first_spares := spares_of_outcome first_ends
  have second_spares := spares_of_outcome second_ends
  have total_spares := spares_of_outcome total_ends
  have x_laid_out := (laysOut_of_outcome is_sequence is_first first_ends).of_spares is_sequence
    (second_spares.trans total_spares)
  have y_laid_out := (laysOut_of_outcome is_sequence is_second second_ends).of_spares is_sequence
    total_spares
  have z_laid_out := laysOut_of_outcome is_sequence is_total total_ends
  have items_first : after_first.store.items value = world.store.items value :=
    (first_spares.keeps known trivial).items_eq
  have items_second : after_second.store.items value = world.store.items value :=
    ((first_spares.trans second_spares).keeps known trivial).items_eq
  rw [items_first] at y_laid_out
  rw [items_second, Int.toNat_add positive positive_second, List.replicate_add,
    List.flatten_append] at z_laid_out
  have same_kind : x.kind = y.kind := x_laid_out.kind_eq.trans y_laid_out.kind_eq.symm
  have joined : Makes (x.binary .add y) later x.kind _ :=
    makes_binary_add (x_laid_out.kind_eq ▸ is_sequence) (.inl same_kind)
  rw [x_laid_out.kind_eq, x_laid_out.items_eq, y_laid_out.items_eq] at joined
  exact ⟨_, z_laid_out, joined⟩

/-- How `+` and `*` lay out the items of sequences. -/
structure LaysOutSequences (world : World) : Prop where
  /-- The items of a sequence are as many as its length says. -/
  length_eq : ∀ value, value.isOneOf KindSet.sequences →
    world.store.length? value = some (world.store.items value).length
  /-- Two sequences of one kind, or two byte strings, join to one of the kind on the left that has
  the items of both one after the other. -/
  joins : ∀ left right, left.isOneOf KindSet.sequences → left.Joins right →
    Makes (left.binary .add right) world left.kind
      (world.store.items left ++ world.store.items right)
  /-- A sequence is repeated by integers and truth values. -/
  repeats : ∀ value count n, value.isOneOf KindSet.sequences → count.integer? = some n →
    Repeats world value count n
  /-- To repeat by a sum of counts is to repeat by each of them and to join the results. -/
  addsUp : ∀ value first second total m n, value.isOneOf KindSet.sequences →
    world.store.knows value → first.integer? = some m → second.integer? = some n →
      total.integer? = some (m + n) → 0 ≤ m → 0 ≤ n → AddsUp world value first second total

/-- Joined and repeated sequences of all kinds have their items in order. -/
theorem laysOutSequences (world : World) : LaysOutSequences world where
  length_eq _ is_sequence := world.store.length?_of_sequence (of_decide_eq_true is_sequence)
  joins _ _ is_sequence joins := makes_binary_add (of_decide_eq_true is_sequence) joins
  repeats _ _ _ is_sequence integer := repeats (of_decide_eq_true is_sequence) integer world
  addsUp _ _ _ _ _ _ is_sequence known is_first is_second is_total positive positive_second :=
    addsUp (of_decide_eq_true is_sequence) known is_first is_second is_total positive
      positive_second

end ObjectModel
