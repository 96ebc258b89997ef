import ObjectModel.Proofs.Iterator.Emptying
import ObjectModel.Proofs.Operation.Evolving

/-!
# The extent of a container

The length, the truth, the elements and the subscripts of a container describe one sequence of
items. The length of a set or a map is a counter, and right because operations keep tables indexed.
-/

namespace ObjectModel

open Effect

variable {α : Type}

/-! ## Indices -/

section Indices

variable {items : List α} {item : α} {sequence : String} {index : Int}

theorem Word.fits_iff : Word.fits index ↔ -(2 ^ 63 : Int) ≤ index ∧ index < 2 ^ 63 := by
  rw [fits, Bool.and_eq_true, decide_eq_true_eq, decide_eq_true_eq]
  rfl

/-- An index means a place from the front, or from the end if it is negative. -/
theorem itemAt_eq_ok {place : Nat} (found : items[place]? = some item)
    (short : items.length < 2 ^ 63) (means : index = place ∨ index = place - items.length) :
    itemAt sequence items index = .ok item := by
  obtain ⟨inside, -⟩ := List.getElem?_eq_some_iff.mp found
  have fits : Word.fits index := Word.fits_iff.mpr (by omega)
  have same_place : (if index < 0 then items.length + index else index) = place := by
    split <;> omega
  have resolves : resolveIndex sequence items.length index = .ok place := by
    rw [resolveIndex, same_place, fits]
    simp [inside]
  rw [itemAt, resolves]
  simp only [bind, Except.bind, found]
  rfl

/-- Other indices fail, and those that fit no word in words of their own. -/
theorem itemAt_eq_error (outside : index < -items.length ∨ items.length ≤ index) :
    itemAt sequence items index =
      .error (if Word.fits index then .indexOutOfRange sequence else .indexTooLarge) := by
  have beyond : ¬(0 ≤ (if index < 0 then items.length + index else index) ∧
      (if index < 0 then items.length + index else index) < items.length) := by
    split <;> omega
  have fails : resolveIndex sequence items.length index =
      .error (if Word.fits index then .indexOutOfRange sequence else .indexTooLarge) := by
    rw [resolveIndex]
    dsimp only
    rw [if_neg beyond]
    cases Word.fits index <;> rfl
  rw [itemAt, fails]
  rfl

/-- The slice from a place to the next one selects the item there. -/
theorem Slice.apply_single {place : Nat} (found : items[place]? = some item) :
    Slice.apply ⟨some place, some (place + 1), none⟩ items = .ok [item] := by
  obtain ⟨inside, rfl⟩ := List.getElem?_eq_some_iff.mp found
  have first_eq : Slice.resolve items.length place = place := by
    rw [Slice.resolve, if_neg (by omega)]
    omega
  have last_eq : Slice.resolve items.length (place + 1) = place + 1 := by
    rw [Slice.resolve, if_neg (by omega)]
    omega
  have window_eq : Slice.window (some place) (some (place + 1)) items = [items[place]] := by
    rw [Slice.window, Option.elim_some, Option.elim_some, first_eq, last_eq, List.drop_take,
      Nat.add_sub_cancel_left, List.drop_eq_getElem_cons inside, List.take_succ_cons,
      List.take_zero]
  rw [Slice.apply]
  simp [window_eq, Slice.stride_cons]

end Indices

/-! ## Subscripts of sequences -/

section Subscripts

variable {world : World} {value index : Value} {parts : List α} {one : α → Value}
  {many : List α → Effect Value} {edition : Edition} {name : String}

/-- How the subscripts of a sequence go through its parts. -/
structure SubscriptsAs (config : Config) (world : World) (value : Value) (edition : Edition)
    (name : String) (parts : List α) (one : α → Value) (many : List α → Effect Value) : Prop where
  items_eq : world.store.items value = parts.map one
  subscript_eq : ∀ index, outcome (value.subscript config index) world =
    outcome (subscriptSequence edition name parts one many index) world
  makes : ∀ selected, ∃ result later, outcome (many selected) world = (.ok result, later) ∧
    result.kind = value.kind ∧ result.holdsItems ∧
      later.store.items result = selected.map one

theorem exists_subscriptsAs (is_sequence : value.isOneOf KindSet.sequences) (config : Config)
    (world : World) :
    ∃ (α : Type) (edition : Edition) (name : String) (parts : List α) (one : α → Value)
      (many : List α → Effect Value),
      SubscriptsAs config world value edition name parts one many := by
  rw [Value.isOneOf, decide_eq_true_eq, KindSet.mem_sequences_iff] at is_sequence
  cases value with
  | list ref =>
      exact ⟨Value, config.edition, "list", world.store.list ref, id, newList,
        (List.map_id _).symm, fun _ => rfl, fun selected => ⟨_, _, rfl, rfl, rfl,
          (Pool.get_push_next _ _).trans (List.map_id _).symm⟩⟩
  | tuple ref =>
      exact ⟨Value, config.edition, "tuple", world.store.tuple ref, id, newTuple,
        (List.map_id _).symm, fun _ => rfl, fun selected => ⟨_, _, rfl, rfl, rfl,
          (Pool.get_push_next _ _).trans (List.map_id _).symm⟩⟩
  | bytearray ref =>
      exact ⟨UInt8, config.edition, "bytearray", world.store.buffer ref, Value.byte, newBytearray,
        rfl, fun _ => rfl, fun selected => ⟨_, _, rfl, rfl, rfl,
          congrArg (List.map Value.byte) (Pool.get_push_next _ _)⟩⟩
  | bytes contents =>
      exact ⟨UInt8, config.edition, "bytes", contents, Value.byte,
        fun bytes => pure (.bytes bytes), rfl, fun _ => rfl,
        fun selected => ⟨_, _, rfl, rfl, rfl, rfl⟩⟩
  | str text =>
      exact ⟨Char, .v34, "string", text.toList, Value.char,
        fun chars => pure (.str (String.ofList chars)), rfl, fun _ => rfl,
        fun selected => ⟨_, _, rfl, rfl, rfl,
          congrArg (List.map Value.char) String.toList_ofList⟩⟩
  | _ => simp [Value.kind] at is_sequence

theorem outcome_subscriptSequence_of_integer {n : Int} (integer : index.integer? = some n) :
    outcome (subscriptSequence edition name parts one many index) world =
      ((itemAt name parts n).map one, world) := by
  unfold subscriptSequence
  cases index with
  | bool | int =>
      dsimp only
      rw [integer]
      dsimp only
      rw [outcome_bind, outcome_ofExcept]
      cases itemAt name parts n <;> rfl
  | _ => contradiction

theorem outcome_subscriptSequence_of_slice {slice : Slice} {selected : List α}
    (selects : slice.apply parts = .ok selected) :
    outcome (subscriptSequence edition name parts one many (.slice slice)) world =
      outcome (many selected) world := by
  rw [subscriptSequence, outcome_bind, outcome_ofExcept, selects]

end Subscripts

/-! ## Containers -/

/-- The items of a container are what its length, its truth and its elements say, and if it is a
sequence, what its subscripts say. -/
structure DescribedBy (context : Context) (world : World) (value : Value) (length : Nat)
    (items : List Value) : Prop where
  /-- A collection yields the items. -/
  collect : ∃ later, outcome (value.collect context) world = (.ok items, later)
  /-- There are as many as the length says. -/
  length_eq : items.length = length
  /-- The container is true if and only if there are some. -/
  truth : world.store.isTruthy value = true ↔ length ≠ 0
  /-- Those of a set or a map are its elements as they stand in its table. -/
  backing : ∀ table, value.table? = some table → items = world.store.elements table
  /-- An integer from zero on is the place of an item. An allocation is never as long as the bound,
  which is where places stop fitting a word. -/
  front : value.isOneOf KindSet.sequences → length < 2 ^ 63 → ∀ (index : Value) (place : Nat),
    index.integer? = some (place : Int) → place < length →
      ∃ item, items[place]? = some item ∧
        outcome (value.subscript context.config index) world = (.ok item, world)
  /-- A negative integer is counted from the end. -/
  back : value.isOneOf KindSet.sequences → length < 2 ^ 63 → ∀ (index : Value) (place : Nat),
    index.integer? = some (place - length : Int) → place < length →
      ∃ item, items[place]? = some item ∧
        outcome (value.subscript context.config index) world = (.ok item, world)
  /-- Every other integer fails as an index does, in words of their own those that fit no word. -/
  outside : value.isOneOf KindSet.sequences → ∀ (index : Value) (n : Int),
    index.integer? = some n → n < -length ∨ length ≤ n →
      ∃ fault, outcome (value.subscript context.config index) world = (.error fault, world) ∧
        fault.category = .indexError ∧ (fault = .indexTooLarge ↔ ¬Word.fits n)
  /-- The slice from a place to the next one makes a value of the same kind with the item there. -/
  single : value.isOneOf KindSet.sequences → ∀ place : Nat, place < length →
    ∃ item selected later after, items[place]? = some item ∧
      outcome (value.subscript context.config (.slice ⟨some place, some (place + 1), none⟩)) world =
        (.ok selected, later) ∧ selected.kind = value.kind ∧
          outcome (selected.collect context) later = (.ok [item], after)

section Containers

variable {context : Context} {world : World} {value : Value} {length : Nat}

/-- What has a length and can be iterated over holds items. -/
theorem holdsItems_of_length (has_length : world.store.length? value = some length)
    (iterable : ∃ iterator opened, outcome value.iter world = (.ok iterator, opened)) :
    value.holdsItems := by
  obtain ⟨iterator, opened, asks⟩ := iterable
  cases value with
  | hostObject ref => exact nomatch congrArg Prod.fst asks
  | _ => first | rfl | contradiction

/-- The length counts the items, as tables are indexed. -/
theorem length_items (indexed : world.store.Indexed) (holds : value.holdsItems)
    (has_length : world.store.length? value = some length) :
    (world.store.items value).length = length := by
  have of_table (ref : Ref) : (world.store.elements ref).length = (world.store.table ref).size := by
    rw [(indexed ref).size_eq, Store.elements, Table.keys, List.length_map]
  cases value with
  | set ref | frozenset ref | dict ref => exact (of_table ref).trans (Option.some.inj has_length)
  | list | tuple => exact Option.some.inj has_length
  | bytes | bytearray =>
      rw [Store.items, List.length_map]
      exact Option.some.inj has_length
  | str text =>
      rw [Store.items, List.length_map, String.length_toList]
      exact Option.some.inj has_length
  | _ => contradiction

theorem isTruthy_iff (holds : value.holdsItems)
    (has_length : world.store.length? value = some length) :
    world.store.isTruthy value = true ↔ length ≠ 0 := by
  have by_length : world.store.isTruthy value = (world.store.length? value).all (· != 0) := by
    cases value <;> first | rfl | contradiction
  rw [by_length, has_length]
  simp

theorem outcome_subscript_of_place {index : Value} {n : Int} {place : Nat} {config : Config}
    (is_sequence : value.isOneOf KindSet.sequences)
    (length_eq : (world.store.items value).length = length) (short : length < 2 ^ 63)
    (integer : index.integer? = some n) (inside : place < length)
    (means : n = place ∨ n = place - length) :
    ∃ item, (world.store.items value)[place]? = some item ∧
      outcome (value.subscript config index) world = (.ok item, world) := by
  obtain ⟨α, edition, name, parts, one, many, items_eq, subscript_eq, -⟩ :=
    exists_subscriptsAs is_sequence config world
  rw [items_eq, List.length_map] at length_eq
  subst length_eq
  have found := List.getElem?_eq_getElem inside
  refine ⟨one parts[place], ?_, ?_⟩
  · rw [items_eq, List.getElem?_map, found]
    rfl
  · rw [subscript_eq, outcome_subscriptSequence_of_integer integer,
      itemAt_eq_ok found short means]
    rfl

theorem describedBy_items (indexed : world.store.Indexed) (holds : value.holdsItems)
    (has_length : world.store.length? value = some length) :
    DescribedBy context world value length (world.store.items value) := by
  have length_eq := length_items indexed holds has_length
  obtain ⟨after, collects, -⟩ := exists_outcome_collect holds context world
  constructor
  case collect => exact ⟨after, collects⟩
  case length_eq => exact length_eq
  case truth => exact isTruthy_iff holds has_length
  case backing =>
    intro table of_value
    cases value <;> first
      | contradiction
      | exact congrArg world.store.elements (Option.some.inj of_value)
  case front =>
    intro is_sequence short index place integer inside
    exact outcome_subscript_of_place is_sequence length_eq short integer inside (.inl rfl)
  case back =>
    intro is_sequence short index place integer inside
    exact outcome_subscript_of_place is_sequence length_eq short integer inside (.inr rfl)
  case outside =>
    intro is_sequence index n integer outside
    obtain ⟨α, edition, name, parts, one, many, items_eq, subscript_eq, -⟩ :=
      exists_subscriptsAs is_sequence context.config world
    rw [items_eq, List.length_map] at length_eq
    rw [subscript_eq, outcome_subscriptSequence_of_integer integer,
      itemAt_eq_error (length_eq ▸ outside)]
    refine ⟨_, rfl, ?_, ?_⟩
    · cases Word.fits n <;> rfl
    · cases Word.fits n <;> simp
  case single =>
    intro is_sequence place inside
    obtain ⟨α, edition, name, parts, one, many, items_eq, subscript_eq, makes⟩ :=
      exists_subscriptsAs is_sequence context.config world
    rw [items_eq, List.length_map] at length_eq
    have found := List.getElem?_eq_getElem (length_eq.symm ▸ inside)
    obtain ⟨result, later, made, kind_eq, result_holds, result_items⟩ := makes [parts[place]]
    obtain ⟨after, collects, -⟩ := exists_outcome_collect result_holds context later
    refine ⟨one parts[place], result, later, after, ?_, ?_, kind_eq, ?_⟩
    · rw [items_eq, List.getElem?_map, found]
      rfl
    · rw [subscript_eq, outcome_subscriptSequence_of_slice (Slice.apply_single found), made]
    · rw [collects, result_items]
      rfl

/-- In every world that operations can lead to from an empty store, the length, the truth, the
elements and the subscripts of whatever has a length and can be iterated over describe one sequence
of items. -/
theorem exists_describedBy (hosts : HostsEvolve Store.Anyhow context.function?)
    {operations : List Operation}
    (bodies : ∀ operation ∈ operations, operation.BodyEvolves Store.Anyhow context)
    (console : Console)
    (has_length : (Operation.performAll context operations { console }).store.length? value =
      some length)
    (iterable : ∃ iterator opened,
      outcome value.iter (Operation.performAll context operations { console }) =
        (.ok iterator, opened)) :
    ∃ items, DescribedBy context (Operation.performAll context operations { console }) value length
      items := by
  have evolves := Operation.evolves_performAll
    (fun operation member => Operation.evolves_perform_anyhow hosts (bodies operation member))
    { console }
  exact ⟨_, describedBy_items (evolves.indexed Store.indexed_empty)
    (holdsItems_of_length has_length iterable) has_length⟩

/-- A set that lacks its first element, and a list of that set and a number. -/
def gapped : List Operation :=
  [.newSet .mutable [.int 1, .int 2, .int 3], .callMethod (.set ⟨0⟩) "remove" [.int 1],
    .newList [.set ⟨0⟩, .int 4]]

/-- The set has a length of two, with an empty slot before its elements. -/
theorem exists_describedBy_gapped :
    (∀ operation ∈ gapped, operation.BodyEvolves Store.Anyhow {}) ∧
      (Operation.performAll {} gapped {}).store.length? (.set ⟨0⟩) = some 2 ∧
        ∃ items, DescribedBy {} (Operation.performAll {} gapped {}) (.set ⟨0⟩) 2 items := by
  have bodies : ∀ operation ∈ gapped, operation.BodyEvolves Store.Anyhow {} := by
    intro operation member source body is_loop
    simp [gapped, is_loop] at member
  have has_length : (Operation.performAll {} gapped {}).store.length? (.set ⟨0⟩) = some 2 := by cbv
  exact ⟨bodies, has_length,
    exists_describedBy hostsEvolve_default bodies {} has_length ⟨_, _, rfl⟩⟩

end Containers

end ObjectModel
