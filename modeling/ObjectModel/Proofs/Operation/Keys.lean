import ObjectModel.Proofs.Effect.Failure
import ObjectModel.Proofs.Table.Association

/-!
# Keys come first

What makes a set or a map hashes the keys one by one, and what is done with one key of a set or a
map begins with the hash of that key. So a value that cannot be a key is refused before anything is
looked up or changed, whatever the set or the map holds, and nothing else is refused in its words.
-/

namespace ObjectModel

open Effect

namespace KeyOperation

/-- The key that is stored, removed or sought. -/
def key? : KeyOperation → Option Value
  | insert key _ | remove key | get key | contains key => some key
  | _ => none

end KeyOperation

namespace Operation

/-- The keys that a set or a map is made of. -/
def madeOf? : Operation → Option (List Value)
  | newSet _ elements => some elements
  | newDict pairs => some (pairs.map (·.1))
  | _ => none

/-- The key of a set or a map that is stored, removed or sought. -/
def key? : Operation → Option Value
  | contains (.set _) item | contains (.frozenset _) item | contains (.dict _) item => some item
  | subscript (.dict _) index => some index
  | callMethod (.set _) "add" [element] | callMethod (.set _) "remove" [element] => some element
  | setKey _ key _ => some key
  | addElement _ _ element | removeElement _ _ element => some element
  | _ => none

end Operation

/-- Which values cannot be keys in a world, and what is refused for them. -/
structure RefusesKeys (context : Context) (world : World) : Prop where
  /-- A value has no hash if and only if it, or a value inside it at some depth of tuples, is of a
  kind without hashes. -/
  hash_fails : ∀ value, (∃ fault, world.store.hash value = .error fault) ↔
    ∃ inner, Value.Reaches world.store.tupleItems value inner ∧ inner.kind ∈ Kind.unhashable
  /-- The fault names the kind of the first such value. -/
  hash_fault : ∀ value fault, world.store.hash value = .error fault ↔
    ∃ kind, world.store.Refuses value kind ∧ fault = .unhashable kind
  /-- The fault is an error of kinds. -/
  report : ∀ kind, (Fault.unhashable kind).category = .typeError ∧
    (Fault.unhashable kind).message = "unhashable type: '" ++ kind.name ++ "'"
  /-- Sets and maps are made of all keys but these, and the first one of these is refused. -/
  makes : ∀ operation keys, Operation.madeOf? operation = some keys → ∀ fault later,
    outcome (operation.perform context) world = (.error fault, later) ↔
      later = world ∧ ∃ kind, world.store.RefusesOneOf keys kind ∧ fault = .unhashable kind
  /-- A set or a map refuses a key whatever it holds, and stays as it is. -/
  uses : ∀ operation key, Operation.key? operation = some key → ∀ kind later,
    outcome (operation.perform context) world = (.error (.unhashable kind), later) ↔
      later = world ∧ world.store.Refuses key kind
  /-- So does every table. -/
  tables : ∀ operation key, KeyOperation.key? operation = some key → ∀ table kind,
    operation.onTable world.store table = .error (.unhashable kind) ↔
      world.store.Refuses key kind

namespace Store

variable {store : Store} {table : Table Value Value} {key value : Value} {fault : Fault}
  {kind : Kind}

theorem entryFor?_eq_error_iff {equal : Value → Value → Bool} :
    store.entryFor? equal table key = .error fault ↔ store.hash key = .error fault := by
  rw [entryFor?, bind_pure_eq_error_iff]

theorem hasKey_eq_error_iff :
    store.hasKey table key = .error fault ↔ store.hash key = .error fault := by
  rw [hasKey, bind_pure_eq_error_iff, entryFor?_eq_error_iff]

theorem lookup?_eq_error_iff :
    store.lookup? table key = .error fault ↔ store.hash key = .error fault := by
  rw [lookup?, bind_pure_eq_error_iff, entryFor?_eq_error_iff]

/-- A removal fails in the words for keys without a hash on nothing else. -/
theorem eraseKey_eq_error_iff :
    store.eraseKey table key = .error (.unhashable kind) ↔
      store.hash key = .error (.unhashable kind) := by
  rw [eraseKey, bind_eq_error_iff]
  refine or_iff_left ?_
  rintro ⟨hash, -, fails⟩
  split at fails <;> cases fails

end Store

variable {α β : Type} {context : Context} {world later : World} {fault : Fault} {key value : Value}
  {ref : Ref}

/-! ## Sets and maps that are made -/

theorem succeeds_newTable_bind (table : Table Value Value) (make : Ref → α) :
    Succeeds (newTable table >>= fun ref => pure (make ref)) :=
  (succeeds_newTable table).bind fun _ => succeeds_pure _

/-- What makes a set or a map fails on nothing but its keys. -/
theorem outcome_perform_of_madeOf? {operation : Operation} {keys : List Value}
    (made : operation.madeOf? = some keys) :
    outcome (operation.perform context) world = (.error fault, later) ↔
      later = world ∧ keys.mapM world.store.hash = .error fault := by
  cases operation with
  | newSet sort elements =>
      obtain rfl := Option.some.inj made
      have same_keys : (elements.map fun element => (element, element)).map (·.1) = elements := by
        simp [Function.comp_def]
      rw [Operation.perform, outcome_bind_pure_eq_error_iff, newSet,
        outcome_read_bind_eq_error_iff fun table => succeeds_newTable_bind table _,
        Store.tableOfElements_eq, Store.tableOfPairs, Store.insertPairs_eq_error_iff, same_keys]
  | newDict pairs =>
      obtain rfl := Option.some.inj made
      rw [Operation.perform,
        outcome_read_bind_eq_error_iff fun table => succeeds_newTable_bind table _,
        Store.tableOfPairs, Store.insertPairs_eq_error_iff]
  | _ => contradiction

/-! ## Keys that are stored, removed or sought -/

/-- An effect fails in the words for keys without a hash just if the key has none, and leaves the
world as it was. -/
def Effect.ChecksKey (world : World) (key : Value) (effect : Effect α) : Prop :=
  ∀ kind later, outcome effect world = (.error (.unhashable kind), later) ↔
    later = world ∧ world.store.hash key = .error (.unhashable kind)

theorem Effect.ChecksKey.thenReturn {effect : Effect α} (checks : ChecksKey world key effect)
    (result : α → β) : ChecksKey world key (effect >>= fun found => pure (result found)) :=
  fun kind later => outcome_bind_pure_eq_error_iff.trans (checks kind later)

theorem checksKey_hasKey (table : Ref) (result : Bool → α) :
    ChecksKey world key
      (read (fun store => store.hasKey (store.table table) key) >>= fun found =>
        pure (result found)) :=
  fun _ _ => (outcome_read_bind_eq_error_iff fun _ => succeeds_pure _).trans
    (and_congr_right' Store.hasKey_eq_error_iff)

theorem checksKey_setKey : ChecksKey world key (setKey ref key value) :=
  fun _ _ => (outcome_read_bind_eq_error_iff fun _ => succeeds_modifyStore _).trans
    (and_congr_right' Store.insertKey_eq_error_iff)

theorem checksKey_removeElement : ChecksKey world key (removeElement ref key) :=
  fun _ _ => (outcome_read_bind_eq_error_iff fun _ => succeeds_modifyStore _).trans
    (and_congr_right' Store.eraseKey_eq_error_iff)

/-- A missing key is reported in other words than one without a hash. -/
theorem checksKey_subscript (config : Config) :
    ChecksKey world key ((Value.dict ref).subscript config key) := by
  intro kind later
  have lookup_fails : world.store.lookup? (world.store.table ref) key = .error (.unhashable kind) ↔
      world.store.hash key = .error (.unhashable kind) :=
    Store.lookup?_eq_error_iff
  rw [Value.subscript, outcome_bind_of_ok (outcome_getStore world), outcome_bind, outcome_ofExcept,
    ← lookup_fails]
  cases world.store.lookup? (world.store.table ref) key with
  | error cause => simp [and_comm, eq_comm]
  | ok found => cases found <;> simp

theorem callMethod_add (element : Value) :
    (Value.set ref).callMethod context "add" [element] =
      (setKey ref element element >>= fun _ => pure .none) := by
  rw [Value.callMethod, callSetMethod]
  rfl

theorem callMethod_remove (element : Value) :
    (Value.set ref).callMethod context "remove" [element] =
      (removeElement ref element >>= fun _ => pure .none) := by
  rw [Value.callMethod, callSetMethod]
  rfl

theorem checksKey_perform {operation : Operation} (about : operation.key? = some key) :
    ChecksKey world key (operation.perform context) := by
  unfold Operation.key? at about
  split at about
  · exact Option.some.inj about ▸ checksKey_hasKey _ _
  · exact Option.some.inj about ▸ checksKey_hasKey _ _
  · exact Option.some.inj about ▸ checksKey_hasKey _ _
  · exact Option.some.inj about ▸ (checksKey_subscript context.config).thenReturn _
  · rw [Operation.perform, callMethod_add]
    exact Option.some.inj about ▸ (checksKey_setKey.thenReturn _).thenReturn _
  · rw [Operation.perform, callMethod_remove]
    exact Option.some.inj about ▸ (checksKey_removeElement.thenReturn _).thenReturn _
  · exact Option.some.inj about ▸ checksKey_setKey.thenReturn _
  · exact Option.some.inj about ▸ checksKey_setKey.thenReturn _
  · exact Option.some.inj about ▸ checksKey_removeElement.thenReturn _
  · contradiction

theorem onTable_eq_unhashable_iff {operation : KeyOperation} (about : operation.key? = some key)
    (store : Store) (table : Table Value Value) (kind : Kind) :
    operation.onTable store table = .error (.unhashable kind) ↔
      store.hash key = .error (.unhashable kind) := by
  cases operation with
  | insert other value =>
      obtain rfl := Option.some.inj about
      rw [KeyOperation.onTable, bind_pure_eq_error_iff, Store.insertKey_eq_error_iff]
  | remove other =>
      obtain rfl := Option.some.inj about
      rw [KeyOperation.onTable, bind_pure_eq_error_iff, Store.eraseKey_eq_error_iff]
  | get other =>
      obtain rfl := Option.some.inj about
      rw [KeyOperation.onTable, bind_eq_error_iff, Store.lookup?_eq_error_iff]
      refine or_iff_left ?_
      rintro ⟨found, -, fails⟩
      cases fails
  | contains other =>
      obtain rfl := Option.some.inj about
      rw [KeyOperation.onTable, bind_pure_eq_error_iff, Store.hasKey_eq_error_iff]
  | _ => contradiction

/-- Values that cannot be keys are told by their kinds, and refused before all else. No tuple of the
store may be inside itself, and none is if each has only tuples that were made before it
(`Store.acyclic_of_earlier`). -/
theorem refusesKeys (context : Context) (world : World)
    (acyclic : ∀ value, Value.Acyclic world.store.tupleItems value) :
    RefusesKeys context world := by
  have unhashable_iff (key : Value) (kind : Kind) :
      world.store.hash key = .error (.unhashable kind) ↔ world.store.Refuses key kind := by
    rw [Store.hash_eq_error_iff (acyclic key)]
    exact ⟨fun ⟨_, refuses, same⟩ => Fault.unhashable.inj same ▸ refuses,
      fun refuses => ⟨kind, refuses, rfl⟩⟩
  exact
    { hash_fails := fun value => Store.exists_hash_error_iff (acyclic value)
      hash_fault := fun value fault => Store.hash_eq_error_iff (acyclic value)
      report := fun kind => ⟨rfl, rfl⟩
      makes := fun operation keys made fault later =>
        (outcome_perform_of_madeOf? made).trans
          (and_congr_right' (Store.mapM_hash_eq_error_iff fun key _ => acyclic key))
      uses := fun operation key about kind later =>
        (checksKey_perform about kind later).trans (and_congr_right' (unhashable_iff key kind))
      tables := fun operation key about table kind =>
        (onTable_eq_unhashable_iff about world.store table kind).trans (unhashable_iff key kind) }

/-- A world with a tuple in a tuple. The inner one has a frozenset, and behind it a list and a
map. -/
def laden : World where
  store :=
    { tuples := ⟨#[[.int 1, .frozenset ⟨0⟩, .list ⟨0⟩, .dict ⟨1⟩],
        [.str "a", .tuple ⟨0⟩, .set ⟨0⟩]]⟩
      lists := ⟨#[[]]⟩
      tables := ⟨#[∅, ∅]⟩ }

/-- The list is to blame, the value with it is the first one refused in a set, and an empty map
refuses it too. -/
theorem refusesKeys_laden :
    (∀ value, Value.Acyclic laden.store.tupleItems value) ∧
      laden.store.Refuses (.tuple ⟨1⟩) .list ∧
      outcome ((Operation.newSet .frozen [.int 1, .tuple ⟨1⟩, .dict ⟨1⟩]).perform {}) laden =
        (.error (.unhashable .list), laden) ∧
      outcome ((Operation.contains (.dict ⟨1⟩) (.tuple ⟨1⟩)).perform {}) laden =
        (.error (.unhashable .list), laden) ∧
      (KeyOperation.remove (.tuple ⟨1⟩)).onTable laden.store ∅ = .error (.unhashable .list) := by
  have acyclic (value : Value) : Value.Acyclic laden.store.tupleItems value := by
    refine Store.acyclic_of_earlier ?_ value
    rintro ⟨_ | _ | index⟩ inner member
    · simp [laden, Store.tuple, Pool.get] at member
    · obtain rfl : inner = ⟨0⟩ := by simpa [laden, Store.tuple, Pool.get] using member
      exact Nat.zero_lt_one
    · exact absurd member List.not_mem_nil
  have refuses := refusesKeys {} laden acyclic
  have refused : laden.store.Refuses (.tuple ⟨1⟩) .list := by
    obtain ⟨kind, refused, same⟩ := (refuses.hash_fault (.tuple ⟨1⟩) (.unhashable .list)).mp rfl
    exact Fault.unhashable.inj same ▸ refused
  have integer_hashes (kind : Kind) : ¬ laden.store.Refuses (.int 1) kind :=
    fun refused => refused.hash_ne_ok _ rfl
  have one_refused : laden.store.RefusesOneOf [.int 1, .tuple ⟨1⟩, .dict ⟨1⟩] .list :=
    ⟨[.int 1], .tuple ⟨1⟩, [.dict ⟨1⟩], rfl, by simpa using integer_hashes, refused⟩
  exact ⟨acyclic, refused, (refuses.makes _ _ rfl _ _).mpr ⟨rfl, _, one_refused, rfl⟩,
    (refuses.uses _ _ rfl _ _).mpr ⟨rfl, refused⟩, (refuses.tables _ _ rfl ∅ _).mpr refused⟩

end ObjectModel
