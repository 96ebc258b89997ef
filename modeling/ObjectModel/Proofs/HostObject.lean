import ObjectModel.Builtin
import ObjectModel.Proofs.Outcome
import ObjectModel.Proofs.Store.Stability
import ObjectModel.Proofs.Table.Association
import ObjectModel.Store.Membership
import ObjectModel.Subscript
import Mathlib.Data.List.Dedup
import Mathlib.Data.List.Induction

/-!
# Maps of host objects

A host object is a list of fields, several of which can have one name, and it is searched from the
front. The map of its fields takes them up one by one, and a field takes the place of an earlier one
with its name. So both have the same names, but of each name the host object tells the first field
and the map the last, and only the host object counts the others. The table of the map is compared
with a list of fields of different names, which is all that it shows.
-/

namespace ObjectModel

open Digest Effect

/-! ## Fields of different names -/

namespace Fields

variable {α : Type} {name : String} {fields : List (String × α)} {field : String × α}

/-- The names of fields. -/
def names (fields : List (String × α)) : List String :=
  fields.map (·.1)

/-- Puts a field among others. It takes the place of the one with its name; without one, it comes
behind all others. -/
def put (field : String × α) : List (String × α) → List (String × α)
  | [] => [field]
  | other :: fields => if other.1 = field.1 then field :: fields else other :: put field fields

/-- What is left of fields that are put one by one. -/
def settle (fields : List (String × α)) : List (String × α) :=
  fields.foldl (fun settled field => put field settled) []

theorem settle_append_singleton (fields : List (String × α)) (field : String × α) :
    settle (fields ++ [field]) = put field (settle fields) := by
  rw [settle, List.foldl_append, List.foldl_cons, List.foldl_nil, settle]

theorem lookup_cons :
    (field :: fields).lookup name =
      if name = field.1 then some field.2 else fields.lookup name := by
  obtain ⟨first, value⟩ := field
  rw [List.lookup_cons]
  by_cases is_name : name = first
  · rw [if_pos is_name, beq_iff_eq.mpr is_name]
  · rw [if_neg is_name, beq_false_of_ne is_name]

/-- A field that is put is found under its name, and hides no other name. -/
theorem lookup_put :
    (put field fields).lookup name =
      if name = field.1 then some field.2 else fields.lookup name := by
  induction fields with
  | nil => rw [put, lookup_cons]
  | cons other fields induction =>
      by_cases same : other.1 = field.1
      · rw [put, if_pos same, lookup_cons, lookup_cons, same]
        split <;> rfl
      · rw [put, if_neg same, lookup_cons, lookup_cons, induction]
        by_cases is_name : name = field.1
        · rw [if_pos is_name, if_pos is_name, if_neg (is_name ▸ Ne.symm same)]
        · rw [if_neg is_name, if_neg is_name]

theorem names_cons : names (field :: fields) = field.1 :: names fields :=
  rfl

theorem length_names (fields : List (String × α)) : (names fields).length = fields.length :=
  List.length_map _

theorem names_put :
    names (put field fields) =
      if field.1 ∈ names fields then names fields else names fields ++ [field.1] := by
  induction fields with
  | nil => rfl
  | cons other fields induction =>
      by_cases same : other.1 = field.1
      · rw [put, if_pos same, names_cons, names_cons, same, if_pos List.mem_cons_self]
      · rw [put, if_neg same, names_cons, names_cons, induction, apply_ite (other.1 :: ·)]
        simp only [List.mem_cons, Ne.symm same, false_or, List.cons_append]

/-- The last field of a name is left. -/
theorem lookup_settle : (settle fields).lookup name = fields.reverse.lookup name := by
  induction fields using List.reverseRecOn with
  | nil => rfl
  | append_singleton fields field induction =>
      rw [settle_append_singleton, lookup_put, induction, List.reverse_append,
        List.reverse_singleton, List.singleton_append, lookup_cons]

/-- Each name keeps its first place. -/
theorem names_settle : names (settle fields) = (names fields).reverse.dedup.reverse := by
  induction fields using List.reverseRecOn with
  | nil => rfl
  | append_singleton fields field induction =>
      have names_append :
          (names (fields ++ [field])).reverse = field.1 :: (names fields).reverse := by
        simp [names]
      rw [settle_append_singleton, names_put, induction, names_append]
      by_cases member : field.1 ∈ names fields
      · rw [List.dedup_cons_of_mem (List.mem_reverse.mpr member), if_pos (by simpa using member)]
      · rw [List.dedup_cons_of_notMem (by simpa using member), if_neg (by simpa using member),
          List.reverse_cons]

theorem isSome_lookup : (fields.lookup name).isSome = decide (name ∈ names fields) := by
  rw [Bool.eq_iff_iff, List.lookup_isSome_iff, decide_eq_true_iff, names, List.mem_map]
  simp only [beq_iff_eq, eq_comm (a := name)]

theorem map_find?_eq_lookup :
    (fields.find? fun field => name == field.1).map (·.2) = fields.lookup name := by
  induction fields with
  | nil => rfl
  | cons field fields induction =>
      rw [List.find?_cons, List.lookup_cons]
      cases name == field.1 with
      | true => rfl
      | false => exact induction

/-- The last field of a name is the first one if there are no two. -/
theorem lookup_reverse_of_count_le_one (few : (names fields).count name ≤ 1) :
    fields.reverse.lookup name = fields.lookup name := by
  induction fields with
  | nil => rfl
  | cons field fields induction =>
      rw [names_cons, List.count_cons] at few
      rw [List.reverse_cons, List.lookup_append, lookup_cons, lookup_cons, List.lookup_nil]
      by_cases is_name : name = field.1
      · have behind : (names fields).count name = 0 := by
          simpa [is_name] using few
        have none_behind : fields.lookup name = none := by
          rw [← Option.not_isSome_iff_eq_none, isSome_lookup, decide_eq_true_iff]
          exact List.count_eq_zero.mp behind
        rw [induction (behind.trans_le (Nat.zero_le 1)), none_behind, Option.none_or]
      · rw [induction (Nat.le_of_add_right_le few), if_neg is_name, if_neg is_name, Option.or_none]

end Fields

open Fields

/-! ## Tables of fields -/

/-- The hash of a text, in which no store takes part. -/
def textHash (text : String) : UInt64 :=
  tagged .text (wordsOfText text)

/-- The entry of a field: its name is the key. -/
def entryOfField (field : String × Value) : Entry Value Value :=
  ⟨textHash field.1, .str field.1, field.2⟩

/-- A table has certain fields as its entries. -/
structure Table.HoldsFields (table : Table Value Value) (fields : List (String × Value)) :
    Prop where
  indexed : table.Indexed
  entries_eq : table.entries = fields.map entryOfField

namespace Store

variable {store : Store} {table : Table Value Value} {fields : List (String × Value)}
  {field : String × Value} {name : String}

theorem hash_str (store : Store) (text : String) :
    store.hash (.str text) = .ok (textHash text) :=
  rfl

theorem equals_str (store : Store) (left right : String) :
    store.equals (.str left) (.str right) = (left == right) := by
  change (Value.str left == Value.str right) = (left == right)
  rw [Bool.eq_iff_iff, beq_iff_eq, beq_iff_eq, Value.str.injEq]

theorem isMatch_entryOfField :
    (entryOfField field).isMatch (textHash name) (store.equals · (.str name)) =
      (name == field.1) := by
  rw [Entry.isMatch, entryOfField, equals_str]
  by_cases same : name = field.1
  · rw [same, beq_self_eq_true, beq_self_eq_true, Bool.and_self]
  · rw [beq_false_of_ne (Ne.symm same), Bool.and_false, beq_false_of_ne same]

theorem insert_map_entryOfField :
    AssociationList.insert (textHash field.1) (store.equals · (.str field.1)) (.str field.1) field.2
        (fields.map entryOfField) =
      (put field fields).map entryOfField := by
  induction fields with
  | nil => rfl
  | cons other fields induction =>
      rw [List.map_cons, AssociationList.insert, put, isMatch_entryOfField, induction]
      by_cases same : other.1 = field.1
      · rw [if_pos same, if_pos (beq_iff_eq.mpr same.symm), List.map_cons, entryOfField,
          entryOfField, same]
      · rw [if_neg same, if_neg (by simpa using Ne.symm same), List.map_cons]

theorem entryFor?_eq_of_holdsFields (holds : table.HoldsFields fields) :
    store.entryFor? store.equals table (.str name) =
      .ok ((fields.find? fun field => name == field.1).map entryOfField) := by
  have same_test : Entry.isMatch (textHash name) (store.equals · (.str name)) ∘ entryOfField =
      fun field => name == field.1 := by
    funext field
    rw [Function.comp_apply, isMatch_entryOfField]
  have finds : table.get? (textHash name) (store.equals · (.str name)) =
      (fields.find? fun field => name == field.1).map entryOfField := by
    rw [holds.indexed.get?_eq, holds.entries_eq, List.find?_map, same_test]
  rw [entryFor?, hash_str, ← finds]
  rfl

/-- The value of a name is that of its first field. -/
theorem lookup?_eq_of_holdsFields (holds : table.HoldsFields fields) :
    store.lookup? table (.str name) = .ok (fields.lookup name) := by
  rw [lookup?, entryFor?_eq_of_holdsFields holds, ← map_find?_eq_lookup]
  exact congrArg Except.ok (Option.map_map _ _ _)

theorem hasKey_eq_of_holdsFields (holds : table.HoldsFields fields) :
    store.hasKey table (.str name) = .ok (decide (name ∈ names fields)) := by
  rw [hasKey, entryFor?_eq_of_holdsFields holds, ← isSome_lookup, ← map_find?_eq_lookup,
    Option.isSome_map]
  exact congrArg Except.ok Option.isSome_map

theorem exists_insertKey_of_holdsFields (store : Store) (holds : table.HoldsFields fields)
    (field : String × Value) :
    ∃ after, store.insertKey table (.str field.1) field.2 = .ok after ∧
      after.HoldsFields (put field fields) :=
  ⟨_, insertKey_eq_ok.mpr ⟨_, hash_str store field.1, rfl⟩,
    { indexed := holds.indexed.insert _ _ _ _
      entries_eq := by
        rw [holds.indexed.entries_insert, holds.entries_eq, insert_map_entryOfField] }⟩

/-- The fields of a host object make up a table, and those that are left when they are put one by
one are its entries. -/
theorem exists_tableOfPairs_fields (store : Store) (fields : List (String × Value)) :
    ∃ table, store.tableOfPairs (fields.map fun field => (.str field.1, field.2)) = .ok table ∧
      table.HoldsFields (settle fields) := by
  induction fields using List.reverseRecOn with
  | nil => exact ⟨∅, rfl, ⟨Table.indexed_empty, rfl⟩⟩
  | append_singleton fields field induction =>
      obtain ⟨table, makes, holds⟩ := induction
      obtain ⟨after, inserts, holds_after⟩ := exists_insertKey_of_holdsFields store holds field
      refine ⟨after, ?_, settle_append_singleton fields field ▸ holds_after⟩
      rw [tableOfPairs] at makes
      rw [tableOfPairs, List.map_append, List.foldlM_append, makes]
      change store.insertKey table (.str field.1) field.2 >>= pure = _
      rw [inserts]
      rfl

/-- What a subscript by a name ends with: the value that is found, or the fault that the name is
missing. -/
def valueOf (store : Store) (name : String) : Option Value → Except Fault Value
  | some value => .ok value
  | none => .error (.missingKey (store.repr (.str name)))

end Store

/-! ## The map of a host object -/

variable {config : Config} {world : World} {record table : Ref} {name : String}

/-- Two values answer alike for names: both have the same ones, look the same up, and are of one
length. -/
structure MapsAlike (config : Config) (world : World) (left right : Value) : Prop where
  contains_eq : ∀ name,
    world.store.contains left (.str name) = world.store.contains right (.str name)
  subscript_eq : ∀ name,
    outcome (left.subscript config (.str name)) world =
      outcome (right.subscript config (.str name)) world
  length_eq : world.store.length? left = world.store.length? right

/-- A map with the fields of a host object, next to the host object itself. -/
structure WrapsFields (config : Config) (world : World) (record table : Ref) : Prop where
  /-- Each name is a key once, in the place of its first field. -/
  keys_eq : world.store.elements table =
    (names (world.store.record record)).reverse.dedup.reverse.map .str
  /-- Both have the same names. -/
  contains_eq : ∀ name,
    world.store.contains (.dict table) (.str name) =
      world.store.contains (.hostObject record) (.str name)
  contains_record : ∀ name,
    world.store.contains (.hostObject record) (.str name) =
      .ok (decide (name ∈ names (world.store.record record)))
  /-- The map looks the last field of a name up. -/
  subscript_map : ∀ name,
    outcome ((Value.dict table).subscript config (.str name)) world =
      (world.store.valueOf name ((world.store.record record).reverse.lookup name), world)
  /-- The host object looks the first one up. -/
  subscript_record : ∀ name,
    outcome ((Value.hostObject record).subscript config (.str name)) world =
      (world.store.valueOf name ((world.store.record record).lookup name), world)
  /-- They end alike if there are no two. -/
  subscript_eq : ∀ name, (names (world.store.record record)).count name ≤ 1 →
    outcome ((Value.dict table).subscript config (.str name)) world =
      outcome ((Value.hostObject record).subscript config (.str name)) world
  /-- The map counts each name once. -/
  length_map : world.store.length? (.dict table) =
    some (names (world.store.record record)).dedup.length
  /-- The host object counts all fields. -/
  length_record : world.store.length? (.hostObject record) =
    some (world.store.record record).length
  /-- So there is no difference if and only if the fields have different names. -/
  mapsAlike_iff : MapsAlike config world (.dict table) (.hostObject record) ↔
    (names (world.store.record record)).Nodup

theorem contains_hostObject :
    world.store.contains (.hostObject record) (.str name) =
      .ok (decide (name ∈ names (world.store.record record))) := by
  rw [Store.contains, ← isSome_lookup, ← map_find?_eq_lookup, Option.isSome_map, List.isSome_find?]
  rfl

theorem outcome_subscript_hostObject :
    outcome ((Value.hostObject record).subscript config (.str name)) world =
      (world.store.valueOf name ((world.store.record record).lookup name), world) := by
  have finds : ((world.store.record record).find? fun field =>
      (Value.str name).text? == some field.1) =
      (world.store.record record).find? fun field => name == field.1 :=
    rfl
  rw [Value.subscript, outcome_bind_of_ok (outcome_getStore world), ← map_find?_eq_lookup]
  simp only [finds]
  cases (world.store.record record).find? fun field => name == field.1 with
  | none => rfl
  | some field => rfl

section HoldsFields

variable (holds : (world.store.table table).HoldsFields (settle (world.store.record record)))

include holds

theorem contains_dict_of_holdsFields :
    world.store.contains (.dict table) (.str name) =
      .ok (decide (name ∈ names (world.store.record record))) := by
  rw [Store.contains, Store.hasKey_eq_of_holdsFields holds]
  simp only [names_settle, List.mem_reverse, List.mem_dedup]

theorem outcome_subscript_dict_of_holdsFields :
    outcome ((Value.dict table).subscript config (.str name)) world =
      (world.store.valueOf name ((world.store.record record).reverse.lookup name), world) := by
  rw [Value.subscript, outcome_bind_of_ok (outcome_getStore world), outcome_bind,
    outcome_ofExcept, Store.lookup?_eq_of_holdsFields holds, lookup_settle]
  cases (world.store.record record).reverse.lookup name with
  | none => rfl
  | some value => rfl

theorem elements_of_holdsFields :
    world.store.elements table =
      (names (world.store.record record)).reverse.dedup.reverse.map .str := by
  rw [Store.elements, Table.keys, holds.entries_eq, ← names_settle, names, List.map_map,
    List.map_map]
  rfl

theorem length?_dict_of_holdsFields :
    world.store.length? (.dict table) = some (names (world.store.record record)).dedup.length := by
  have size_eq : (world.store.table table).size = (world.store.elements table).length := by
    rw [holds.indexed.size_eq, Store.elements, Table.keys, List.length_map]
  rw [Store.length?, size_eq, elements_of_holdsFields holds, List.length_map, List.length_reverse,
    (List.reverse_perm _).dedup.length_eq]

/-- The map and the host object differ in length if a name has two fields, and in nothing if none
has. -/
theorem mapsAlike_iff_of_holdsFields :
    MapsAlike config world (.dict table) (.hostObject record) ↔
      (names (world.store.record record)).Nodup := by
  constructor
  · intro alike
    have lengths := alike.length_eq
    rw [length?_dict_of_holdsFields holds, Store.length?, Option.some.injEq,
      ← length_names] at lengths
    exact List.dedup_eq_self.mp ((List.dedup_sublist _).eq_of_length lengths)
  · intro different
    refine ⟨fun name => ?_, fun name => ?_, ?_⟩
    · rw [contains_dict_of_holdsFields holds, contains_hostObject]
    · rw [outcome_subscript_dict_of_holdsFields holds, outcome_subscript_hostObject,
        lookup_reverse_of_count_le_one (List.nodup_iff_count_le_one.mp different name)]
    · rw [length?_dict_of_holdsFields holds, different.dedup, length_names, Store.length?]

theorem wrapsFields_of_holdsFields : WrapsFields config world record table where
  keys_eq := elements_of_holdsFields holds
  contains_eq name := by rw [contains_dict_of_holdsFields holds, contains_hostObject]
  contains_record name := contains_hostObject
  subscript_map name := outcome_subscript_dict_of_holdsFields holds
  subscript_record name := outcome_subscript_hostObject
  subscript_eq name few := by
    rw [outcome_subscript_dict_of_holdsFields holds, outcome_subscript_hostObject,
      lookup_reverse_of_count_le_one few]
  length_map := length?_dict_of_holdsFields holds
  length_record := rfl
  mapsAlike_iff := mapsAlike_iff_of_holdsFields holds

end HoldsFields

/-- The map of a host object is made in every world. It is a new object, next to which all others
stay as they are. -/
theorem exists_outcome_dictOfHost (world : World) (record : Ref) :
    ∃ table later, outcome (dictOfHost (world.store.record record)) world =
        (.ok (.dict table), { world with store := later }) ∧
      world.store.Extends later ∧
      (later.table table).HoldsFields (settle (later.record record)) := by
  obtain ⟨contents, makes, holds⟩ :=
    world.store.exists_tableOfPairs_fields (world.store.record record)
  refine ⟨world.store.tables.next, _, ?_, world.store.extends_addTable contents, ?_⟩
  · rw [dictOfHost, outcome_bind, outcome_read, makes]
    rfl
  · rw [Store.table, Pool.get_push_next]
    exact holds

/-- A host object and the map of its fields have the same names, and differ in which one of several
fields of a name counts. -/
theorem exists_wrapsFields (config : Config) (world : World) (record : Ref) :
    ∃ table later, outcome (dictOfHost (world.store.record record)) world =
        (.ok (.dict table), later) ∧
      world.store.Extends later.store ∧ WrapsFields config later record table := by
  obtain ⟨table, later, ends, extends_to, holds⟩ := exists_outcome_dictOfHost world record
  exact ⟨table, { world with store := later }, ends, extends_to, wrapsFields_of_holdsFields holds⟩

/-- A world with a host object that has two fields of one name. -/
def twins : World where
  store := { records := ⟨#[[("a", .int 1), ("a", .int 2)]]⟩ }

/-- Not every host object is like the map of its fields. -/
theorem not_forall_mapsAlike :
    ¬ ∀ (config : Config) (world : World) (record : Ref), ∃ table later,
      outcome (dictOfHost (world.store.record record)) world = (.ok (.dict table), later) ∧
        MapsAlike config later (.dict table) (.hostObject record) := by
  intro always
  obtain ⟨table, later, ends, extends_to, holds⟩ := exists_outcome_dictOfHost twins ⟨0⟩
  obtain ⟨other, after, ends_alike, alike⟩ := always {} twins ⟨0⟩
  obtain ⟨⟨⟩, rfl⟩ := Prod.mk.inj (ends.symm.trans ends_alike)
  have same_record : later.record ⟨0⟩ = twins.store.record ⟨0⟩ :=
    congrArg (·.record ⟨0⟩) extends_to.rest_eq
  have different : (names (later.record ⟨0⟩)).Nodup := (mapsAlike_iff_of_holdsFields holds).mp alike
  rw [same_record] at different
  exact absurd different (by decide)

end ObjectModel
