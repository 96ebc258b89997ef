import ObjectModel.Proofs.Store.Spares

/-!
# Stages

A stage is a store together with the kind of each of its tables: whether it belongs to sets, to
frozensets or to maps. A stage is sound if every value in the store refers to an object that has
been made, and to a table of its own kind, and if the keys of its tables have hashes. Later stages
have more objects; what they change is the contents of objects that are not tuples.
-/

namespace ObjectModel

theorem Table.mem_entries_insert {κ ν : Type} {table : Table κ ν} {hash : UInt64}
    {matchesKey : κ → Bool} {key : κ} {value : ν} {entry : Entry κ ν}
    (member : entry ∈ (table.insert hash matchesKey key value).entries) :
    (entry.key ∈ table.keys ∨ entry.key = key) ∧ (entry ∈ table.entries ∨ entry.value = value) := by
  cases search : table.find? hash matchesKey with
  | none =>
      rw [insert_of_find?_eq_none search, entries_push, List.mem_append,
        List.mem_singleton] at member
      rcases member with old | rfl
      · exact ⟨.inl (List.mem_map_of_mem old), .inl old⟩
      · exact ⟨.inr rfl, .inr rfl⟩
  | some slot =>
      obtain ⟨found, holds⟩ := entryAt?_of_find? search
      have old_entries := entries_eq_of_entryAt? holds
      have old_keys : table.keys = (table.behind slot).map (·.key) ++
          found.key :: (table.ahead (slot + 1)).map (·.key) := by
        rw [keys, old_entries, List.map_append, List.map_cons]
      rw [insert_of_find?_eq_some search, entries_setValue holds, List.mem_append,
        List.mem_cons] at member
      rw [old_keys, old_entries]
      rcases member with front | rfl | back
      · exact ⟨.inl (List.mem_append_left _ (List.mem_map_of_mem front)),
          .inl (List.mem_append_left _ front)⟩
      · exact ⟨.inl (List.mem_append_right _ List.mem_cons_self), .inr rfl⟩
      · exact ⟨.inl (List.mem_append_right _ (List.mem_cons_of_mem _ (List.mem_map_of_mem back))),
          .inl (List.mem_append_right _ (List.mem_cons_of_mem _ back))⟩

namespace Pool

variable {α : Type} [Inhabited α]

/-- The contents of every object fit. -/
def All (fits : α → Prop) (pool : Pool α) : Prop :=
  ∀ ref, fits (pool.get ref)

variable {fits weaker : α → Prop} {pool : Pool α} {contents : α}

theorem All.push (all : pool.All fits) (new : fits contents) : (pool.push contents).All fits := by
  intro ref
  rcases pool.get_push_eq_or contents ref with same | old
  · rw [same]
    exact new
  · rw [old]
    exact all ref

theorem All.set (all : pool.All fits) (ref : Ref) (new : fits contents) :
    (pool.set ref contents).All fits := by
  intro other
  rcases pool.get_set_eq_or ref contents other with same | old
  · rw [same]
    exact new
  · rw [old]
    exact all other

theorem All.mono (all : pool.All fits) (weaken : ∀ contents, fits contents → weaker contents) :
    pool.All weaker :=
  fun ref => weaken _ (all ref)

end Pool

namespace Store

theorem knows_of_index_lt {store : Store} {value : Value} {ref : Ref}
    (of_value : value.table? = some ref) (made : ref.index < store.tables.size) :
    store.knows value := by
  cases value <;> first | contradiction | skip
  all_goals
    obtain rfl := Option.some.inj of_value
    exact decide_eq_true made

theorem exists_hashWithin_of_le {store : Store} {depth further : Nat} {value : Value}
    (le : depth ≤ further) (hashes : ∃ hash, store.hashWithin depth value = .ok hash) :
    ∃ hash, store.hashWithin further value = .ok hash := by
  induction le with
  | refl => exact hashes
  | step _ induction =>
      obtain ⟨hash, hashes⟩ := induction
      exact ⟨hash, store.hashWithin_succ hashes⟩

end Store

/-- A store, and for each table the kind of the values that it belongs to. -/
structure Stage where
  /-- The store. -/
  store : Store
  /-- The kinds of the tables. -/
  kinds : Ref → Kind

namespace Stage

/-- The object of a value has been made, and its table has its kind. -/
structure Admits (stage : Stage) (value : Value) : Prop where
  known : stage.store.knows value
  kind_eq : ∀ ref, value.table? = some ref → value.kind = stage.kinds ref

/-- All of the values are admitted. -/
def AdmitsAll (stage : Stage) (values : List Value) : Prop :=
  ∀ value ∈ values, stage.Admits value

/-- A later stage has all objects, with the same tuples and the same kinds of tables. -/
structure Precedes (stage later : Stage) : Prop where
  spares : stage.store.Spares (·.kind = .tuple) later.store
  kinds_eq : ∀ ref, ref.index < stage.store.tables.size → later.kinds ref = stage.kinds ref

/-- A table of admitted keys, which have hashes, and of admitted values. -/
structure FitsTable (stage : Stage) (table : Table Value Value) : Prop where
  keys : ∀ key ∈ table.keys, stage.Admits key ∧ stage.store.IsKey key
  values : ∀ entry ∈ table.entries, stage.Admits entry.value

/-- A mapping of an admitted function and an admitted source. -/
structure FitsMapping (stage : Stage) (mapping : Mapping) : Prop where
  function : stage.Admits mapping.function
  source : stage.Admits mapping.source
  iterator : ∀ iterator, mapping.iterator = some iterator → stage.Admits iterator

/-- Everything in a store is admitted at the stage. -/
structure Covers (stage : Stage) (store : Store) : Prop where
  tuples : store.tuples.All stage.AdmitsAll
  lists : store.lists.All stage.AdmitsAll
  tables : store.tables.All stage.FitsTable
  records : store.records.All fun fields => ∀ field ∈ fields, stage.Admits field.2
  sequenceCursors : store.sequenceCursors.All stage.AdmitsAll
  mappings : store.mappings.All stage.FitsMapping

/-- A stage that admits everything in its store. -/
def Sound (stage : Stage) : Prop :=
  stage.Covers stage.store

variable {stage later last : Stage} {value : Value}

/-- Values without an object are admitted at every stage. -/
theorem admits_of_plain (knows_all : ∀ store : Store, store.knows value = true)
    (no_table : value.table? = none) : stage.Admits value where
  known := knows_all stage.store
  kind_eq ref of_value := by simp [no_table] at of_value

theorem admits_number (number : Number) : stage.Admits number.toValue := by
  cases number <;> exact admits_of_plain (fun _ => rfl) rfl

theorem admitsAll_map {α : Type} {make : α → Value} (admits : ∀ part, stage.Admits (make part))
    (parts : List α) : stage.AdmitsAll (parts.map make) := by
  intro value member
  obtain ⟨part, -, rfl⟩ := List.mem_map.mp member
  exact admits part

theorem admitsAll_chars (text : String) : stage.AdmitsAll (text.toList.map Value.char) :=
  admitsAll_map (fun _ => admits_of_plain (fun _ => rfl) rfl) _

theorem admitsAll_bytes (bytes : List UInt8) : stage.AdmitsAll (bytes.map Value.byte) :=
  admitsAll_map (fun _ => admits_of_plain (fun _ => rfl) rfl) _

theorem Precedes.refl (stage : Stage) : stage.Precedes stage where
  spares := .refl stage.store
  kinds_eq _ _ := rfl

theorem Precedes.trans (first : stage.Precedes later) (second : later.Precedes last) :
    stage.Precedes last where
  spares := first.spares.trans second.spares
  kinds_eq ref known := by
    rw [second.kinds_eq ref (known.trans_le first.spares.tables.size_le),
      first.kinds_eq ref known]

theorem Admits.kept (admits : stage.Admits value) (precedes : stage.Precedes later) :
    later.Admits value where
  known := precedes.spares.knows admits.known
  kind_eq ref of_value := by
    rw [admits.kind_eq ref of_value,
      precedes.kinds_eq ref (Store.index_lt_of_knows admits.known of_value)]

theorem AdmitsAll.kept {values : List Value} (admits : stage.AdmitsAll values)
    (precedes : stage.Precedes later) : later.AdmitsAll values :=
  fun value member => (admits value member).kept precedes

theorem AdmitsAll.append {values others : List Value} (admits : stage.AdmitsAll values)
    (admits_others : stage.AdmitsAll others) : stage.AdmitsAll (values ++ others) :=
  fun value member => (List.mem_append.mp member).elim (admits value) (admits_others value)

theorem AdmitsAll.subset {values fewer : List Value} (admits : stage.AdmitsAll values)
    (subset : fewer ⊆ values) : stage.AdmitsAll fewer :=
  fun value member => admits value (subset member)

/-- Hashes need not stay the same, but what has one keeps having one: this depends on the tuples
inside alone, and these never change. -/
theorem exists_hashWithin_kept (sound : stage.Sound) (precedes : stage.Precedes later)
    {depth : Nat} (known : stage.store.knows value)
    (hashes : ∃ hash, stage.store.hashWithin depth value = .ok hash) :
    ∃ hash, later.store.hashWithin depth value = .ok hash := by
  induction depth generalizing value with
  | zero => exact nomatch hashes
  | succ depth induction =>
      cases value with
      | tuple ref =>
          obtain ⟨hash, hashes⟩ := hashes
          rw [Store.hashWithin, bind_eq_ok_iff] at hashes
          obtain ⟨words, items_hash, -⟩ := hashes
          have each := exists_mapM_eq_ok_iff.mp ⟨words, items_hash⟩
          have same_items : later.store.tuple ref = stage.store.tuple ref :=
            precedes.spares.keeps known rfl
          obtain ⟨later_words, later_hash⟩ := exists_mapM_eq_ok_iff.mpr fun item member =>
            induction (sound.tuples ref item member).known (each item member)
          refine ⟨Digest.tagged .tuple later_words, ?_⟩
          rw [Store.hashWithin, same_items]
          exact bind_eq_ok_iff.mpr ⟨later_words, later_hash, rfl⟩
      | frozenset ref => exact ⟨_, rfl⟩
      | _ => exact hashes

theorem isKey_kept (sound : stage.Sound) (precedes : stage.Precedes later)
    (known : stage.store.knows value) (key : stage.store.IsKey value) : later.store.IsKey value :=
  exists_hashWithin_kept sound precedes known key |> Store.exists_hashWithin_of_le
    precedes.spares.depth_le

theorem FitsTable.kept {table : Table Value Value} (fits : stage.FitsTable table)
    (sound : stage.Sound) (precedes : stage.Precedes later) : later.FitsTable table where
  keys key member := by
    obtain ⟨admits, is_key⟩ := fits.keys key member
    exact ⟨admits.kept precedes, isKey_kept sound precedes admits.known is_key⟩
  values entry member := (fits.values entry member).kept precedes

theorem FitsMapping.kept {mapping : Mapping} (fits : stage.FitsMapping mapping)
    (precedes : stage.Precedes later) : later.FitsMapping mapping where
  function := fits.function.kept precedes
  source := fits.source.kept precedes
  iterator iterator opened := (fits.iterator iterator opened).kept precedes

theorem Sound.covers_kept (sound : stage.Sound) (precedes : stage.Precedes later) :
    later.Covers stage.store where
  tuples := sound.tuples.mono fun _ admits => admits.kept precedes
  lists := sound.lists.mono fun _ admits => admits.kept precedes
  tables := sound.tables.mono fun _ fits => fits.kept sound precedes
  records := sound.records.mono fun _ admits field member =>
    (admits field member).kept precedes
  sequenceCursors := sound.sequenceCursors.mono fun _ admits => admits.kept precedes
  mappings := sound.mappings.mono fun _ fits => fits.kept precedes

/-! ## Tables -/

section Tables

variable {table : Table Value Value}

theorem fitsTable_empty (stage : Stage) : stage.FitsTable ∅ where
  keys _ member := nomatch member
  values _ member := nomatch member

theorem FitsTable.insertKey (fits : stage.FitsTable table) {after : Table Value Value}
    {key value : Value} (inserts : stage.store.insertKey table key value = .ok after)
    (admits_key : stage.Admits key) (admits_value : stage.Admits value) :
    stage.FitsTable after := by
  obtain ⟨hash, hashes, rfl⟩ := Store.insertKey_eq_ok.mp inserts
  constructor
  · intro stored member
    obtain ⟨entry, is_entry, rfl⟩ := List.mem_map.mp member
    rcases (Table.mem_entries_insert is_entry).1 with old | same
    · exact fits.keys _ old
    · rw [same]
      exact ⟨admits_key, hash, hashes⟩
  · intro entry member
    rcases (Table.mem_entries_insert member).2 with old | same
    · exact fits.values entry old
    · rw [same]
      exact admits_value

theorem FitsTable.eraseKey (fits : stage.FitsTable table) {rest : Table Value Value}
    {key value : Value} (erases : stage.store.eraseKey table key = .ok (value, rest)) :
    stage.FitsTable rest := by
  obtain ⟨hash, entry, -, erases, -⟩ := Store.eraseKey_eq_ok.mp erases
  obtain ⟨slot, -, holds, rfl⟩ := Table.erase?_eq_some erases
  have sublist := Table.entries_eraseSlot_sublist holds hash
  exact
    { keys := fun key member => fits.keys key ((sublist.map (·.key)).subset member)
      values := fun entry member => fits.values entry (sublist.subset member) }

theorem FitsTable.insertPairs (fits : stage.FitsTable table) {after : Table Value Value}
    {pairs : List (Value × Value)}
    (admits : ∀ pair ∈ pairs, stage.Admits pair.1 ∧ stage.Admits pair.2)
    (inserts : pairs.foldlM (fun table pair => stage.store.insertKey table pair.1 pair.2) table =
      .ok after) : stage.FitsTable after := by
  induction pairs generalizing table with
  | nil => exact Except.ok.inj inserts ▸ fits
  | cons pair pairs induction =>
      rw [List.forall_mem_cons] at admits
      rw [List.foldlM_cons] at inserts
      obtain ⟨next, first, rest⟩ := bind_eq_ok_iff.mp inserts
      exact induction (fits.insertKey first admits.1.1 admits.1.2) admits.2 rest

theorem fitsTable_of_pairs {pairs : List (Value × Value)}
    (admits : ∀ pair ∈ pairs, stage.Admits pair.1 ∧ stage.Admits pair.2)
    (makes : stage.store.tableOfPairs pairs = .ok table) : stage.FitsTable table :=
  stage.fitsTable_empty.insertPairs admits makes

theorem fitsTable_of_elements {elements : List Value} (admits : stage.AdmitsAll elements)
    (makes : stage.store.tableOfElements elements = .ok table) : stage.FitsTable table := by
  rw [Store.tableOfElements_eq] at makes
  refine fitsTable_of_pairs (fun pair member => ?_) makes
  obtain ⟨element, is_element, rfl⟩ := List.mem_map.mp member
  exact ⟨admits element is_element, admits element is_element⟩

theorem Sound.admitsAll_elements (sound : stage.Sound) (ref : Ref) :
    stage.AdmitsAll (stage.store.elements ref) :=
  fun element member => ((sound.tables ref).keys element member).1

end Tables

/-- The empty store is sound, whatever kinds its tables may get. -/
theorem sound_empty (kinds : Ref → Kind) : Sound ⟨{}, kinds⟩ where
  tuples _ _ member := nomatch member
  lists _ _ member := nomatch member
  tables _ := fitsTable_empty _
  records _ _ member := nomatch member
  sequenceCursors _ _ member := nomatch member
  mappings _ :=
    { function := admits_of_plain (fun _ => rfl) rfl
      source := admits_of_plain (fun _ => rfl) rfl
      iterator := fun _ opened => nomatch opened }

end Stage
end ObjectModel
