import ObjectModel.Proofs.Iterator.Step
import ObjectModel.Proofs.Table.Traversal

/-!
# Cursors in the order of arrival

Any number of cursors walk over one table while keys come and go. A register keeps the date at which
each key came, and what each cursor has yielded. Keys stand in the table in the order of their
dates, and all keys ahead of a cursor came later than those that it has yielded: nothing that
happens between its steps, not even a rebuilding of the table, brings an earlier key ahead of it.
-/

namespace ObjectModel

/-- The cursor over a table that an iterator is. -/
def Value.keyCursor? : Value → Option Ref
  | .setIterator cursor | .dictKeyIterator cursor => some cursor
  | _ => Option.none

theorem Pool.get?_set_of_ne {α : Type} (pool : Pool α) (contents : α) {ref other : Ref}
    (ne : other ≠ ref) : (pool.set ref contents).get? other = pool.get? other := by
  have index_ne : ref.index ≠ other.index := fun same =>
    ne (by cases ref; cases other; simp_all)
  simp [get?, set, Array.getElem?_setIfInBounds_ne index_ne]

namespace Effect

theorem outcome_next_of_keyCursor? (context : Context) {iterator : Value} {cursor : Ref}
    (is_cursor : iterator.keyCursor? = some cursor) (world : World) :
    outcome (iterator.next context) world = outcome (nextInTable cursor) world := by
  have steps : outcome (nextInTable cursor) world = world.step iterator := by
    rw [outcome_nextInTable_eq_step]
    cases iterator with
    | setIterator | dictKeyIterator =>
        obtain rfl := Option.some.inj is_cursor
        rfl
    | _ => contradiction
  rw [steps, outcome_next_cursor]
  cases iterator <;> first | rfl | contradiction

end Effect

/-- What has happened to a table and to the cursors over it. -/
structure Register where
  /-- The keys in the table, each with the time at which it came. -/
  arrivals : List Arrival
  /-- The date of the next key that comes. -/
  clock : Nat
  /-- What each cursor has yielded. -/
  yielded : Ref → List Arrival := fun _ => []

namespace Register

/-- The register of a table with the given keys, over which no cursor has moved. -/
def start (keys : List Value) : Register where
  arrivals := keys.mapIdx Arrival.mk
  clock := keys.length

/-- A new key comes behind all others. -/
def enter (register : Register) (key : Value) : Register :=
  { register with
    arrivals := register.arrivals ++ [⟨register.clock, key⟩]
    clock := register.clock + 1 }

/-- The key of the given rank goes. -/
def leave (register : Register) (rank : Nat) : Register :=
  { register with arrivals := register.arrivals.eraseIdx rank }

/-- A cursor yields a key. -/
def yield (register : Register) (cursor : Ref) (arrival : Arrival) : Register :=
  { register with
    yielded := Function.update register.yielded cursor (register.yielded cursor ++ [arrival]) }

/-- A value is stored for a key. The key is new if the table grows. -/
def put (register : Register) (before after : Table Value Value) (key : Value) : Register :=
  if before.size < after.size then register.enter key else register

end Register

/-- The number of keys before the one that is found for an element. -/
def Store.rank? (store : Store) (table : Table Value Value) (element : Value) : Option Nat := do
  let hash ← (store.hash element).toOption
  let slot ← table.find? hash (store.equals · element)
  return (table.behind slot).length

theorem Store.rank?_eq_none_of_eraseKey {store : Store} {table : Table Value Value}
    {element : Value} {fault : Fault} (fails : store.eraseKey table element = .error fault) :
    store.rank? table element = none := by
  rw [rank?]
  cases hashes : store.hash element with
  | error fault => rfl
  | ok hash =>
      cases search : table.find? hash (store.equals · element) with
      | none => simp [Except.toOption, search]
      | some slot =>
          obtain ⟨entry, holds⟩ := Table.entryAt?_of_find? search
          have erases := Table.erase?_of_find?_eq_some search holds
          have succeeds := Store.eraseKey_eq_ok.mpr ⟨hash, entry, hashes, erases, rfl⟩
          rw [fails] at succeeds
          contradiction

/-- The key that is found for an element goes, if there is one. -/
def Register.take (register : Register) (rank? : Option Nat) : Register :=
  rank?.elim register register.leave

/-! ## Dates -/

namespace Register

/-- A register is true of the keys in a table. -/
structure Dates (register : Register) (keys : List Value) : Prop where
  /-- The keys in the table have come and not gone. -/
  keys_eq : register.arrivals.map (·.key) = keys
  /-- The keys stand in the order in which they came. -/
  sorted : register.arrivals.Pairwise (·.date < ·.date)
  /-- No key has a date to come. -/
  date_lt : ∀ arrival ∈ register.arrivals, arrival.date < register.clock

/-- A cursor that has a number of keys behind it goes forward in time. -/
structure Advances (register : Register) (cursor : Ref) (rank : Nat) : Prop where
  /-- The keys that it has yielded came one after the other. -/
  sorted : (register.yielded cursor).Pairwise (·.date < ·.date)
  /-- It has yielded no key that has yet to come. -/
  date_lt : ∀ earlier ∈ register.yielded cursor, earlier.date < register.clock
  /-- All keys ahead of it came after those that it has yielded. -/
  ahead : ∀ earlier ∈ register.yielded cursor, ∀ arrival ∈ register.arrivals.drop rank,
    earlier.date < arrival.date

variable {register : Register} {keys : List Value} {cursor : Ref} {rank : Nat}

theorem dates_start (keys : List Value) : (start keys).Dates keys where
  keys_eq := by
    apply List.ext_getElem <;> simp [start]
  sorted := by
    rw [List.pairwise_iff_getElem]
    intro rank later lt lt_later before
    simpa [start] using before
  date_lt := by
    intro arrival member
    obtain ⟨rank, lt, rfl⟩ := List.mem_mapIdx.mp member
    exact lt

theorem advances_of_not_yielded (register : Register) (rank : Nat)
    (none_yielded : register.yielded cursor = []) : register.Advances cursor rank where
  sorted := none_yielded ▸ List.Pairwise.nil
  date_lt := by simp [none_yielded]
  ahead := by simp [none_yielded]

/-- A cursor may come to stand behind later keys. -/
theorem Advances.of_le (advances : register.Advances cursor rank) {later : Nat}
    (le : rank ≤ later) : register.Advances cursor later where
  sorted := advances.sorted
  date_lt := advances.date_lt
  ahead earlier yielded arrival member :=
    advances.ahead earlier yielded arrival (List.drop_subset_drop_left _ le member)

theorem Dates.enter (dates : register.Dates keys) (key : Value) :
    (register.enter key).Dates (keys ++ [key]) where
  keys_eq := by simp [Register.enter, dates.keys_eq]
  sorted := by
    rw [Register.enter, List.pairwise_append]
    refine ⟨dates.sorted, List.pairwise_singleton _ _, fun arrival member last is_last => ?_⟩
    rw [List.mem_singleton.mp is_last]
    exact dates.date_lt arrival member
  date_lt := by
    intro arrival member
    rw [Register.enter, List.mem_append, List.mem_singleton] at member
    rcases member with member | rfl
    · exact Nat.lt_succ_of_lt (dates.date_lt arrival member)
    · exact Nat.lt_succ_self _

theorem Advances.enter (advances : register.Advances cursor rank) (key : Value) :
    (register.enter key).Advances cursor rank where
  sorted := advances.sorted
  date_lt earlier yielded := Nat.lt_succ_of_lt (advances.date_lt earlier yielded)
  ahead earlier yielded arrival member := by
    rw [Register.enter, List.drop_append, List.mem_append] at member
    rcases member with member | is_new
    · exact advances.ahead earlier yielded arrival member
    · rw [List.mem_singleton.mp (List.mem_of_mem_drop is_new)]
      exact advances.date_lt earlier yielded

theorem Dates.leave (dates : register.Dates keys) (gone : Nat) :
    (register.leave gone).Dates (keys.eraseIdx gone) where
  keys_eq := by rw [Register.leave, ← dates.keys_eq, List.eraseIdx_map]
  sorted := dates.sorted.sublist (List.eraseIdx_sublist _ _)
  date_lt arrival member := dates.date_lt arrival (List.mem_of_mem_eraseIdx member)

theorem Advances.leave (advances : register.Advances cursor rank) {gone left : Nat}
    (rank_eq : rank = left + if gone < rank then 1 else 0) :
    (register.leave gone).Advances cursor left where
  sorted := advances.sorted
  date_lt := advances.date_lt
  ahead earlier yielded arrival member := by
    obtain ⟨place, le, holds⟩ := Chronicle.mem_drop_iff.mp member
    apply advances.ahead earlier yielded
    rw [Register.leave, List.getElem?_eraseIdx] at holds
    split at holds
    · refine Chronicle.mem_drop_iff.mpr ⟨place, ?_, holds⟩
      split at rank_eq <;> omega
    · refine Chronicle.mem_drop_iff.mpr ⟨place + 1, ?_, holds⟩
      split at rank_eq <;> omega

theorem yielded_yield_self (register : Register) (cursor : Ref) (arrival : Arrival) :
    (register.yield cursor arrival).yielded cursor = register.yielded cursor ++ [arrival] :=
  Function.update_self cursor _ _

theorem yielded_yield_of_ne (register : Register) {cursor other : Ref} (ne : other ≠ cursor)
    (arrival : Arrival) : (register.yield cursor arrival).yielded other = register.yielded other :=
  Function.update_of_ne ne _ _

theorem Dates.yield (dates : register.Dates keys) (cursor : Ref) (arrival : Arrival) :
    (register.yield cursor arrival).Dates keys where
  keys_eq := dates.keys_eq
  sorted := dates.sorted
  date_lt := dates.date_lt

/-- A cursor that yields the first key ahead goes forward, for the others ahead came later. -/
theorem Advances.yield (advances : register.Advances cursor rank) (dates : register.Dates keys)
    {arrival : Arrival} (here : register.arrivals[rank]? = some arrival) :
    (register.yield cursor arrival).Advances cursor (rank + 1) := by
  obtain ⟨lt, at_rank⟩ := List.getElem?_eq_some_iff.mp here
  have drop_eq : register.arrivals.drop rank = arrival :: register.arrivals.drop (rank + 1) := by
    rw [List.drop_eq_getElem_cons lt, at_rank]
  have before_arrival : ∀ earlier ∈ register.yielded cursor, earlier.date < arrival.date :=
    fun earlier yielded => advances.ahead earlier yielded arrival (by simp [drop_eq])
  have after_arrival : ∀ later ∈ register.arrivals.drop (rank + 1), arrival.date < later.date := by
    have sorted := dates.sorted.sublist (List.drop_sublist rank _)
    rw [drop_eq] at sorted
    exact (List.pairwise_cons.mp sorted).1
  refine { sorted := ?_, date_lt := ?_, ahead := ?_ }
  · rw [yielded_yield_self, List.pairwise_append]
    refine ⟨advances.sorted, List.pairwise_singleton _ _, fun earlier yielded last is_last => ?_⟩
    rw [List.mem_singleton.mp is_last]
    exact before_arrival earlier yielded
  · intro earlier yielded
    rw [yielded_yield_self, List.mem_append, List.mem_singleton] at yielded
    rcases yielded with yielded | rfl
    · exact advances.date_lt earlier yielded
    · exact dates.date_lt earlier (List.mem_of_getElem? here)
  · intro earlier yielded later member
    rw [yielded_yield_self, List.mem_append, List.mem_singleton] at yielded
    rcases yielded with yielded | rfl
    · exact advances.ahead earlier yielded later
        (List.drop_subset_drop_left _ (Nat.le_succ _) member)
    · exact after_arrival later member

theorem Advances.yield_other (advances : register.Advances cursor rank) {other : Ref}
    (ne : cursor ≠ other) (arrival : Arrival) :
    (register.yield other arrival).Advances cursor rank where
  sorted := by
    rw [yielded_yield_of_ne register ne]
    exact advances.sorted
  date_lt earlier yielded := by
    rw [yielded_yield_of_ne register ne] at yielded
    exact advances.date_lt earlier yielded
  ahead earlier yielded := by
    rw [yielded_yield_of_ne register ne] at yielded
    exact advances.ahead earlier yielded

end Register

/-! ## Registers of a table in a store -/

/-- A register is true of a table in a store and of all cursors over it. -/
structure Register.Records (register : Register) (store : Store) (table : Ref)
    (contents : Table Value Value) : Prop where
  /-- The table has the given contents. -/
  known : store.tables.get? table = some contents
  /-- The dates are those of its keys. -/
  dates : register.Dates contents.keys
  /-- Only cursors over the table have yielded anything. -/
  belongs : ∀ cursor, register.yielded cursor ≠ [] →
    ∃ place, store.keyCursors.get? cursor = some { target := table, place }
  /-- Each cursor over the table goes forward in time. -/
  advances : ∀ cursor place, store.keyCursors.get? cursor = some { target := table, place } →
    register.Advances cursor (contents.behind place).length

namespace Register.Records

variable {register : Register} {store : Store} {table : Ref} {contents : Table Value Value}
  {key value : Value} {after : Table Value Value}

theorem start (known : store.tables.get? table = some contents) :
    (Register.start contents.keys).Records store table contents where
  known
  dates := dates_start contents.keys
  belongs _ yielded := (yielded rfl).elim
  advances _ _ _ := advances_of_not_yielded _ _ rfl

theorem put (records : register.Records store table contents)
    (inserts : store.insertKey contents key value = .ok after) :
    (register.put contents after key).Records
      { store with tables := store.tables.set table after } table after := by
  have known := Pool.get?_set_self records.known after
  obtain ⟨hash, -, rfl⟩ := Store.insertKey_eq_ok.mp inserts
  cases search : contents.find? hash (store.equals · key) with
  | none =>
      rw [Table.insert_of_find?_eq_none search] at known ⊢
      have grows : contents.size < (contents.push ⟨hash, key, value⟩).size := Nat.lt_succ_self _
      have keys_eq : (contents.push ⟨hash, key, value⟩).keys = contents.keys ++ [key] := by
        simp [Table.keys]
      rw [Register.put, if_pos grows]
      refine
        { known
          dates := keys_eq ▸ records.dates.enter key
          belongs := records.belongs
          advances := fun cursor place at_place => ?_ }
      have rank_le := contents.length_behind_push_le ⟨hash, key, value⟩ place
      exact ((records.advances cursor place at_place).enter key).of_le rank_le
  | some slot =>
      obtain ⟨entry, holds⟩ := Table.entryAt?_of_find? search
      rw [Table.insert_of_find?_eq_some search] at known ⊢
      have same_size : ¬ contents.size < (contents.setValue slot value).size := Nat.lt_irrefl _
      rw [Register.put, if_neg same_size]
      refine
        { known
          dates := (Table.keys_setValue holds value).symm ▸ records.dates
          belongs := records.belongs
          advances := fun cursor place at_place => ?_ }
      rw [Table.length_behind_setValue]
      exact records.advances cursor place at_place

theorem take (records : register.Records store table contents)
    (erases : store.eraseKey contents key = .ok (value, after)) :
    (register.take (store.rank? contents key)).Records
      { store with tables := store.tables.set table after } table after := by
  have known := Pool.get?_set_self records.known after
  obtain ⟨hash, entry, hashes, erased, -⟩ := Store.eraseKey_eq_ok.mp erases
  obtain ⟨slot, found, holds, rfl⟩ := Table.erase?_eq_some erased
  have rank_eq : store.rank? contents key = some (contents.behind slot).length := by
    simp [Store.rank?, hashes, found, Except.toOption]
  rw [rank_eq, Register.take, Option.elim_some]
  refine
    { known
      dates := (Table.keys_eraseSlot holds hash).symm ▸ records.dates.leave _
      belongs := records.belongs
      advances := fun cursor place at_place => ?_ }
  have vacated := Table.length_behind_vacate holds hash place
  simp only [← Table.length_behind_lt_iff holds] at vacated
  exact ((records.advances cursor place at_place).leave vacated).of_le
    (contents.length_behind_vacate_le hash slot place)

/-- A cursor yields the first key ahead of it. -/
theorem yield (records : register.Records store table contents) {cursor : Ref} {place slot : Nat}
    (stands : store.keyCursors.get? cursor = some { target := table, place })
    {entry : Entry Value Value} (found : contents.firstFrom? place = some (slot, entry)) :
    ∃ arrival, register.arrivals[(contents.behind place).length]? = some arrival ∧
      arrival.key = entry.key ∧ (register.yield cursor arrival).Records
        { store with
          keyCursors := store.keyCursors.set cursor { target := table, place := slot + 1 } }
        table contents := by
  obtain ⟨holds, behind_eq⟩ := Table.firstFrom?_spec found
  have at_rank : contents.keys[(contents.behind place).length]? = some entry.key := by
    rw [Table.keys, Table.entries_eq_of_entryAt? holds, behind_eq]
    simp
  rw [← records.dates.keys_eq, List.getElem?_map, Option.map_eq_some_iff] at at_rank
  obtain ⟨arrival, here, key_eq⟩ := at_rank
  have moved := Pool.get?_set_self stands { target := table, place := slot + 1 }
  refine ⟨arrival, here, key_eq,
    { known := records.known
      dates := records.dates.yield cursor arrival
      belongs := ?_
      advances := ?_ }⟩
  · intro other yielded
    by_cases same : other = cursor
    · exact ⟨slot + 1, same ▸ moved⟩
    · rw [yielded_yield_of_ne register same] at yielded
      rw [Pool.get?_set_of_ne _ _ same]
      exact records.belongs other yielded
  · intro other elsewhere at_place
    by_cases same : other = cursor
    · subst same
      obtain rfl : elsewhere = slot + 1 := by
        simpa using (congrArg Cursor.place (Option.some.inj (moved.symm.trans at_place))).symm
      have rank_eq : (contents.behind (slot + 1)).length = (contents.behind place).length + 1 := by
        rw [Table.behind_succ, holds, behind_eq, List.length_append]
        rfl
      rw [rank_eq]
      exact (records.advances other place stands).yield records.dates here
    · rw [Pool.get?_set_of_ne _ _ same] at at_place
      exact (records.advances other elsewhere at_place).yield_other same arrival

/-- What leaves the table and the cursors over it alone leaves the register true. New cursors have
yielded nothing. -/
theorem elsewhere (records : register.Records store table contents) {later : Store}
    (same_table : later.tables.get? table = store.tables.get? table)
    (same_cursors : ∀ cursor place,
      store.keyCursors.get? cursor = some { target := table, place } →
        later.keyCursors.get? cursor = some { target := table, place }) :
    register.Records later table contents where
  known := same_table.trans records.known
  dates := records.dates
  belongs cursor yielded := by
    obtain ⟨place, at_place⟩ := records.belongs cursor yielded
    exact ⟨place, same_cursors cursor place at_place⟩
  advances cursor place at_place := by
    by_cases yielded : register.yielded cursor = []
    · exact advances_of_not_yielded _ _ yielded
    · obtain ⟨earlier_place, at_earlier⟩ := records.belongs cursor yielded
      have same := (same_cursors cursor earlier_place at_earlier).symm.trans at_place
      obtain rfl : earlier_place = place := by simpa using same
      exact records.advances cursor earlier_place at_earlier

end Register.Records

/-! ## Runs -/

open Effect

/-- The worlds that a table lives through, each with what has happened so far. Keys come and go, and
any cursors over the table take their steps, in any order; whatever else happens leaves the table
and the places of the cursors alone. -/
inductive Succession (table : Ref) : World → Register → Prop
  | begun {world : World} {contents : Table Value Value}
      (known : world.store.tables.get? table = some contents) :
      Succession table world (.start contents.keys)
  | stored {world : World} {register : Register} (earlier : Succession table world register)
      (key value : Value) :
      Succession table (outcome (setKey table key value) world).2
        (register.put (world.store.table table)
          ((outcome (setKey table key value) world).2.store.table table) key)
  | removed {world : World} {register : Register} (earlier : Succession table world register)
      (element : Value) :
      Succession table (outcome (removeElement table element) world).2
        (register.take (world.store.rank? (world.store.table table) element))
  | stepped {world later : World} {register : Register} {context : Context} {iterator key : Value}
      {cursor : Ref} {place : Nat} {arrival : Arrival} (earlier : Succession table world register)
      (is_cursor : iterator.keyCursor? = some cursor)
      (stands : world.store.keyCursors.get? cursor = some { target := table, place })
      (steps : outcome (iterator.next context) world = (.ok key, later))
      (here : register.arrivals[((world.store.table table).behind place).length]? = some arrival) :
      Succession table later (register.yield cursor arrival)
  | elsewhere {world later : World} {register : Register}
      (earlier : Succession table world register)
      (same_table : later.store.tables.get? table = world.store.tables.get? table)
      (same_cursors : ∀ cursor place,
        world.store.keyCursors.get? cursor = some { target := table, place } →
          later.store.keyCursors.get? cursor = some { target := table, place }) :
      Succession table later register

namespace Succession

variable {table : Ref} {world : World} {register : Register}

/-- At all times the register is true of the table and the cursors. -/
theorem records (succession : Succession table world register) :
    ∃ contents, register.Records world.store table contents := by
  induction succession with
  | @begun world contents known => exact ⟨contents, .start known⟩
  | @stored world register earlier key value induction =>
      obtain ⟨contents, records⟩ := induction
      have contents_eq : world.store.table table = contents := Pool.get_of_get? records.known
      rw [outcome_setKey, contents_eq]
      cases inserts : world.store.insertKey contents key value with
      | error fault =>
          dsimp only
          rw [contents_eq, Register.put, if_neg (Nat.lt_irrefl _)]
          exact ⟨contents, records⟩
      | ok after =>
          have put := records.put inserts
          have after_eq : Store.table { world.store with
              tables := world.store.tables.set table after } table = after :=
            Pool.get_of_get? put.known
          dsimp only
          rw [after_eq]
          exact ⟨after, put⟩
  | @removed world register earlier element induction =>
      obtain ⟨contents, records⟩ := induction
      have contents_eq : world.store.table table = contents := Pool.get_of_get? records.known
      rw [outcome_removeElement, contents_eq]
      cases erases : world.store.eraseKey contents element with
      | error fault =>
          rw [Store.rank?_eq_none_of_eraseKey erases]
          exact ⟨contents, records⟩
      | ok result =>
          obtain ⟨value, after⟩ := result
          exact ⟨after, records.take erases⟩
  | @stepped world later register context iterator key cursor place arrival earlier is_cursor
      stands steps here induction =>
      obtain ⟨contents, records⟩ := induction
      have contents_eq : world.store.table table = contents := Pool.get_of_get? records.known
      rw [outcome_next_of_keyCursor? context is_cursor,
        Traversal.outcome_nextInTable_of_shows ⟨records.known, stands⟩] at steps
      rw [contents_eq] at here
      cases search : contents.firstFrom? place with
      | none => simp [search] at steps
      | some found =>
          obtain ⟨slot, entry⟩ := found
          rw [search, Prod.mk.injEq] at steps
          obtain ⟨-, rfl⟩ := steps
          obtain ⟨same, here_again, -, moved⟩ := records.yield stands search
          obtain rfl : arrival = same := Option.some.inj (here.symm.trans here_again)
          exact ⟨contents, moved⟩
  | @elsewhere world later register earlier same_table same_cursors induction =>
      obtain ⟨contents, records⟩ := induction
      exact ⟨contents, records.elsewhere same_table same_cursors⟩

end Succession

/-- What each cursor over a table yields. -/
structure InOrder (table : Ref) (world : World) (register : Register) : Prop where
  /-- The dates are those of the keys in the table. -/
  keys_eq : register.arrivals.map (·.key) = world.store.elements table
  /-- The keys stand in the order in which they came. -/
  sorted : register.arrivals.Pairwise (·.date < ·.date)
  /-- No cursor has yielded a key twice, or after a key that came later. -/
  yielded_sorted : ∀ cursor, (register.yielded cursor).Pairwise (·.date < ·.date)
  /-- The next key that a cursor yields is in the table, and came after those that the cursor has
  yielded. -/
  yields : ∀ (context : Context) (iterator : Value) (cursor : Ref) (place : Nat) (key : Value)
    (later : World), iterator.keyCursor? = some cursor →
    world.store.keyCursors.get? cursor = some { target := table, place } →
    outcome (iterator.next context) world = (.ok key, later) →
    ∃ arrival ∈ register.arrivals, arrival.key = key ∧
      (∀ earlier ∈ register.yielded cursor, earlier.date < arrival.date) ∧
      Succession table later (register.yield cursor arrival)

/-- Whatever happens to a table, each cursor over it yields keys that are in the table, each of them
once and in the order in which they came. -/
theorem Succession.inOrder {table : Ref} {world : World} {register : Register}
    (succession : Succession table world register) : InOrder table world register := by
  obtain ⟨contents, records⟩ := succession.records
  have contents_eq : world.store.table table = contents := Pool.get_of_get? records.known
  refine
    { keys_eq := ?_
      sorted := records.dates.sorted
      yielded_sorted := ?_
      yields := ?_ }
  · rw [records.dates.keys_eq, Store.elements, contents_eq]
  · intro cursor
    by_cases yielded : register.yielded cursor = []
    · exact yielded ▸ List.Pairwise.nil
    · obtain ⟨place, stands⟩ := records.belongs cursor yielded
      exact (records.advances cursor place stands).sorted
  · intro context iterator cursor place key later is_cursor stands steps
    have found := steps
    rw [outcome_next_of_keyCursor? context is_cursor,
      Traversal.outcome_nextInTable_of_shows ⟨records.known, stands⟩] at found
    cases search : contents.firstFrom? place with
    | none => simp [search] at found
    | some result =>
        obtain ⟨slot, entry⟩ := result
        rw [search, Prod.mk.injEq, Except.ok.injEq] at found
        obtain ⟨arrival, here, key_eq, -⟩ := records.yield stands search
        have ahead : arrival ∈ register.arrivals.drop (contents.behind place).length :=
          Chronicle.mem_drop_iff.mpr ⟨_, Nat.le_refl _, here⟩
        refine ⟨arrival, List.mem_of_getElem? here, key_eq.trans found.1,
          fun earlier yielded =>
            (records.advances cursor place stands).ahead earlier yielded arrival ahead, ?_⟩
        exact succession.stepped is_cursor stands steps (contents_eq.symm ▸ here)

/-- The world after a set of three elements has been made, and two cursors over it. -/
def twiceOpened : World :=
  (outcome (do
    let _ ← newSet .mutable [.int 1, .int 2, .int 3]
    let _ ← newKeyCursor ⟨0⟩
    newKeyCursor ⟨0⟩) {}).2

/-- The removals rebuild the table behind the first cursor, which then yields an element that has
gone and come again. The second cursor yields one that the first has missed. -/
theorem Succession.inOrder_twiceOpened : ∃ world register,
    Succession ⟨0⟩ world register ∧
      register.yielded ⟨0⟩ = [⟨0, .int 1⟩, ⟨3, .int 1⟩] ∧
      register.yielded ⟨1⟩ = [⟨2, .int 3⟩] ∧ InOrder ⟨0⟩ world register := by
  have step : ∀ {world register} (cursor : Ref) (place : Nat) (arrival : Arrival),
      Succession ⟨0⟩ world register →
      world.store.keyCursors.get? cursor = some { target := ⟨0⟩, place } →
      (outcome (Value.next {} (.setIterator cursor)) world).1 = .ok arrival.key →
      register.arrivals[((world.store.table ⟨0⟩).behind place).length]? = some arrival →
      Succession ⟨0⟩ (outcome (Value.next {} (.setIterator cursor)) world).2
        (register.yield cursor arrival) :=
    fun cursor place arrival earlier stands result here =>
      earlier.stepped rfl stands (Prod.ext result rfl) here
  have begun : Succession ⟨0⟩ twiceOpened (.start (twiceOpened.store.table ⟨0⟩).keys) :=
    .begun (by cbv)
  have first := step ⟨0⟩ 0 ⟨0, .int 1⟩ begun (by cbv) (by cbv) (by cbv)
  have rebuilt := (first.removed (.int 1)).removed (.int 2)
  have again := rebuilt.stored (.int 1) (.int 1)
  have second := step ⟨0⟩ 1 ⟨3, .int 1⟩ again (by cbv) (by cbv) (by cbv)
  have other := step ⟨1⟩ 0 ⟨2, .int 3⟩ second (by cbv) (by cbv) (by cbv)
  exact ⟨_, _, other, by cbv, by cbv, other.inOrder⟩

end ObjectModel
