import ObjectModel.Iteration
import ObjectModel.Proofs.Outcome
import ObjectModel.Proofs.Table.Chronicle
import ObjectModel.Proofs.Table.Slots
import Mathlib

/-!
# Traversals of a table that changes

A cursor over a table remembers the slot after the one that it yielded last. Additions and removals
between its steps leave every key on its side of the cursor, until a removal rebuilds the table. The
keys move up then and the cursor does not, so keys that it has not yielded can come to stand behind
it. Those are all that it misses.
-/

namespace ObjectModel

/-! ## References that have been given out -/

namespace Pool

variable {α : Type}

/-- The contents of an object, if there is one. -/
def get? (pool : Pool α) (ref : Ref) : Option α :=
  pool.cells[ref.index]?

theorem get_of_get? [Inhabited α] {pool : Pool α} {ref : Ref} {contents : α}
    (holds : pool.get? ref = some contents) : pool.get ref = contents := by
  rw [get?] at holds
  simp [get, holds]

theorem get?_set_self {pool : Pool α} {ref : Ref} {old : α} (holds : pool.get? ref = some old)
    (contents : α) : (pool.set ref contents).get? ref = some contents := by
  obtain ⟨known, -⟩ := Array.getElem?_eq_some_iff.mp holds
  simp [get?, set, known]

end Pool

/-! ## Changes on both sides of a place -/

namespace Table

variable {κ ν : Type} {table : Table κ ν}

theorem length_keys_behind_le (table : Table κ ν) (place : Nat) :
    (table.behind place).length ≤ table.keys.length := by
  rw [keys, List.length_map, ← behind_append_ahead table place, List.length_append]
  exact Nat.le_add_right _ _

theorem length_behind_push_le (table : Table κ ν) (entry : Entry κ ν) (place : Nat) :
    (table.behind place).length ≤ ((table.push entry).behind place).length := by
  by_cases inside : place ≤ table.slots.size
  · exact Nat.le_of_eq (congrArg List.length (behind_push_of_le entry inside).symm)
  · rw [behind_of_size_le (by omega), behind_of_size_le (by simp [push]; omega), entries_push,
      List.length_append]
    exact Nat.le_add_right _ _

theorem length_behind_compact (table : Table κ ν) (place : Nat) :
    (table.compact.behind place).length = min place table.keys.length := by
  rw [behind_compact, List.length_take, keys, List.length_map]

theorem length_behind_lt_iff {slot : Nat} {entry : Entry κ ν}
    (holds : table.entryAt? slot = some entry) (place : Nat) :
    (table.behind slot).length < (table.behind place).length ↔ slot < place := by
  constructor
  · intro lt
    by_contra le
    have mono := table.length_behind_mono (Nat.le_of_not_lt le)
    omega
  · intro lt
    have mono := table.length_behind_mono (Nat.succ_le_of_lt lt)
    rw [Nat.succ_eq_add_one, behind_succ, holds, Option.toList_some, List.length_append,
      List.length_singleton] at mono
    omega

theorem length_behind_setValue (table : Table κ ν) (slot : Nat) (value : ν) (place : Nat) :
    ((table.setValue slot value).behind place).length = (table.behind place).length := by
  induction place with
  | zero => simp
  | succ place induction =>
      rw [behind_succ, behind_succ, List.length_append, List.length_append, induction,
        entryAt?_setValue]
      split
      · cases table.entryAt? place <;> rfl
      · rfl

theorem size_le_insert (table : Table κ ν) (hash : UInt64) (matchesKey : κ → Bool) (key : κ)
    (value : ν) : table.size ≤ (table.insert hash matchesKey key value).size := by
  rw [insert]
  split
  · exact Nat.le_refl _
  · exact Nat.le_succ _

theorem keys_setValue {slot : Nat} {entry : Entry κ ν} (holds : table.entryAt? slot = some entry)
    (value : ν) : (table.setValue slot value).keys = table.keys := by
  rw [keys, keys, entries_setValue holds, entries_eq_of_entryAt? holds]
  simp

theorem keys_vacate {slot : Nat} {entry : Entry κ ν} (holds : table.entryAt? slot = some entry)
    (hash : UInt64) :
    (table.vacate hash slot).keys = table.keys.eraseIdx (table.behind slot).length := by
  rw [keys, keys, entries_vacate holds, entries_eq_of_entryAt? holds, List.map_append,
    List.map_append, List.map_cons, List.eraseIdx_append_of_length_le (by simp)]
  simp

theorem keys_compact (table : Table κ ν) : table.compact.keys = table.keys := by
  rw [keys, entries_compact, keys]

theorem keys_eraseSlot {slot : Nat} {entry : Entry κ ν} (holds : table.entryAt? slot = some entry)
    (hash : UInt64) :
    (table.eraseSlot hash slot).keys = table.keys.eraseIdx (table.behind slot).length := by
  rw [← keys_vacate holds hash, eraseSlot]
  split
  · exact keys_compact _
  · rfl

/-- A rebuilding brings no key from behind a place to the keys ahead of it. -/
theorem length_behind_vacate_le (table : Table κ ν) (hash : UInt64) (slot place : Nat) :
    ((table.vacate hash slot).behind place).length ≤
      ((table.eraseSlot hash slot).behind place).length := by
  rw [eraseSlot]
  split
  · rw [length_behind_compact]
    exact Nat.le_min.mpr ⟨length_behind_le _ place, length_keys_behind_le _ place⟩
  · exact Nat.le_refl _

end Table

/-! ## Steps of a table and a cursor -/

namespace Chronicle

/-- A table changes while the cursor stays in its place. -/
def keep (chronicle : Chronicle) (before after : Table Value Value) (place : Nat) : Chronicle :=
  chronicle.overtake (before.behind place).length (after.behind place).length

/-- The key in a slot goes. If the table is rebuilt then and there have been empty slots behind the
cursor, the walk is disturbed. -/
def remove (chronicle : Chronicle) (table : Table Value Value) (hash : UInt64) (slot place : Nat) :
    Chronicle :=
  let rest := table.vacate hash slot
  let left := chronicle.erase (table.behind slot).length
  (left.keep rest (table.eraseSlot hash slot) place).disturb
    (rest.isSparse && (rest.behind place).length < place)

/-- A chronicle is true of a table and the place of a cursor. -/
structure Follows (chronicle : Chronicle) (table : Table Value Value) (place : Nat) : Prop where
  /-- It accounts for the keys on both sides of the cursor. -/
  fits : chronicle.Fits table.keys (table.behind place).length
  /-- Without disturbance the cursor has passed over nothing and stands among the slots. -/
  undisturbed : chronicle.disturbed = false →
    chronicle.overtaken = [] ∧ place ≤ table.slots.size

theorem follows_start (table : Table Value Value) : (start table.keys).Follows table 0 where
  fits := by
    rw [Table.behind_zero]
    exact fits_start table.keys
  undisturbed _ := ⟨rfl, Nat.zero_le _⟩

variable {chronicle : Chronicle} {table : Table Value Value} {place : Nat}

theorem Follows.push (follows : chronicle.Follows table place) (hash : UInt64)
    (key value : Value) :
    ((chronicle.insert key).keep table (table.push ⟨hash, key, value⟩) place).Follows
      (table.push ⟨hash, key, value⟩) place where
  fits := by
    have fits := follows.fits.insert (table.length_keys_behind_le place) key
    have keys_eq : (table.push ⟨hash, key, value⟩).keys = table.keys ++ [key] := by
      simp [Table.keys]
    rw [keys_eq]
    exact fits.overtake (Table.length_behind_push_le table _ place)
  undisturbed calm := by
    obtain ⟨none_overtaken, inside⟩ := follows.undisturbed calm
    have same_behind := Table.behind_push_of_le (⟨hash, key, value⟩ : Entry Value Value) inside
    rw [keep, same_behind, overtaken_overtake_self]
    exact ⟨none_overtaken, by simp [Table.push]; omega⟩

theorem Follows.setValue (follows : chronicle.Follows table place) {slot : Nat}
    {entry : Entry Value Value} (holds : table.entryAt? slot = some entry) (value : Value) :
    chronicle.Follows (table.setValue slot value) place where
  fits := by
    rw [Table.keys_setValue holds, Table.length_behind_setValue]
    exact follows.fits
  undisturbed calm := by
    simpa [Table.setValue] using follows.undisturbed calm

theorem Follows.remove (follows : chronicle.Follows table place) (hash : UInt64) {slot : Nat}
    {entry : Entry Value Value} (holds : table.entryAt? slot = some entry) :
    (chronicle.remove table hash slot place).Follows (table.eraseSlot hash slot) place := by
  let rest := table.vacate hash slot
  have erased : (chronicle.erase (table.behind slot).length).Fits rest.keys
      (rest.behind place).length := by
    rw [Table.keys_vacate holds]
    apply follows.fits.erase
    simpa only [Table.length_behind_lt_iff holds] using
      Table.length_behind_vacate holds hash place
  rw [Chronicle.remove, Table.eraseSlot]
  by_cases sparse : rest.isSparse
  · have rank_le : (rest.behind place).length ≤ (rest.compact.behind place).length := by
      have vacate_le := table.length_behind_vacate_le hash slot place
      rwa [Table.eraseSlot, if_pos sparse] at vacate_le
    have moved := erased.overtake rank_le
    rw [← rest.keys_compact] at moved
    rw [if_pos sparse]
    refine ⟨moved.disturb _, fun calm => ?_⟩
    rw [disturb, Bool.or_eq_false_iff, sparse, Bool.true_and, decide_eq_false_iff_not] at calm
    have full : (rest.behind place).length = place :=
      Nat.le_antisymm (rest.length_behind_le place) (Nat.le_of_not_lt calm.2)
    have place_le : place ≤ rest.keys.length := full ▸ rest.length_keys_behind_le place
    have same_rank : (rest.compact.behind place).length = (rest.behind place).length := by
      rw [Table.length_behind_compact, full, Nat.min_eq_left place_le]
    constructor
    · rw [disturb, keep, same_rank, overtaken_overtake_self]
      exact (follows.undisturbed calm.1).1
    · rw [Table.size_slots_compact]
      simpa [Table.keys] using place_le
  · rw [if_neg sparse]
    refine ⟨(erased.overtake (Nat.le_refl _)).disturb _, fun calm => ?_⟩
    obtain ⟨none_overtaken, inside⟩ := follows.undisturbed (Bool.or_eq_false_iff.mp calm).1
    constructor
    · rw [disturb, keep, overtaken_overtake_self]
      exact none_overtaken
    · rw [Table.size_slots_vacate]
      exact inside

theorem Follows.yield (follows : chronicle.Follows table place) {slot : Nat}
    {entry : Entry Value Value} (found : table.firstFrom? place = some (slot, entry)) :
    (chronicle.yield (table.behind place).length entry.key).Follows table (slot + 1) where
  fits := by
    obtain ⟨holds, behind_eq⟩ := Table.firstFrom?_spec found
    have rank_eq : (table.behind (slot + 1)).length = (table.behind place).length + 1 := by
      rw [Table.behind_succ, holds, behind_eq, List.length_append]
      rfl
    rw [rank_eq]
    apply follows.fits.yield
    rw [Table.keys, Table.entries_eq_of_entryAt? holds, behind_eq]
    simp
  undisturbed calm := by
    obtain ⟨holds, -⟩ := Table.firstFrom?_spec found
    exact ⟨(follows.undisturbed calm).1, Table.lt_size_of_entryAt? holds⟩

/-! ## Steps with values as keys -/

variable {store : Store} {after : Table Value Value} {key value : Value}

/-- A table that grows has a new key behind all others. -/
theorem Follows.insertKey_of_lt (follows : chronicle.Follows table place)
    (inserts : store.insertKey table key value = .ok after) (grows : table.size < after.size) :
    ((chronicle.insert key).keep table after place).Follows after place := by
  obtain ⟨hash, -, rfl⟩ := Store.insertKey_eq_ok.mp inserts
  cases search : table.find? hash (store.equals · key) with
  | none =>
      rw [Table.insert_of_find?_eq_none search]
      exact follows.push hash key value
  | some slot =>
      rw [Table.insert_of_find?_eq_some search] at grows
      exact (Nat.lt_irrefl _ grows).elim

/-- A table that does not grow has the same keys as before. -/
theorem Follows.insertKey_of_eq (follows : chronicle.Follows table place)
    (inserts : store.insertKey table key value = .ok after)
    (same_size : table.size = after.size) : chronicle.Follows after place := by
  obtain ⟨hash, -, rfl⟩ := Store.insertKey_eq_ok.mp inserts
  cases search : table.find? hash (store.equals · key) with
  | none =>
      rw [Table.insert_of_find?_eq_none search] at same_size
      exact (Nat.succ_ne_self _ same_size.symm).elim
  | some slot =>
      obtain ⟨entry, holds⟩ := Table.entryAt?_of_find? search
      rw [Table.insert_of_find?_eq_some search]
      exact follows.setValue holds value

theorem Follows.eraseKey (follows : chronicle.Follows table place) {hash : UInt64} {slot : Nat}
    (hashes : store.hash key = .ok hash)
    (found : table.find? hash (store.equals · key) = some slot)
    (erases : store.eraseKey table key = .ok (value, after)) :
    (chronicle.remove table hash slot place).Follows after place := by
  obtain ⟨same_hash, entry, hashes_again, erases, -⟩ := Store.eraseKey_eq_ok.mp erases
  obtain rfl : hash = same_hash := Except.ok.inj (hashes.symm.trans hashes_again)
  obtain ⟨same_slot, found_again, holds, rfl⟩ := Table.erase?_eq_some erases
  obtain rfl : slot = same_slot := Option.some.inj (found.symm.trans found_again)
  exact follows.remove hash holds

end Chronicle

/-! ## Effects on a table and a cursor -/

namespace Effect

theorem outcome_nextInTable (cursor : Ref) (world : World) :
    outcome (nextInTable cursor) world =
      match (world.store.table (world.store.keyCursors.get cursor).target).firstFrom?
          (world.store.keyCursors.get cursor).place with
      | some (slot, entry) =>
          (.ok entry.key,
            { world with store := { world.store with
                keyCursors := world.store.keyCursors.set cursor
                  { world.store.keyCursors.get cursor with place := slot + 1 } } })
      | none => (.error .endOfSequence, world) := by
  rw [nextInTable, outcome_bind_of_ok (outcome_getStore world)]
  dsimp only
  cases (world.store.table (world.store.keyCursors.get cursor).target).firstFrom?
      (world.store.keyCursors.get cursor).place with
  | none => rfl
  | some found => rfl

end Effect

/-! ## Traversals -/

/-- A table has the given contents, and a cursor over it stands at the given place. -/
def Store.Shows (store : Store) (table cursor : Ref) (contents : Table Value Value)
    (place : Nat) : Prop :=
  store.tables.get? table = some contents ∧
    store.keyCursors.get? cursor = some { target := table, place }

open Effect in
/-- The worlds that a cursor over a table lives through, each with what has happened so far. Keys
come and go and the cursor takes its steps in any order; whatever else happens changes neither the
table nor the cursor. -/
inductive Traversal (table cursor : Ref) : World → Chronicle → Prop
  | opened {world : World} {contents : Table Value Value}
      (shows : world.store.Shows table cursor contents 0) :
      Traversal table cursor world (.start contents.keys)
  | inserted {world later : World} {chronicle : Chronicle} {contents after : Table Value Value}
      {place : Nat} {key value : Value} (earlier : Traversal table cursor world chronicle)
      (shows : world.store.Shows table cursor contents place)
      (inserts : world.store.insertKey contents key value = .ok after)
      (grows : contents.size < after.size)
      (shows_later : later.store.Shows table cursor after place) :
      Traversal table cursor later ((chronicle.insert key).keep contents after place)
  | replaced {world later : World} {chronicle : Chronicle} {contents after : Table Value Value}
      {place : Nat} {key value : Value} (earlier : Traversal table cursor world chronicle)
      (shows : world.store.Shows table cursor contents place)
      (inserts : world.store.insertKey contents key value = .ok after)
      (same_size : contents.size = after.size)
      (shows_later : later.store.Shows table cursor after place) :
      Traversal table cursor later chronicle
  | removed {world later : World} {chronicle : Chronicle} {contents after : Table Value Value}
      {place slot : Nat} {key value : Value} {hash : UInt64}
      (earlier : Traversal table cursor world chronicle)
      (shows : world.store.Shows table cursor contents place)
      (hashes : world.store.hash key = .ok hash)
      (found : contents.find? hash (world.store.equals · key) = some slot)
      (erases : world.store.eraseKey contents key = .ok (value, after))
      (shows_later : later.store.Shows table cursor after place) :
      Traversal table cursor later (chronicle.remove contents hash slot place)
  | yielded {world later : World} {chronicle : Chronicle} {contents : Table Value Value}
      {place : Nat} {key : Value} (earlier : Traversal table cursor world chronicle)
      (shows : world.store.Shows table cursor contents place)
      (steps : outcome (nextInTable cursor) world = (.ok key, later)) :
      Traversal table cursor later (chronicle.yield (contents.behind place).length key)
  | elsewhere {world later : World} {chronicle : Chronicle} {contents : Table Value Value}
      {place : Nat} (earlier : Traversal table cursor world chronicle)
      (shows : world.store.Shows table cursor contents place)
      (shows_later : later.store.Shows table cursor contents place) :
      Traversal table cursor later chronicle

namespace Traversal

variable {table cursor : Ref} {world : World} {chronicle : Chronicle}

open Effect

theorem shows_eq {store : Store} {contents other : Table Value Value} {place elsewhere : Nat}
    (shows : store.Shows table cursor contents place)
    (shows_other : store.Shows table cursor other elsewhere) :
    contents = other ∧ place = elsewhere := by
  have same_contents := shows.1.symm.trans shows_other.1
  have same_cursor := shows.2.symm.trans shows_other.2
  simp_all

theorem outcome_nextInTable_of_shows {contents : Table Value Value} {place : Nat}
    (shows : world.store.Shows table cursor contents place) :
    outcome (nextInTable cursor) world =
      match contents.firstFrom? place with
      | some (slot, entry) =>
          (.ok entry.key,
            { world with store := { world.store with
                keyCursors := world.store.keyCursors.set cursor
                  { target := table, place := slot + 1 } } })
      | none => (.error .endOfSequence, world) := by
  have contents_eq : world.store.table table = contents := Pool.get_of_get? shows.1
  rw [outcome_nextInTable, Pool.get_of_get? shows.2]
  dsimp only
  rw [contents_eq]

/-- At all times the chronicle is true of the table and the cursor. -/
theorem follows (traversal : Traversal table cursor world chronicle) :
    ∃ contents place, world.store.Shows table cursor contents place ∧
      chronicle.Follows contents place := by
  induction traversal with
  | @opened world contents shows =>
      exact ⟨contents, 0, shows, Chronicle.follows_start contents⟩
  | @inserted world later chronicle contents after place key value earlier shows inserts grows
      shows_later induction =>
      obtain ⟨other, elsewhere, shows_other, follows⟩ := induction
      obtain ⟨rfl, rfl⟩ := shows_eq shows_other shows
      exact ⟨after, elsewhere, shows_later, follows.insertKey_of_lt inserts grows⟩
  | @replaced world later chronicle contents after place key value earlier shows inserts same_size
      shows_later induction =>
      obtain ⟨other, elsewhere, shows_other, follows⟩ := induction
      obtain ⟨rfl, rfl⟩ := shows_eq shows_other shows
      exact ⟨after, elsewhere, shows_later, follows.insertKey_of_eq inserts same_size⟩
  | @removed world later chronicle contents after place slot key value hash earlier shows hashes
      found erases shows_later induction =>
      obtain ⟨other, elsewhere, shows_other, follows⟩ := induction
      obtain ⟨rfl, rfl⟩ := shows_eq shows_other shows
      exact ⟨after, elsewhere, shows_later, follows.eraseKey hashes found erases⟩
  | @yielded world later chronicle contents place key earlier shows steps induction =>
      obtain ⟨other, elsewhere, shows_other, follows⟩ := induction
      obtain ⟨rfl, rfl⟩ := shows_eq shows_other shows
      rw [outcome_nextInTable_of_shows shows] at steps
      cases search : other.firstFrom? elsewhere with
      | none => simp [search] at steps
      | some found =>
          obtain ⟨slot, entry⟩ := found
          rw [search, Prod.mk.injEq, Except.ok.injEq] at steps
          obtain ⟨rfl, rfl⟩ := steps
          exact ⟨other, slot + 1, ⟨shows.1, Pool.get?_set_self shows.2 _⟩, follows.yield search⟩
  | @elsewhere world later chronicle contents place earlier shows shows_later induction =>
      obtain ⟨other, elsewhere, shows_other, follows⟩ := induction
      obtain ⟨rfl, rfl⟩ := shows_eq shows_other shows
      exact ⟨other, elsewhere, shows_later, follows⟩

/-- Each result of the cursor is a step of it. -/
theorem after_nextInTable (traversal : Traversal table cursor world chronicle) (key : Value)
    (steps : (outcome (nextInTable cursor) world).1 = .ok key) :
    ∃ next, Traversal table cursor (outcome (nextInTable cursor) world).2 next ∧
      next.reported = chronicle.reported ++ [key] := by
  obtain ⟨contents, place, shows, -⟩ := traversal.follows
  exact ⟨_, traversal.yielded shows (Prod.ext steps rfl), rfl⟩

/-- Storing a value for a key is a step of the table, or fails and changes nothing. -/
theorem after_setKey (traversal : Traversal table cursor world chronicle) (key value : Value) :
    ∃ next, Traversal table cursor (outcome (setKey table key value) world).2 next ∧
      next.reported = chronicle.reported := by
  obtain ⟨contents, place, shows, -⟩ := traversal.follows
  rw [outcome_setKey, Store.table, Pool.get_of_get? shows.1]
  cases inserts : world.store.insertKey contents key value with
  | error fault => exact ⟨chronicle, traversal, rfl⟩
  | ok after =>
      have size_le : contents.size ≤ after.size := by
        obtain ⟨hash, -, rfl⟩ := Store.insertKey_eq_ok.mp inserts
        exact Table.size_le_insert contents hash _ key value
      have shows_later : Store.Shows { world.store with
          tables := world.store.tables.set table after } table cursor after place :=
        ⟨Pool.get?_set_self shows.1 after, shows.2⟩
      rcases Nat.lt_or_eq_of_le size_le with grows | same_size
      · exact ⟨_, traversal.inserted shows inserts grows shows_later, rfl⟩
      · exact ⟨_, traversal.replaced shows inserts same_size shows_later, rfl⟩

/-- Putting elements into a set is a step of the table for each of them, up to the first that
fails. -/
theorem after_addElements (traversal : Traversal table cursor world chronicle)
    (elements : List Value) :
    ∃ next, Traversal table cursor (outcome (addElements table elements) world).2 next ∧
      next.reported = chronicle.reported := by
  induction elements generalizing world chronicle with
  | nil => exact ⟨chronicle, traversal, rfl⟩
  | cons element elements induction =>
      obtain ⟨middle, step, same_reports⟩ := traversal.after_setKey element element
      rw [addElements_cons, outcome_bind]
      cases result : outcome (setKey table element element) world with
      | mk answer later =>
          rw [result] at step
          cases answer with
          | error fault => exact ⟨middle, step, same_reports⟩
          | ok done =>
              obtain ⟨next, steps, same_again⟩ := induction step
              exact ⟨next, steps, same_again.trans same_reports⟩

/-- Taking an element out is a step of the table, or fails and changes nothing. -/
theorem after_removeElement (traversal : Traversal table cursor world chronicle)
    (element : Value) :
    ∃ next, Traversal table cursor (outcome (removeElement table element) world).2 next ∧
      next.reported = chronicle.reported := by
  obtain ⟨contents, place, shows, -⟩ := traversal.follows
  rw [outcome_removeElement, Store.table, Pool.get_of_get? shows.1]
  cases erases : world.store.eraseKey contents element with
  | error fault => exact ⟨chronicle, traversal, rfl⟩
  | ok outcome =>
      obtain ⟨value, after⟩ := outcome
      have shows_later : Store.Shows { world.store with
          tables := world.store.tables.set table after } table cursor after place :=
        ⟨Pool.get?_set_self shows.1 after, shows.2⟩
      obtain ⟨hash, entry, hashes, erased, -⟩ := Store.eraseKey_eq_ok.mp erases
      obtain ⟨slot, found, -⟩ := Table.erase?_eq_some erased
      exact ⟨_, traversal.removed shows hashes found erases shows_later, rfl⟩

/-- When a cursor reports the end, it has yielded those of the keys in the table that it has not
passed over, and no others. If the table has never been rebuilt while there were empty slots behind
the cursor, it has passed over none. -/
theorem yielded_iff_not_overtaken (traversal : Traversal table cursor world chronicle)
    (ends : (outcome (nextInTable cursor) world).1 = .error .endOfSequence) :
    chronicle.arrivals.map (·.key) = world.store.elements table ∧
      chronicle.yielded.map (·.key) = chronicle.reported ∧
      (∀ arrival ∈ chronicle.arrivals,
        arrival ∈ chronicle.yielded ↔ arrival ∉ chronicle.overtaken) ∧
      (chronicle.disturbed = false → ∀ arrival ∈ chronicle.arrivals,
        arrival.key ∈ chronicle.reported) := by
  obtain ⟨contents, place, shows, follows⟩ := traversal.follows
  have contents_eq : world.store.table table = contents := Pool.get_of_get? shows.1
  have none_ahead : contents.ahead place = [] := by
    apply Table.ahead_eq_nil_of_firstFrom?
    rw [outcome_nextInTable_of_shows shows] at ends
    cases search : contents.firstFrom? place with
    | none => rfl
    | some found => simp [search] at ends
  have length_eq : chronicle.arrivals.length = (contents.behind place).length := by
    rw [follows.fits.length_arrivals, Table.keys, List.length_map,
      ← Table.behind_append_ahead contents place, none_ahead, List.append_nil]
  have all_behind : chronicle.arrivals.take (contents.behind place).length = chronicle.arrivals :=
    List.take_of_length_le (Nat.le_of_eq length_eq)
  have accounted : ∀ arrival ∈ chronicle.arrivals,
      arrival ∈ chronicle.yielded ↔ arrival ∉ chronicle.overtaken := by
    intro arrival member
    rw [← all_behind] at member
    exact follows.fits.behind_iff arrival member
  refine ⟨?_, follows.fits.reported_eq, accounted, ?_⟩
  · rw [follows.fits.keys_eq, Store.elements, contents_eq]
  · intro calm arrival member
    have not_overtaken : arrival ∉ chronicle.overtaken := by
      rw [(follows.undisturbed calm).1]
      exact List.not_mem_nil
    rw [← follows.fits.reported_eq]
    exact List.mem_map_of_mem ((accounted arrival member).mpr not_overtaken)

/-- The world after a set with the given elements has been made, and a cursor over it. -/
def openedSet (elements : List Value) : World :=
  (outcome (do let _ ← newSet .mutable elements; newKeyCursor ⟨0⟩) {}).2

/-- A cursor over three elements. After the first of them, the second goes and a fourth comes. -/
theorem yielded_iff_not_overtaken_four : ∃ world chronicle,
    Traversal ⟨0⟩ ⟨0⟩ world chronicle ∧
      (outcome (nextInTable ⟨0⟩) world).1 = .error .endOfSequence ∧
      chronicle.reported = [.int 1, .int 3, .int 4] ∧
      chronicle.arrivals.map (·.key) = world.store.elements ⟨0⟩ ∧
      chronicle.yielded.map (·.key) = chronicle.reported ∧
      (∀ arrival ∈ chronicle.arrivals,
        arrival ∈ chronicle.yielded ↔ arrival ∉ chronicle.overtaken) ∧
      (chronicle.disturbed = false → ∀ arrival ∈ chronicle.arrivals,
        arrival.key ∈ chronicle.reported) := by
  let start := openedSet [.int 1, .int 2, .int 3]
  have shows : start.store.Shows ⟨0⟩ ⟨0⟩ (start.store.table ⟨0⟩) 0 := ⟨by cbv, by cbv⟩
  obtain ⟨_, traversal, first⟩ := (opened shows).after_nextInTable (.int 1) (by cbv)
  obtain ⟨_, traversal, without⟩ := traversal.after_removeElement (.int 2)
  obtain ⟨_, traversal, grown⟩ := traversal.after_addElements [.int 4]
  obtain ⟨_, traversal, second⟩ := traversal.after_nextInTable (.int 3) (by cbv)
  obtain ⟨_, traversal, third⟩ := traversal.after_nextInTable (.int 4) (by cbv)
  refine ⟨_, _, traversal, by cbv, ?_, traversal.yielded_iff_not_overtaken (by cbv)⟩
  rw [third, second, grown, without, first]
  rfl

/-- An element that comes after the last one has gone is missed. -/
theorem not_all_reported :
    ¬ ∀ (table cursor : Ref) (world : World) (chronicle : Chronicle),
      Traversal table cursor world chronicle →
      (outcome (nextInTable cursor) world).1 = .error .endOfSequence →
      ∀ key ∈ world.store.elements table, key ∈ chronicle.reported := by
  intro always
  let start := openedSet [.int 1]
  have shows : start.store.Shows ⟨0⟩ ⟨0⟩ (start.store.table ⟨0⟩) 0 := ⟨by cbv, by cbv⟩
  obtain ⟨_, traversal, first⟩ := (opened shows).after_nextInTable (.int 1) (by cbv)
  obtain ⟨_, traversal, emptied⟩ := traversal.after_removeElement (.int 1)
  obtain ⟨_, traversal, refilled⟩ := traversal.after_setKey (.int 2) (.int 2)
  have listed := always _ _ _ _ traversal (by cbv) (.int 2)
  rw [refilled, emptied, first] at listed
  have present : (outcome (setKey ⟨0⟩ (.int 2) (.int 2)) (outcome (removeElement ⟨0⟩ (.int 1))
      (outcome (nextInTable ⟨0⟩) start).2).2).2.store.elements ⟨0⟩ = [.int 2] := by cbv
  rw [present] at listed
  have reported : Value.int 2 ∈ [Value.int 1] := listed (List.mem_singleton_self _)
  simp at reported

end Traversal
end ObjectModel
