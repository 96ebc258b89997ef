import ObjectModel.Table
import Mathlib.Data.List.Basic

/-!
# The slots of a table

A place divides the slots of a table into those behind it and those ahead of it. The entries of a
table are those behind a place, followed by those ahead of it. This file says what each operation
does on both sides of a place, and what a search from a place finds.
-/

namespace ObjectModel
namespace Table

variable {κ ν : Type}

/-- The entries in slots before a place. -/
def behind (table : Table κ ν) (place : Nat) : List (Entry κ ν) :=
  (table.slots.toList.take place).filterMap id

/-- The entries in slots from a place on. -/
def ahead (table : Table κ ν) (place : Nat) : List (Entry κ ν) :=
  (table.slots.toList.drop place).filterMap id

theorem behind_append_ahead (table : Table κ ν) (place : Nat) :
    table.behind place ++ table.ahead place = table.entries := by
  rw [behind, ahead, ← List.filterMap_append, List.take_append_drop, entries]

@[simp]
theorem behind_zero (table : Table κ ν) : table.behind 0 = [] := by
  simp [behind]

theorem behind_of_size_le {table : Table κ ν} {place : Nat} (beyond : table.slots.size ≤ place) :
    table.behind place = table.entries := by
  rw [behind, List.take_of_length_le (by simpa using beyond), entries]

theorem ahead_of_size_le {table : Table κ ν} {place : Nat} (beyond : table.slots.size ≤ place) :
    table.ahead place = [] := by
  rw [ahead, List.drop_of_length_le (by simpa using beyond), List.filterMap_nil]

theorem ahead_suffix (table : Table κ ν) {place later : Nat} (le : place ≤ later) :
    table.ahead later <:+ table.ahead place :=
  (List.drop_suffix_drop_left _ le).filterMap id

theorem length_behind_le (table : Table κ ν) (place : Nat) :
    (table.behind place).length ≤ place :=
  Nat.le_trans (List.length_filterMap_le _ _) (List.length_take_le _ _)

theorem length_behind_mono (table : Table κ ν) {place later : Nat} (le : place ≤ later) :
    (table.behind place).length ≤ (table.behind later).length :=
  ((List.take_sublist_take_left le).filterMap id).length_le

/-! ## Single slots -/

theorem entryAt?_eq (table : Table κ ν) (slot : Nat) :
    table.entryAt? slot = (table.slots.toList[slot]?).join := by
  rw [entryAt?, Array.getElem?_toList]

theorem lt_size_of_entryAt? {table : Table κ ν} {slot : Nat} {entry : Entry κ ν}
    (holds : table.entryAt? slot = some entry) : slot < table.slots.size := by
  by_contra beyond
  rw [entryAt?, Array.getElem?_eq_none (by omega)] at holds
  simp at holds

theorem behind_succ (table : Table κ ν) (slot : Nat) :
    table.behind (slot + 1) = table.behind slot ++ (table.entryAt? slot).toList := by
  rw [behind, behind, List.take_add_one, List.filterMap_append, entryAt?_eq]
  cases table.slots.toList[slot]? with
  | none => rfl
  | some content => cases content <;> rfl

theorem ahead_eq (table : Table κ ν) (slot : Nat) :
    table.ahead slot = (table.entryAt? slot).toList ++ table.ahead (slot + 1) := by
  have whole : table.behind slot ++ table.ahead slot =
      table.behind slot ++ ((table.entryAt? slot).toList ++ table.ahead (slot + 1)) := by
    rw [← List.append_assoc, ← behind_succ, behind_append_ahead, behind_append_ahead]
  exact List.append_cancel_left whole

theorem mem_behind {table : Table κ ν} {place : Nat} {entry : Entry κ ν} :
    entry ∈ table.behind place ↔ ∃ slot < place, table.entryAt? slot = some entry := by
  induction place with
  | zero => simp
  | succ place induction =>
      rw [behind_succ, List.mem_append, induction, Option.mem_toList]
      constructor
      · rintro (⟨slot, lt, holds⟩ | holds)
        · exact ⟨slot, by omega, holds⟩
        · exact ⟨place, by omega, holds⟩
      · rintro ⟨slot, lt, holds⟩
        rcases Nat.lt_succ_iff_lt_or_eq.mp lt with lt | rfl
        · exact .inl ⟨slot, lt, holds⟩
        · exact .inr holds

theorem mem_entries {table : Table κ ν} {entry : Entry κ ν} :
    entry ∈ table.entries ↔ ∃ slot, table.entryAt? slot = some entry := by
  rw [← behind_of_size_le (Nat.le_refl _), mem_behind]
  constructor
  · rintro ⟨slot, -, holds⟩
    exact ⟨slot, holds⟩
  · rintro ⟨slot, holds⟩
    exact ⟨slot, lt_size_of_entryAt? holds, holds⟩

/-- The entries around an occupied slot. -/
theorem entries_eq_of_entryAt? {table : Table κ ν} {slot : Nat} {entry : Entry κ ν}
    (holds : table.entryAt? slot = some entry) :
    table.entries = table.behind slot ++ entry :: table.ahead (slot + 1) := by
  rw [← behind_append_ahead table slot, ahead_eq, holds, Option.toList_some, List.singleton_append]

/-! ## Additions -/

theorem entryAt?_push (table : Table κ ν) (entry : Entry κ ν) (slot : Nat) :
    (table.push entry).entryAt? slot =
      if slot = table.slots.size then some entry else table.entryAt? slot := by
  rw [entryAt?, push, Array.getElem?_push]
  split
  · rfl
  · rfl

theorem behind_push_of_le {table : Table κ ν} {place : Nat} (entry : Entry κ ν)
    (le : place ≤ table.slots.size) : (table.push entry).behind place = table.behind place := by
  simp [behind, push, List.take_append_of_le_length, le]

/-! ## New values -/

/-- Replaces the value of the entry in a slot. -/
def setValue (table : Table κ ν) (slot : Nat) (value : ν) : Table κ ν :=
  { table with slots := table.slots.modify slot (Option.map ({ · with value })) }

theorem insert_of_find?_eq_some {table : Table κ ν} {hash : UInt64} {matchesKey : κ → Bool}
    {slot : Nat} (found : table.find? hash matchesKey = some slot) (key : κ) (value : ν) :
    table.insert hash matchesKey key value = table.setValue slot value := by
  rw [insert, found, setValue]

theorem insert_of_find?_eq_none {table : Table κ ν} {hash : UInt64} {matchesKey : κ → Bool}
    (missing : table.find? hash matchesKey = none) (key : κ) (value : ν) :
    table.insert hash matchesKey key value = table.push { hash, key, value } := by
  rw [insert, missing]

theorem entryAt?_setValue (table : Table κ ν) (slot : Nat) (value : ν) (other : Nat) :
    (table.setValue slot value).entryAt? other =
      if other = slot then (table.entryAt? other).map ({ · with value })
      else table.entryAt? other := by
  rw [entryAt?, setValue, Array.getElem?_modify, entryAt?]
  by_cases same : other = slot
  · subst same
    cases table.slots[other]? with
    | none => simp
    | some content => cases content <;> simp
  · simp [same, Ne.symm same]

theorem entries_setValue {table : Table κ ν} {slot : Nat} {entry : Entry κ ν}
    (holds : table.entryAt? slot = some entry) (value : ν) :
    (table.setValue slot value).entries =
      table.behind slot ++ { entry with value } :: table.ahead (slot + 1) := by
  have lt : slot < table.slots.toList.length := by simpa using lt_size_of_entryAt? holds
  have content : table.slots.toList[slot] = some entry := by
    rw [entryAt?_eq, List.getElem?_eq_getElem lt] at holds
    simpa using holds
  rw [entries, setValue, Array.toList_modify, List.modify_eq_take_cons_drop lt, content]
  simp [behind, ahead]

/-! ## Removals -/

@[simp]
theorem size_slots_vacate (table : Table κ ν) (hash : UInt64) (slot : Nat) :
    (table.vacate hash slot).slots.size = table.slots.size := by
  simp [vacate]

theorem entryAt?_vacate (table : Table κ ν) (hash : UInt64) (slot other : Nat) :
    (table.vacate hash slot).entryAt? other =
      if other = slot then none else table.entryAt? other := by
  rw [entryAt?, vacate, Array.getElem?_setIfInBounds, entryAt?]
  by_cases same : other = slot
  · subst same
    rw [if_pos rfl, if_pos rfl]
    split <;> rfl
  · simp [same, Ne.symm same]

theorem entries_vacate {table : Table κ ν} {slot : Nat} {entry : Entry κ ν}
    (holds : table.entryAt? slot = some entry) (hash : UInt64) :
    (table.vacate hash slot).entries = table.behind slot ++ table.ahead (slot + 1) := by
  have lt : slot < table.slots.toList.length := by simpa using lt_size_of_entryAt? holds
  rw [entries, vacate, Array.toList_setIfInBounds, List.set_eq_take_append_cons_drop, if_pos lt]
  simp [behind, ahead]

/-- The number of entries behind a place sinks by one if the emptied slot is there. -/
theorem length_behind_vacate {table : Table κ ν} {slot : Nat} {entry : Entry κ ν}
    (holds : table.entryAt? slot = some entry) (hash : UInt64) (place : Nat) :
    (table.behind place).length =
      ((table.vacate hash slot).behind place).length + if slot < place then 1 else 0 := by
  induction place with
  | zero => simp
  | succ place induction =>
      rw [behind_succ, behind_succ, List.length_append, List.length_append, induction,
        entryAt?_vacate]
      by_cases same : place = slot
      · subst same
        simp [holds]
      · have step : (slot < place + 1) = (slot < place) := by
          apply propext
          omega
        rw [if_neg same]
        simp only [step]
        omega

/-! ## Rebuilding -/

theorem slots_foldl_push (entries : List (Entry κ ν)) (table : Table κ ν) :
    (entries.foldl push table).slots.toList = table.slots.toList ++ entries.map some := by
  induction entries generalizing table with
  | nil => simp
  | cons entry entries induction =>
      rw [List.foldl_cons, induction]
      simp [push]

theorem toList_slots_compact (table : Table κ ν) :
    table.compact.slots.toList = table.entries.map some := by
  rw [compact, slots_foldl_push]
  rfl

@[simp]
theorem entries_compact (table : Table κ ν) : table.compact.entries = table.entries := by
  rw [entries, toList_slots_compact]
  simp

theorem size_slots_compact (table : Table κ ν) :
    table.compact.slots.size = table.entries.length := by
  rw [← Array.length_toList, toList_slots_compact, List.length_map]

theorem behind_compact (table : Table κ ν) (place : Nat) :
    table.compact.behind place = table.entries.take place := by
  rw [behind, toList_slots_compact, ← List.map_take]
  simp

/-! ## Erasing -/

theorem entries_eraseSlot {table : Table κ ν} {slot : Nat} {entry : Entry κ ν}
    (holds : table.entryAt? slot = some entry) (hash : UInt64) :
    (table.eraseSlot hash slot).entries = table.behind slot ++ table.ahead (slot + 1) := by
  rw [eraseSlot]
  split
  · rw [entries_compact, entries_vacate holds]
  · exact entries_vacate holds hash

theorem entryAt?_of_find? {table : Table κ ν} {hash : UInt64} {matchesKey : κ → Bool}
    {slot : Nat} (found : table.find? hash matchesKey = some slot) :
    ∃ entry, table.entryAt? slot = some entry := by
  have passes := List.find?_some found
  rw [Option.any_eq_true] at passes
  obtain ⟨entry, holds, -⟩ := passes
  exact ⟨entry, holds⟩

theorem erase?_of_find?_eq_none {table : Table κ ν} {hash : UInt64} {matchesKey : κ → Bool}
    (missing : table.find? hash matchesKey = none) : table.erase? hash matchesKey = none := by
  simp [erase?, missing]

theorem erase?_of_find?_eq_some {table : Table κ ν} {hash : UInt64} {matchesKey : κ → Bool}
    {slot : Nat} {entry : Entry κ ν} (found : table.find? hash matchesKey = some slot)
    (holds : table.entryAt? slot = some entry) :
    table.erase? hash matchesKey = some (entry, table.eraseSlot hash slot) := by
  simp [erase?, found, holds]

/-- What a removal that succeeds has found and emptied. -/
theorem erase?_eq_some {table rest : Table κ ν} {hash : UInt64} {matchesKey : κ → Bool}
    {entry : Entry κ ν} (erases : table.erase? hash matchesKey = some (entry, rest)) :
    ∃ slot, table.find? hash matchesKey = some slot ∧ table.entryAt? slot = some entry ∧
      rest = table.eraseSlot hash slot := by
  cases search : table.find? hash matchesKey with
  | none =>
      rw [erase?_of_find?_eq_none search] at erases
      contradiction
  | some slot =>
      obtain ⟨found, holds⟩ := entryAt?_of_find? search
      rw [erase?_of_find?_eq_some search holds, Option.some.injEq, Prod.mk.injEq] at erases
      obtain ⟨rfl, rfl⟩ := erases
      exact ⟨slot, rfl, holds, rfl⟩

/-! ## The search from a place -/

theorem firstFrom?_of_size_le {table : Table κ ν} {place : Nat}
    (beyond : table.slots.size ≤ place) : table.firstFrom? place = none := by
  simp [firstFrom?, Nat.sub_eq_zero_of_le beyond]

theorem firstFrom?_eq {table : Table κ ν} {place : Nat} (inside : place < table.slots.size) :
    table.firstFrom? place =
      ((table.entryAt? place).map (place, ·)).or (table.firstFrom? (place + 1)) := by
  have step : table.slots.size - place = table.slots.size - (place + 1) + 1 := by omega
  rw [firstFrom?, step, List.range'_succ, List.findSome?_cons, firstFrom?]
  cases table.entryAt? place <;> rfl

theorem ahead_eq_nil_of_firstFrom? {table : Table κ ν} {place : Nat}
    (ends : table.firstFrom? place = none) : table.ahead place = [] := by
  by_cases inside : place < table.slots.size
  · rw [firstFrom?_eq inside, Option.or_eq_none_iff, Option.map_eq_none_iff] at ends
    rw [ahead_eq, ends.1, ahead_eq_nil_of_firstFrom? ends.2, Option.toList_none, List.nil_append]
  · exact ahead_of_size_le (by omega)
termination_by table.slots.size - place

/-- What the search finds is the first entry ahead. -/
theorem firstFrom?_spec {table : Table κ ν} {place slot : Nat} {entry : Entry κ ν}
    (found : table.firstFrom? place = some (slot, entry)) :
    table.entryAt? slot = some entry ∧ table.behind slot = table.behind place := by
  by_cases inside : place < table.slots.size
  · rw [firstFrom?_eq inside] at found
    cases content : table.entryAt? place with
    | some first =>
        rw [content, Option.map_some, Option.some_or, Option.some.injEq, Prod.mk.injEq] at found
        obtain ⟨rfl, rfl⟩ := found
        exact ⟨content, rfl⟩
    | none =>
        rw [content, Option.map_none, Option.none_or] at found
        have later := firstFrom?_spec found
        rw [behind_succ, content, Option.toList_none, List.append_nil] at later
        exact later
  · rw [firstFrom?_of_size_le (by omega)] at found
    contradiction
termination_by table.slots.size - place

theorem ahead_of_firstFrom? {table : Table κ ν} {place slot : Nat} {entry : Entry κ ν}
    (found : table.firstFrom? place = some (slot, entry)) :
    table.ahead place = entry :: table.ahead (slot + 1) := by
  obtain ⟨content, same_behind⟩ := firstFrom?_spec found
  have whole : table.behind place ++ table.ahead place =
      table.behind place ++ table.ahead slot := by
    rw [behind_append_ahead, ← same_behind, behind_append_ahead]
  have same_ahead : table.ahead place = table.ahead slot := List.append_cancel_left whole
  rw [same_ahead, ahead_eq, content, Option.toList_some, List.singleton_append]

theorem le_of_firstFrom? {table : Table κ ν} {place slot : Nat} {entry : Entry κ ν}
    (found : table.firstFrom? place = some (slot, entry)) : place ≤ slot := by
  obtain ⟨other, member, holds⟩ := List.exists_of_findSome?_eq_some found
  obtain ⟨_, -, same⟩ := Option.map_eq_some_iff.mp holds
  obtain ⟨rfl, -⟩ := Prod.mk.inj same
  exact (List.mem_range'_1.mp member).1

/-- The place after the first entry ahead of a place, if there is one. -/
def placeAfter (table : Table κ ν) (place : Nat) : Nat :=
  match table.firstFrom? place with
  | some (slot, _) => slot + 1
  | none => place

theorem le_placeAfter (table : Table κ ν) (place : Nat) : place ≤ table.placeAfter place := by
  unfold placeAfter
  split
  · rename_i found
    exact Nat.le_succ_of_le (le_of_firstFrom? found)
  · exact Nat.le_refl place

theorem ahead_placeAfter (table : Table κ ν) (place : Nat) :
    table.ahead (table.placeAfter place) = (table.ahead place).tail := by
  unfold placeAfter
  split
  · rename_i found
    rw [ahead_of_firstFrom? found, List.tail_cons]
  · rename_i ends
    rw [ahead_eq_nil_of_firstFrom? ends, List.tail_nil]

end Table
end ObjectModel
