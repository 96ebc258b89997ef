import ObjectModel.Value
import Mathlib.Data.List.InsertIdx
import Mathlib.Data.List.Nodup

/-!
# Chronicles

A cursor walks over keys that stand in a row, while keys come and go. A chronicle records which keys
it has yielded and which it has passed over. Every key has a date, so that a key that goes and comes
again can be told from the one that was there before. A chronicle that fits its row accounts for
every key behind the cursor, and for none ahead of it.
-/

namespace ObjectModel

/-- A key that came at a certain time. -/
structure Arrival where
  /-- The time. -/
  date : Nat
  /-- The key. -/
  key : Value
  deriving DecidableEq

/-- What has happened to a table since a cursor over it was made. -/
structure Chronicle where
  /-- The keys in the table. -/
  arrivals : List Arrival
  /-- The date of the next key that comes. -/
  clock : Nat
  /-- The keys that the cursor has yielded. -/
  yielded : List Arrival := []
  /-- The keys that the cursor has passed over. -/
  overtaken : List Arrival := []
  /-- The results that the cursor has given. -/
  reported : List Value := []
  /-- Whether the table has ever been rebuilt while the cursor had empty slots behind it. -/
  disturbed : Bool := false

namespace Chronicle

/-- The chronicle of a cursor that has just been made. -/
def start (keys : List Value) : Chronicle where
  arrivals := keys.mapIdx Arrival.mk
  clock := keys.length

/-- A new key comes behind all others. -/
def insert (chronicle : Chronicle) (key : Value) : Chronicle :=
  { chronicle with
    arrivals := chronicle.arrivals ++ [⟨chronicle.clock, key⟩]
    clock := chronicle.clock + 1 }

/-- The key of the given rank goes. -/
def erase (chronicle : Chronicle) (rank : Nat) : Chronicle :=
  { chronicle with arrivals := chronicle.arrivals.eraseIdx rank }

/-- The cursor gives a result, which is the key of the given rank. -/
def yield (chronicle : Chronicle) (rank : Nat) (result : Value) : Chronicle :=
  { chronicle with
    yielded := chronicle.yielded ++ chronicle.arrivals[rank]?.toList
    reported := chronicle.reported ++ [result] }

/-- Keys from one rank up to another come to stand behind the cursor, which has not moved. -/
def overtake (chronicle : Chronicle) (rank later : Nat) : Chronicle :=
  { chronicle with
    overtaken := chronicle.overtaken ++ (chronicle.arrivals.take later).drop rank }

/-- The walk is disturbed if the condition holds. -/
def disturb (chronicle : Chronicle) (condition : Bool) : Chronicle :=
  { chronicle with disturbed := chronicle.disturbed || condition }

/-- A chronicle is true of the keys in a table and the number of those behind the cursor. -/
structure Fits (chronicle : Chronicle) (keys : List Value) (rank : Nat) : Prop where
  /-- The keys in the table have come and not gone. -/
  keys_eq : chronicle.arrivals.map (·.key) = keys
  /-- The results are the keys that have been yielded. -/
  reported_eq : chronicle.yielded.map (·.key) = chronicle.reported
  /-- No key has come twice at a time. -/
  nodup : chronicle.arrivals.Nodup
  /-- No key has a date to come. -/
  date_lt : ∀ arrival,
    arrival ∈ chronicle.arrivals ∨ arrival ∈ chronicle.yielded ∨ arrival ∈ chronicle.overtaken →
      arrival.date < chronicle.clock
  /-- Each key behind the cursor has either been yielded or been passed over. -/
  behind_iff : ∀ arrival ∈ chronicle.arrivals.take rank,
    arrival ∈ chronicle.yielded ↔ arrival ∉ chronicle.overtaken
  /-- No key ahead of the cursor has been yielded or been passed over. -/
  ahead_new : ∀ arrival ∈ chronicle.arrivals.drop rank,
    arrival ∉ chronicle.yielded ∧ arrival ∉ chronicle.overtaken

theorem fits_start (keys : List Value) : (start keys).Fits keys 0 where
  keys_eq := by
    apply List.ext_getElem <;> simp [start]
  reported_eq := rfl
  nodup := by
    have dates : (keys.mapIdx Arrival.mk).map (·.date) = List.range keys.length := by
      apply List.ext_getElem <;> simp
    exact List.Nodup.of_map _ (dates ▸ List.nodup_range)
  date_lt := by
    intro arrival member
    simp only [start, List.not_mem_nil, or_false] at member
    obtain ⟨rank, lt, rfl⟩ := List.mem_mapIdx.mp member
    exact lt
  behind_iff := by simp
  ahead_new := by simp [start]

variable {chronicle : Chronicle} {keys : List Value} {rank : Nat}

theorem Fits.length_arrivals (fits : chronicle.Fits keys rank) :
    chronicle.arrivals.length = keys.length := by
  rw [← fits.keys_eq, List.length_map]

theorem Fits.insert (fits : chronicle.Fits keys rank) (rank_le : rank ≤ keys.length)
    (key : Value) : (chronicle.insert key).Fits (keys ++ [key]) rank := by
  rw [← fits.length_arrivals] at rank_le
  have fresh : ∀ arrival : Arrival, arrival.date = chronicle.clock →
      arrival ∉ chronicle.arrivals ∧ arrival ∉ chronicle.yielded ∧
        arrival ∉ chronicle.overtaken := by
    intro arrival now
    have late := fits.date_lt arrival
    rw [now] at late
    have no_time := Nat.lt_irrefl chronicle.clock
    tauto
  have nodup := fits.nodup.concat (fresh ⟨chronicle.clock, key⟩ rfl).1
  rw [List.concat_eq_append] at nodup
  refine
    { keys_eq := by simp [Chronicle.insert, fits.keys_eq]
      reported_eq := fits.reported_eq
      nodup := nodup
      date_lt := ?_
      behind_iff := ?_
      ahead_new := ?_ }
  · intro arrival member
    simp only [Chronicle.insert, List.mem_append, List.mem_singleton] at member ⊢
    rcases member with (member | rfl) | member
    · exact Nat.lt_succ_of_lt (fits.date_lt arrival (.inl member))
    · exact Nat.lt_succ_self _
    · exact Nat.lt_succ_of_lt (fits.date_lt arrival (.inr member))
  · simp only [Chronicle.insert, List.take_append_of_le_length rank_le]
    exact fits.behind_iff
  · simp only [Chronicle.insert, List.drop_append_of_le_length rank_le, List.mem_append,
      List.mem_singleton]
    rintro arrival (member | rfl)
    · exact fits.ahead_new arrival member
    · exact (fresh _ rfl).2

theorem Fits.yield (fits : chronicle.Fits keys rank) {key : Value}
    (holds : keys[rank]? = some key) : (chronicle.yield rank key).Fits keys (rank + 1) := by
  rw [← fits.keys_eq, List.getElem?_map, Option.map_eq_some_iff] at holds
  obtain ⟨arrival, holds, rfl⟩ := holds
  obtain ⟨lt, here⟩ := List.getElem?_eq_some_iff.mp holds
  have drop_eq : chronicle.arrivals.drop rank = arrival :: chronicle.arrivals.drop (rank + 1) := by
    rw [List.drop_eq_getElem_cons lt, here]
  have yielded_eq :
      (chronicle.yield rank arrival.key).yielded = chronicle.yielded ++ [arrival] := by
    rw [Chronicle.yield, holds, Option.toList_some]
  obtain ⟨not_yielded, not_overtaken⟩ := fits.ahead_new arrival (by simp [drop_eq])
  have ne_of_behind : ∀ other ∈ chronicle.arrivals.take rank, other ≠ arrival := by
    rintro other behind rfl
    exact List.disjoint_take_drop fits.nodup (Nat.le_refl rank) behind (by simp [drop_eq])
  have ne_of_ahead : ∀ other ∈ chronicle.arrivals.drop (rank + 1), other ≠ arrival := by
    rintro other ahead rfl
    have nodup := fits.nodup.sublist (List.drop_sublist rank _)
    rw [drop_eq] at nodup
    exact (List.nodup_cons.mp nodup).1 ahead
  refine
    { keys_eq := fits.keys_eq
      reported_eq := ?_
      nodup := fits.nodup
      date_lt := ?_
      behind_iff := ?_
      ahead_new := ?_ }
  · rw [yielded_eq, List.map_append, fits.reported_eq]
    rfl
  · intro other member
    rw [yielded_eq, List.mem_append, List.mem_singleton] at member
    rcases member with member | (member | rfl) | member
    · exact fits.date_lt other (.inl member)
    · exact fits.date_lt other (.inr (.inl member))
    · exact fits.date_lt other (.inl (List.mem_of_getElem? holds))
    · exact fits.date_lt other (.inr (.inr member))
  · intro other member
    have split : other ∈ chronicle.arrivals.take rank ++ [arrival] := by
      rw [← here, List.take_append_getElem lt]
      exact member
    rw [yielded_eq, List.mem_append, List.mem_singleton]
    rw [List.mem_append, List.mem_singleton] at split
    rcases split with behind | rfl
    · rw [or_iff_left (ne_of_behind other behind)]
      exact fits.behind_iff other behind
    · exact iff_of_true (.inr rfl) not_overtaken
  · intro other member
    rw [yielded_eq, List.mem_append, List.mem_singleton, or_iff_left (ne_of_ahead other member)]
    apply fits.ahead_new
    rw [drop_eq]
    exact List.mem_cons_of_mem arrival member

theorem mem_take_iff {α : Type} {items : List α} {count : Nat} {item : α} :
    item ∈ items.take count ↔ ∃ place < count, items[place]? = some item := by
  simp [List.mem_iff_getElem?, List.getElem?_take]

theorem mem_drop_iff {α : Type} {items : List α} {count : Nat} {item : α} :
    item ∈ items.drop count ↔ ∃ place, count ≤ place ∧ items[place]? = some item := by
  simp only [List.mem_iff_getElem?, List.getElem?_drop]
  constructor
  · rintro ⟨place, holds⟩
    exact ⟨count + place, Nat.le_add_right _ _, holds⟩
  · rintro ⟨place, le, holds⟩
    exact ⟨place - count, by rwa [Nat.add_sub_cancel' le]⟩

theorem Fits.erase (fits : chronicle.Fits keys rank) {gone left : Nat}
    (rank_eq : rank = left + if gone < rank then 1 else 0) :
    (chronicle.erase gone).Fits (keys.eraseIdx gone) left := by
  refine
    { keys_eq := ?_
      reported_eq := fits.reported_eq
      nodup := fits.nodup.eraseIdx gone
      date_lt := ?_
      behind_iff := ?_
      ahead_new := ?_ }
  · rw [Chronicle.erase, ← fits.keys_eq, List.eraseIdx_map]
  · rintro arrival (member | member)
    · exact fits.date_lt arrival (.inl (List.mem_of_mem_eraseIdx member))
    · exact fits.date_lt arrival (.inr member)
  · intro arrival member
    obtain ⟨place, lt, holds⟩ := mem_take_iff.mp member
    apply fits.behind_iff
    rw [Chronicle.erase, List.getElem?_eraseIdx] at holds
    split at holds
    · exact mem_take_iff.mpr ⟨place, by omega, holds⟩
    · refine mem_take_iff.mpr ⟨place + 1, ?_, holds⟩
      split at rank_eq <;> omega
  · intro arrival member
    obtain ⟨place, le, holds⟩ := mem_drop_iff.mp member
    apply fits.ahead_new
    rw [Chronicle.erase, List.getElem?_eraseIdx] at holds
    split at holds
    · refine mem_drop_iff.mpr ⟨place, ?_, holds⟩
      split at rank_eq <;> omega
    · refine mem_drop_iff.mpr ⟨place + 1, ?_, holds⟩
      split at rank_eq <;> omega

theorem Fits.overtake (fits : chronicle.Fits keys rank) {later : Nat} (le : rank ≤ later) :
    (chronicle.overtake rank later).Fits keys later := by
  refine
    { keys_eq := fits.keys_eq
      reported_eq := fits.reported_eq
      nodup := fits.nodup
      date_lt := ?_
      behind_iff := ?_
      ahead_new := ?_ }
  · intro arrival member
    rw [Chronicle.overtake, List.mem_append] at member
    rcases member with member | member | member | member
    · exact fits.date_lt arrival (.inl member)
    · exact fits.date_lt arrival (.inr (.inl member))
    · exact fits.date_lt arrival (.inr (.inr member))
    · exact fits.date_lt arrival (.inl (List.mem_of_mem_take (List.mem_of_mem_drop member)))
  · intro arrival member
    rw [Chronicle.overtake, List.mem_append]
    rw [Chronicle.overtake, ← List.take_append_drop rank (chronicle.arrivals.take later),
      List.take_take, Nat.min_eq_left le, List.mem_append] at member
    rcases member with behind | passed
    · have not_passed : arrival ∉ (chronicle.arrivals.take later).drop rank := by
        intro passed
        rw [List.drop_take] at passed
        exact List.disjoint_take_drop fits.nodup (Nat.le_refl rank) behind
          (List.mem_of_mem_take passed)
      rw [or_iff_left not_passed]
      exact fits.behind_iff arrival behind
    · have ahead : arrival ∈ chronicle.arrivals.drop rank := by
        rw [List.drop_take] at passed
        exact List.mem_of_mem_take passed
      exact iff_of_false (fits.ahead_new arrival ahead).1 (not_not.mpr (.inr passed))
  · intro arrival member
    rw [Chronicle.overtake, List.mem_append]
    have ahead : arrival ∈ chronicle.arrivals.drop rank := List.drop_subset_drop_left _ le member
    obtain ⟨not_yielded, not_overtaken⟩ := fits.ahead_new arrival ahead
    refine ⟨not_yielded, not_or.mpr ⟨not_overtaken, fun passed => ?_⟩⟩
    exact List.disjoint_take_drop fits.nodup (Nat.le_refl later) (List.mem_of_mem_drop passed)
      member

theorem overtaken_overtake_self (chronicle : Chronicle) (rank : Nat) :
    (chronicle.overtake rank rank).overtaken = chronicle.overtaken := by
  simp [Chronicle.overtake]

theorem Fits.disturb (fits : chronicle.Fits keys rank) (condition : Bool) :
    (chronicle.disturb condition).Fits keys rank where
  keys_eq := fits.keys_eq
  reported_eq := fits.reported_eq
  nodup := fits.nodup
  date_lt := fits.date_lt
  behind_iff := fits.behind_iff
  ahead_new := fits.ahead_new

end Chronicle
end ObjectModel
