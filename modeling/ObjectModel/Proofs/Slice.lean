import ObjectModel.Slice
import Mathlib.Tactic.Positivity
import Mathlib.Tactic.Ring

/-!
# Slices select progressions

A slice stands for places in a sequence: from a first place on at the distance of its step, as far
as these come before a limit in the direction of the step. With a negative step the selection is
made in another way, from a window that is then reversed; that it has the items at those places is
shown place by place.
-/

namespace ObjectModel
namespace Slice

variable {α : Type}

/-- Whether a place comes before another one in the direction of the step. -/
def isBefore (step place limit : Int) : Bool :=
  if 0 < step then place < limit else limit < place

/-- The places from one on, at the distance of the step, as far as they come before the limit. -/
def progression (step limit place : Int) : List Int :=
  if step ≠ 0 ∧ isBefore step place limit then
    place :: progression step limit (place + step)
  else []
termination_by if 0 < step then (limit - place).toNat else (place - limit).toNat
decreasing_by
  obtain ⟨moves, before⟩ := ‹step ≠ 0 ∧ _›
  simp only [isBefore] at before
  by_cases forward : 0 < step
  · simp only [if_pos forward, decide_eq_true_eq] at before ⊢
    omega
  · simp only [if_neg forward, decide_eq_true_eq] at before ⊢
    omega

/-- A bound counted from the beginning of a sequence of the given length, a negative one from its
end, moved between two limits. -/
def clamp (length : Nat) (low high bound : Int) : Int :=
  max low (min high (if bound < 0 then bound + length else bound))

/-- The place where a selection begins. -/
def first (slice : Slice) (length : Nat) : Int :=
  if 0 < slice.step.getD 1 then slice.start.elim 0 (clamp length 0 length)
  else slice.start.elim (length - 1) (clamp length (-1) (length - 1))

/-- The place that a selection does not reach. -/
def limit (slice : Slice) (length : Nat) : Int :=
  if 0 < slice.step.getD 1 then slice.stop.elim length (clamp length 0 length)
  else slice.stop.elim (-1) (clamp length (-1) (length - 1))

/-- The places that a slice selects from a sequence of the given length. -/
def places (slice : Slice) (length : Nat) : List Int :=
  progression (slice.step.getD 1) (slice.limit length) (slice.first length)

/-- The item at a place, if the place is in the sequence. -/
def itemFrom? (items : List α) (place : Int) : Option α :=
  if 0 ≤ place then items[place.toNat]? else none

/-! ## Progressions -/

/-- What does not come before the limit does not either after further steps. -/
theorem isBefore_of_add {step place limit : Int} {k : Nat}
    (before : isBefore step (place + k * step) limit) : isBefore step place limit := by
  unfold isBefore at before ⊢
  split at before
  · rename_i forward
    have covered : 0 ≤ k * step := by positivity
    rw [if_pos forward]
    simp only [decide_eq_true_eq] at before ⊢
    omega
  · rename_i backward
    have covered : 0 ≤ k * (-step) := by
      have : 0 ≤ -step := by omega
      positivity
    rw [Int.mul_neg] at covered
    rw [if_neg backward]
    simp only [decide_eq_true_eq] at before ⊢
    omega

theorem getElem?_progression {step : Int} (moves : step ≠ 0) (limit place : Int) (k : Nat) :
    (progression step limit place)[k]? =
      if isBefore step (place + k * step) limit then some (place + k * step) else none := by
  induction k generalizing place with
  | zero =>
      rw [progression]
      by_cases before : isBefore step place limit <;> simp [moves, before]
  | succ k induction =>
      have next_eq : place + step + k * step = place + (k + 1 : Nat) * step := by
        push_cast
        ring
      rw [progression]
      by_cases before : isBefore step place limit
      · rw [if_pos ⟨moves, before⟩, List.getElem?_cons_succ, induction, next_eq]
      · rw [if_neg (before ·.2), if_neg fun later => before (isBefore_of_add later)]
        rfl

/-! ## Windows and strides -/

theorem getElem?_stride {n : Nat} (positive : 0 < n) (items : List α) (k : Nat) :
    (stride n items)[k]? = items[n * k]? := by
  induction k generalizing items with
  | zero => cases items <;> simp [stride_cons]
  | succ k induction =>
      cases items with
      | nil => simp
      | cons item items =>
          have place_eq : n * (k + 1) = n - 1 + n * k + 1 := by
            rw [Nat.mul_succ]
            omega
          rw [stride_cons, List.getElem?_cons_succ, induction, List.getElem?_drop, place_eq,
            List.getElem?_cons_succ]

/-- What precedes the second place of a window and not its first one is in the window. -/
theorem getElem?_window (start stop : Option Int) (items : List α) (k : Nat) :
    (window start stop items)[k]? =
      if start.elim 0 (resolve items.length) + k < stop.elim items.length (resolve items.length)
      then items[start.elim 0 (resolve items.length) + k]? else none := by
  rw [window, List.getElem?_drop, List.getElem?_take]

theorem resolve_le (length : Nat) (bound : Int) : resolve length bound ≤ length := by
  unfold resolve
  split <;> omega

theorem length_window (start stop : Option Int) (items : List α) :
    (window start stop items).length =
      stop.elim items.length (resolve items.length) - start.elim 0 (resolve items.length) := by
  have stop_le : stop.elim items.length (resolve items.length) ≤ items.length := by
    cases stop with
    | none => exact Nat.le_refl _
    | some bound => exact resolve_le items.length bound
  simp [window, stop_le]

/-- A bound of a selection that runs forwards is moved into the sequence. -/
theorem resolve_eq_clamp (length : Nat) (bound : Int) :
    (resolve length bound : Int) = clamp length 0 length bound := by
  unfold resolve clamp
  split <;> omega

/-- A bound of a selection that runs backwards is one place below the bound of the window. -/
theorem resolve_behind_eq_clamp (length : Nat) (bound : Int) :
    (resolve length (behind length bound) : Int) - 1 =
      clamp length (-1) (length - 1) bound := by
  unfold resolve behind clamp
  split <;> split <;> omega

/-- The bound behind a place in the arithmetic of words, where the greatest word has none behind
it. -/
def behindInWord (length : Nat) (bound : Int) : Int :=
  if bound = -1 then length else min (bound + 1) (2 ^ 63 - 1)

/-- No sequence is long enough for the greatest word to make a difference. -/
theorem resolve_behindInWord {length : Nat} (short : length < 2 ^ 63) (bound : Int) :
    resolve length (behindInWord length bound) = resolve length (behind length bound) := by
  unfold behindInWord behind
  split
  · rfl
  · unfold resolve
    split <;> split <;> omega

/-! ## Selections -/

/-- The bounds of the window of a selection that runs forwards are its first place and its limit. -/
theorem first_eq_of_forward {slice : Slice} (forward : 0 < slice.step.getD 1) (length : Nat) :
    slice.first length = (slice.start.elim 0 (resolve length) : Nat) ∧
      slice.limit length = (slice.stop.elim length (resolve length) : Nat) := by
  unfold first limit
  rw [if_pos forward, if_pos forward]
  constructor
  · cases slice.start with
    | none => rfl
    | some bound => exact (resolve_eq_clamp length bound).symm
  · cases slice.stop with
    | none => rfl
    | some bound => exact (resolve_eq_clamp length bound).symm

/-- The bounds of the window of a selection that runs backwards are one place above its limit and
its first place. -/
theorem first_eq_of_backward {slice : Slice} (backward : ¬0 < slice.step.getD 1) (length : Nat) :
    slice.first length =
        ((slice.start.map (behind length)).elim length (resolve length) : Nat) - 1 ∧
      slice.limit length =
        ((slice.stop.map (behind length)).elim 0 (resolve length) : Nat) - 1 := by
  unfold first limit
  rw [if_neg backward, if_neg backward]
  constructor
  · cases slice.start with
    | none => rfl
    | some bound => exact (resolve_behind_eq_clamp length bound).symm
  · cases slice.stop with
    | none => rfl
    | some bound => exact (resolve_behind_eq_clamp length bound).symm

theorem itemFrom?_natCast (items : List α) (place : Nat) :
    itemFrom? items place = items[place]? := by
  rw [itemFrom?, if_pos (Int.natCast_nonneg place), Int.toNat_natCast]

/-- What is selected forwards has at each position the item at that place of the progression. -/
theorem getElem?_forward {slice : Slice} {n : Nat} (step_eq : slice.step.getD 1 = n)
    (positive : 0 < n) (items : List α) (k : Nat) :
    (stride n (window slice.start slice.stop items))[k]?.map some =
      (slice.places items.length)[k]?.map (itemFrom? items) := by
  have forward : 0 < slice.step.getD 1 := by omega
  obtain ⟨first_eq, limit_eq⟩ := first_eq_of_forward forward items.length
  have limit_le : slice.stop.elim items.length (resolve items.length) ≤ items.length := by
    cases slice.stop with
    | none => exact Nat.le_refl _
    | some bound => exact resolve_le items.length bound
  rw [getElem?_stride positive, getElem?_window, places, getElem?_progression forward.ne',
    first_eq, limit_eq, isBefore, if_pos forward, step_eq]
  generalize slice.start.elim 0 (resolve items.length) = low
  generalize slice.stop.elim items.length (resolve items.length) = high at limit_le
  have place_eq : (low + k * n : Int) = (low + n * k : Nat) := by
    push_cast
    ring
  rw [place_eq]
  by_cases before : low + n * k < high
  · have known : low + n * k < items.length := by omega
    rw [if_pos before, if_pos (decide_eq_true (by exact_mod_cast before)), Option.map_some,
      itemFrom?_natCast, List.getElem?_eq_getElem known]
    rfl
  · rw [if_neg before, if_neg (by rw [decide_eq_true_eq]; exact_mod_cast before)]
    rfl

/-- What is selected backwards has at each position the item at that place of the progression: the
last place of the window is the first one of the progression. -/
theorem getElem?_backward {slice : Slice} {n : Nat} (step_eq : slice.step.getD 1 = -n)
    (positive : 0 < n) (items : List α) (k : Nat) :
    (stride n (window (slice.stop.map (behind items.length))
        (slice.start.map (behind items.length)) items).reverse)[k]?.map some =
      (slice.places items.length)[k]?.map (itemFrom? items) := by
  have backward : ¬0 < slice.step.getD 1 := by omega
  obtain ⟨first_eq, limit_eq⟩ := first_eq_of_backward backward items.length
  have high_le : (slice.start.map (behind items.length)).elim items.length
      (resolve items.length) ≤ items.length := by
    cases slice.start with
    | none => exact Nat.le_refl _
    | some bound => exact resolve_le items.length _
  have length_eq := length_window (slice.stop.map (behind items.length))
    (slice.start.map (behind items.length)) items
  rw [getElem?_stride positive, places, getElem?_progression (by omega), first_eq, limit_eq,
    isBefore, if_neg backward, step_eq]
  by_cases before : n * k < (window (slice.stop.map (behind items.length))
      (slice.start.map (behind items.length)) items).length
  · rw [List.getElem?_reverse before, getElem?_window]
    rw [length_eq] at before ⊢
    generalize (slice.stop.map (behind items.length)).elim 0 (resolve items.length) = low at *
    generalize (slice.start.map (behind items.length)).elim items.length
      (resolve items.length) = high at *
    have place_eq : (high - 1 + k * -n : Int) = (low + (high - low - 1 - n * k) : Nat) := by
      have : (k * -n : Int) = -(n * k : Nat) := by
        push_cast
        ring
      omega
    have known : low + (high - low - 1 - n * k) < items.length := by omega
    rw [place_eq, if_pos (by omega), if_pos (decide_eq_true (by omega)), Option.map_some,
      itemFrom?_natCast, List.getElem?_eq_getElem known]
    rfl
  · rw [List.getElem?_eq_none (by simpa using before)]
    rw [length_eq] at before
    rw [if_neg]
    · rfl
    · have : (k * -n : Int) = -(n * k : Nat) := by
        push_cast
        ring
      rw [decide_eq_true_eq]
      omega

/-- What a slice selects from a sequence. -/
structure SelectsPlaces (slice : Slice) (items : List α) : Prop where
  /-- The slice fails exactly with step zero. -/
  fails_iff : (∃ fault, slice.apply items = .error fault) ↔ slice.step = some 0
  /-- The failure is that of an invalid value. -/
  category_eq : ∀ fault, slice.apply items = .error fault → fault.category = .valueError
  /-- Otherwise the slice selects the items at its places, all of which are in the sequence. -/
  selects : slice.step ≠ some 0 → ∃ selected, slice.apply items = .ok selected ∧
    selected.map some = (slice.places items.length).map (itemFrom? items)
  /-- The arithmetic of words leads to the same windows. -/
  saturates : items.length < 2 ^ 63 → ∀ bound, resolve items.length
    (behindInWord items.length bound) = resolve items.length (behind items.length bound)

theorem apply_of_step_ne_zero {slice : Slice} (moves : slice.step ≠ some 0) (items : List α) :
    ∃ selected, slice.apply items = .ok selected ∧
      selected.map some = (slice.places items.length).map (itemFrom? items) := by
  have step_ne : slice.step.getD 1 ≠ 0 := by
    cases step_eq : slice.step with
    | none => decide
    | some step => simpa [step_eq] using moves
  unfold apply
  dsimp only
  rw [if_neg step_ne]
  by_cases forward : 0 < slice.step.getD 1
  · rw [if_pos forward]
    refine ⟨_, rfl, List.ext_getElem? fun k => ?_⟩
    rw [List.getElem?_map, List.getElem?_map]
    exact getElem?_forward (by omega) (by omega) items k
  · rw [if_neg forward]
    refine ⟨_, rfl, List.ext_getElem? fun k => ?_⟩
    rw [List.getElem?_map, List.getElem?_map]
    exact getElem?_backward (by omega) (by omega) items k

/-- Every slice of every sequence selects the items at its places. -/
theorem selectsPlaces (slice : Slice) (items : List α) : slice.SelectsPlaces items where
  fails_iff := by
    constructor
    · rintro ⟨fault, fails⟩
      by_contra moves
      obtain ⟨selected, selects, -⟩ := apply_of_step_ne_zero moves items
      rw [fails] at selects
      contradiction
    · intro step_eq
      exact ⟨.zeroStep, by simp [apply, step_eq]⟩
  category_eq fault fails := by
    unfold apply at fails
    dsimp only at fails
    split at fails
    · obtain rfl := Except.error.inj fails
      rfl
    · split at fails <;> contradiction
  selects moves := apply_of_step_ne_zero moves items
  saturates short := resolve_behindInWord short

end Slice
end ObjectModel
