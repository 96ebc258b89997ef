import ObjectModel.Fault
import ObjectModel.Word

/-!
# Slices and positions

A slice selects elements of a sequence by two bounds and a step, an index selects one. Negative
bounds and indices count from the end.
-/

namespace ObjectModel

/-- The bounds and the step of a subscript; an absent part has a default. -/
structure Slice where
  /-- Where the selection begins. -/
  start : Option Int
  /-- Where the selection ends; that place itself is not selected. -/
  stop : Option Int
  /-- The distance between selected elements. -/
  step : Option Int
  deriving DecidableEq, Repr

namespace Slice

/-- The place that a bound means in a sequence of the given length, moved into the sequence. -/
def resolve (length : Nat) (bound : Int) : Nat :=
  if bound < 0 then (length + bound).toNat else min bound.toNat length

/-- The elements from one bound up to another. -/
def window {α : Type} (start stop : Option Int) (items : List α) : List α :=
  let first := start.elim 0 (resolve items.length)
  let last := stop.elim items.length (resolve items.length)
  (items.take last).drop first

/-- Every `n`-th element, beginning with the first. -/
def stride {α : Type} (n : Nat) : List α → List α
  | [] => []
  | item :: items => item :: stride n (items.drop (n - 1))
termination_by items => items.length
decreasing_by simp only [List.length_drop, List.length_cons]; omega

@[simp]
theorem stride_nil {α : Type} (n : Nat) : stride n ([] : List α) = [] := by
  simp only [stride]

theorem stride_cons {α : Type} (n : Nat) (item : α) (items : List α) :
    stride n (item :: items) = item :: stride n (items.drop (n - 1)) := by
  simp only [stride]

/-- The bound behind a place, for a selection that runs backwards: what was included becomes
excluded. The last place becomes the end of the sequence. -/
def behind (length : Nat) (bound : Int) : Int :=
  if bound = -1 then length else bound + 1

/-- The selected elements. A negative step selects backwards, from the place of the first bound down
to the place above the second. -/
def apply {α : Type} (slice : Slice) (items : List α) : Except Fault (List α) :=
  let step := slice.step.getD 1
  if step = 0 then .error .zeroStep
  else if 0 < step then .ok (stride step.natAbs (window slice.start slice.stop items))
  else
    let swap := Option.map (behind items.length)
    .ok (stride step.natAbs (window (swap slice.stop) (swap slice.start) items).reverse)

/-- A bound as text. -/
def boundText (bound : Option Int) : String :=
  match bound with
  | some n => toString n
  | none => "None"

/-- The slice as text. -/
def text (slice : Slice) : String :=
  "slice(" ++ boundText slice.start ++ ", " ++ boundText slice.stop ++ ", " ++
    boundText slice.step ++ ")"

end Slice

/-- The place of an integer index in a sequence of the given length. Messages call the sequence by
the given name. -/
def resolveIndex (sequence : String) (length : Nat) (index : Int) : Except Fault Nat :=
  if !Word.fits index then .error .indexTooLarge
  else
    let place := if index < 0 then length + index else index
    if 0 ≤ place ∧ place < length then .ok place.toNat else .error (.indexOutOfRange sequence)

/-- The item at an integer index. -/
def itemAt {α : Type} (sequence : String) (items : List α) (index : Int) : Except Fault α := do
  let place ← resolveIndex sequence items.length index
  match items[place]? with
  | some item => return item
  | none => throw (.indexOutOfRange sequence)

end ObjectModel
