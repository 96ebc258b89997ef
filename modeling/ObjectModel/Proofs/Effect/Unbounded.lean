import ObjectModel.Proofs.Outcome
import Mathlib.Data.Nat.Find

/-!
# Effects that need not end

A loop ends as its last turn does, if there is one. An unbounded effect ends as the first of its
attempts that ends. If there is no last turn, or no attempt ends, the effect does not end.
-/

namespace ObjectModel

variable {σ α : Type}

/-- The computation does not end. -/
def Endless (ending : Except Fault α × World) : Prop :=
  ending.1 = .error .endless

theorem endless_error (world : World) : Endless (α := α) (.error .endless, world) :=
  rfl

theorem endless_error_iff {fault : Fault} {world : World} :
    Endless (α := α) (.error fault, world) ↔ fault = .endless :=
  Except.error.injEq .. ▸ Iff.rfl

namespace Effect

section Sequences

variable {β : Type} {effect : Effect α} {next : α → Effect β} {world : World}

theorem endless_bind (endless : Endless (outcome effect world)) :
    Endless (outcome (effect >>= next) world) := by
  rw [outcome_bind]
  generalize outcome effect world = ending at endless ⊢
  obtain ⟨result, later⟩ := ending
  obtain rfl : result = .error .endless := endless
  rfl

end Sequences

/-! ## Loops -/

section Loops

variable {turn : σ → Effect (σ ⊕ α)} {state : σ} {world : World} {ending : Except Fault α × World}

/-- From a state and a world on, the last turn of a loop ends as given. -/
inductive LoopsTo (turn : σ → Effect (σ ⊕ α)) : σ → World → Except Fault α × World → Prop
  | result {state : σ} {world later : World} {result : α}
      (comes : outcome (turn state) world = (.ok (.inr result), later)) :
      LoopsTo turn state world (.ok result, later)
  | fault {state : σ} {world later : World} {fault : Fault}
      (fails : outcome (turn state) world = (.error fault, later)) :
      LoopsTo turn state world (.error fault, later)
  | again {state after : σ} {world middle : World} {ending : Except Fault α × World}
      (continues : outcome (turn state) world = (.ok (.inl after), middle))
      (rest : LoopsTo turn after middle ending) : LoopsTo turn state world ending

theorem loop?_eq_some_iff : world.loop? turn state = some ending ↔
    LoopsTo turn state world ending := by
  constructor
  · refine World.loop?.partial_correctness turn
      (fun world state ending => LoopsTo turn state world ending)
      (fun rest induction world state ending ends => ?_) world state ending
    generalize turns : outcome (turn state) world = reached at ends
    rw [← outcome, turns] at ends
    obtain ⟨fault | ⟨after | result⟩, later⟩ := reached
    · obtain rfl := Option.some.inj ends
      exact .fault turns
    · exact .again turns (induction _ _ _ ends)
    · obtain rfl := Option.some.inj ends
      exact .result turns
  · intro loops
    induction loops with
    | result comes =>
        rw [World.loop?, ← outcome, comes]
    | fault fails =>
        rw [World.loop?, ← outcome, fails]
    | again continues rest induction =>
        rw [World.loop?, ← outcome, continues]
        exact induction

theorem LoopsTo.outcome_loop (loops : LoopsTo turn state world ending) :
    outcome (loop turn state) world = ending := by
  change (world.loop? turn state).getD _ = ending
  rw [loop?_eq_some_iff.mpr loops]
  rfl

theorem outcome_loop_of_not_loopsTo (endless : ∀ ending, ¬LoopsTo turn state world ending) :
    outcome (loop turn state) world = (.error .endless, world) := by
  have none_found : world.loop? turn state = none :=
    Option.eq_none_iff_forall_ne_some.mpr fun ending found =>
      endless ending (loop?_eq_some_iff.mp found)
  change (world.loop? turn state).getD _ = _
  rw [none_found]
  rfl

theorem loopsTo_or_endless (turn : σ → Effect (σ ⊕ α)) (state : σ) (world : World) :
    LoopsTo turn state world (outcome (loop turn state) world) ∨
      (∀ ending, ¬LoopsTo turn state world ending) ∧
        outcome (loop turn state) world = (.error .endless, world) := by
  by_cases ends : ∃ ending, LoopsTo turn state world ending
  · obtain ⟨ending, loops⟩ := ends
    exact .inl (loops.outcome_loop ▸ loops)
  · rw [not_exists] at ends
    exact .inr ⟨ends, outcome_loop_of_not_loopsTo ends⟩

end Loops

/-! ## Attempts -/

section Attempts

variable {attempts : Nat → Effect α} {depth : Nat} {world : World} {ending : Except Fault α × World}

/-- The first attempt that ends. -/
structure FirstToEnd (attempts : Nat → Effect α) (world : World) (depth : Nat) : Prop where
  ends : ¬Endless (outcome (attempts depth) world)
  before : ∀ less < depth, Endless (outcome (attempts less) world)

theorem attempt?_of_endless (endless : Endless (outcome (attempts depth) world)) :
    world.attempt? attempts depth = world.attempt? attempts (depth + 1) := by
  rw [World.attempt?, ← outcome]
  generalize outcome (attempts depth) world = ending at endless
  obtain ⟨result, later⟩ := ending
  obtain rfl : result = .error .endless := endless
  rfl

theorem attempt?_of_ends (ends : ¬Endless (outcome (attempts depth) world)) :
    world.attempt? attempts depth = some (outcome (attempts depth) world) := by
  rw [World.attempt?, ← outcome]
  generalize outcome (attempts depth) world = ending at ends
  split
  · exact absurd rfl ends
  · rfl

theorem FirstToEnd.outcome_unbounded (first : FirstToEnd attempts world depth) :
    outcome (unbounded attempts) world = outcome (attempts depth) world := by
  have skips : world.attempt? attempts 0 = world.attempt? attempts depth := by
    obtain ⟨-, before⟩ := first
    induction depth with
    | zero => rfl
    | succ depth induction =>
        rw [induction fun less below => before less (Nat.lt_succ_of_lt below),
          attempt?_of_endless (before depth (Nat.lt_succ_self depth))]
  change (world.attempt? attempts 0).getD _ = _
  rw [skips, attempt?_of_ends first.ends]
  rfl

theorem outcome_unbounded_of_endless
    (endless : ∀ depth, Endless (outcome (attempts depth) world)) :
    outcome (unbounded attempts) world = (.error .endless, world) := by
  have never (ending : Except Fault α × World) : world.attempt? attempts 0 ≠ some ending := by
    intro found
    refine World.attempt?.partial_correctness attempts world (fun _ _ => False)
      (fun rest induction depth ending ends => ?_) 0 ending found
    rw [← outcome] at ends
    have not_ended := endless depth
    generalize outcome (attempts depth) world = reached at ends not_ended
    obtain ⟨result, later⟩ := reached
    obtain rfl : result = .error .endless := not_ended
    exact induction _ _ ends
  change (world.attempt? attempts 0).getD _ = _
  rw [Option.eq_none_iff_forall_ne_some.mpr never]
  rfl

/-- There is a first attempt that ends, if one does. -/
theorem exists_firstToEnd (ends : ¬Endless (outcome (attempts depth) world)) :
    ∃ first ≤ depth, FirstToEnd attempts world first := by
  classical
  have some_ends : ∃ depth, ¬Endless (outcome (attempts depth) world) := ⟨depth, ends⟩
  exact ⟨Nat.find some_ends, Nat.find_min' some_ends ends, Nat.find_spec some_ends,
    fun less below => not_not.mp (Nat.find_min some_ends below)⟩

theorem firstToEnd_or_endless (attempts : Nat → Effect α) (world : World) :
    (∃ depth, FirstToEnd attempts world depth ∧
      outcome (unbounded attempts) world = outcome (attempts depth) world) ∨
    (∀ depth, Endless (outcome (attempts depth) world)) ∧
      outcome (unbounded attempts) world = (.error .endless, world) := by
  by_cases ends : ∃ depth, ¬Endless (outcome (attempts depth) world)
  · obtain ⟨depth, ends⟩ := ends
    obtain ⟨first, -, is_first⟩ := exists_firstToEnd ends
    exact .inl ⟨first, is_first, is_first.outcome_unbounded⟩
  · simp only [not_exists, not_not] at ends
    exact .inr ⟨ends, outcome_unbounded_of_endless ends⟩

/-- An unbounded effect that ends does what one of its attempts does. -/
theorem exists_attempt (ends : ¬Endless (outcome (unbounded attempts) world)) :
    ∃ depth, outcome (attempts depth) world = outcome (unbounded attempts) world := by
  rcases firstToEnd_or_endless attempts world with ⟨depth, -, same⟩ | ⟨-, endless⟩
  · exact ⟨depth, same.symm⟩
  · rw [endless] at ends
    exact absurd rfl ends

end Attempts

end Effect
end ObjectModel
