import ObjectModel.Proofs.Effect.Agreement

/-!
# Loops

A loop over an iterator takes full turns until it ends: at the end of the iterator, or with any
other fault of the iterator, or with any fault of the step. If there is a full turn after any number
of full turns, it does not end.
-/

namespace ObjectModel

open Effect

variable {σ : Type} {next : Value → Effect Value} {iterator : Value} {step : σ → Value → Effect σ}
  {turns : Nat} {state last : σ} {world final : World} {ending : Except Fault σ × World}

/-- A loop has come from one state and world to others by full turns, in each of which the iterator
yields an element and the step takes it. -/
inductive LoopTurns (next : Value → Effect Value) (iterator : Value) (step : σ → Value → Effect σ) :
    Nat → σ → World → σ → World → Prop
  | none (state : σ) (world : World) : LoopTurns next iterator step 0 state world state world
  | turn {turns : Nat} {state after last : σ} {world middle later final : World} {item : Value}
      (yields : outcome (next iterator) world = (.ok item, middle))
      (steps : outcome (step state item) middle = (.ok after, later))
      (rest : LoopTurns next iterator step turns after later last final) :
      LoopTurns next iterator step (turns + 1) state world last final

/-- The ways in which a loop ends: the iterator is at its end, or it fails in another way, or the
step fails in any way. -/
inductive LoopEnds (next : Value → Effect Value) (iterator : Value) (step : σ → Value → Effect σ)
    (state : σ) (world : World) : Except Fault σ × World → Prop
  | finished {fault : Fault} {later : World}
      (ends : outcome (next iterator) world = (.error fault, later))
      (signal : fault.isEndOfSequence = true) :
      LoopEnds next iterator step state world (.ok state, later)
  | broken {fault : Fault} {later : World}
      (fails : outcome (next iterator) world = (.error fault, later))
      (proper : fault.isEndOfSequence = false) :
      LoopEnds next iterator step state world (.error fault, later)
  | refused {item : Value} {fault : Fault} {middle later : World}
      (yields : outcome (next iterator) world = (.ok item, middle))
      (fails : outcome (step state item) middle = (.error fault, later)) :
      LoopEnds next iterator step state world (.error fault, later)

/-! ## Turns -/

theorem outcome_foldTurn_of_ok {item : Value} {middle : World}
    (yields : outcome (next iterator) world = (.ok item, middle)) :
    outcome (foldTurn next iterator step state) world =
      ((outcome (step state item) middle).1.map .inl, (outcome (step state item) middle).2) := by
  rw [foldTurn, outcome_bind, outcome_nextItemBy, yields]
  dsimp only
  rw [outcome_bind]
  obtain ⟨fault | after, later⟩ := outcome (step state item) middle <;> rfl

theorem outcome_foldTurn_of_turn {item : Value} {after : σ} {middle later : World}
    (yields : outcome (next iterator) world = (.ok item, middle))
    (steps : outcome (step state item) middle = (.ok after, later)) :
    outcome (foldTurn next iterator step state) world = (.ok (.inl after), later) := by
  rw [outcome_foldTurn_of_ok yields, steps]
  rfl

theorem outcome_foldTurn_of_error {fault : Fault} {later : World}
    (fails : outcome (next iterator) world = (.error fault, later)) :
    outcome (foldTurn next iterator step state) world =
      (if fault.isEndOfSequence then .ok (.inr state) else .error fault, later) := by
  rw [foldTurn, outcome_bind, outcome_nextItemBy, fails]
  dsimp only
  cases fault.isEndOfSequence <;> rfl

/-- A turn is full, or the loop ends with it. -/
theorem turn_or_loopEnds (next : Value → Effect Value) (iterator : Value)
    (step : σ → Value → Effect σ) (state : σ) (world : World) :
    (∃ item middle after later, outcome (next iterator) world = (.ok item, middle) ∧
      outcome (step state item) middle = (.ok after, later)) ∨
    ∃ ending, LoopEnds next iterator step state world ending := by
  obtain ⟨⟨fault | item, middle⟩, yields⟩ : ∃ ending, outcome (next iterator) world = ending :=
    ⟨_, rfl⟩
  · cases signal : fault.isEndOfSequence with
    | true => exact .inr ⟨_, .finished yields signal⟩
    | false => exact .inr ⟨_, .broken yields signal⟩
  · obtain ⟨⟨fault | after, later⟩, steps⟩ : ∃ ending, outcome (step state item) middle = ending :=
      ⟨_, rfl⟩
    · exact .inr ⟨_, .refused yields steps⟩
    · exact .inl ⟨item, middle, after, later, yields, steps⟩

theorem LoopEnds.loopsTo (ends : LoopEnds next iterator step state world ending) :
    LoopsTo (foldTurn next iterator step) state world ending := by
  cases ends with
  | finished ends signal =>
      refine .result ((outcome_foldTurn_of_error ends).trans ?_)
      rw [signal]
      rfl
  | broken fails proper =>
      refine .fault ((outcome_foldTurn_of_error fails).trans ?_)
      rw [proper]
      rfl
  | refused yields fails =>
      refine .fault ((outcome_foldTurn_of_ok yields).trans ?_)
      rw [fails]
      rfl

theorem LoopTurns.loopsTo (takes : LoopTurns next iterator step turns state world last final)
    (rest : LoopsTo (foldTurn next iterator step) last final ending) :
    LoopsTo (foldTurn next iterator step) state world ending := by
  induction takes with
  | none => exact rest
  | turn yields steps _ induction =>
      exact .again (outcome_foldTurn_of_turn yields steps) (induction rest)

/-- A loop that ends does not go on. -/
theorem LoopEnds.ne_continues (ends : LoopEnds next iterator step state world ending) {after : σ}
    {later : World} :
    outcome (foldTurn next iterator step state) world ≠ (.ok (.inl after), later) := by
  cases ends with
  | finished ends signal =>
      rw [outcome_foldTurn_of_error ends, signal]
      exact nofun
  | broken fails proper =>
      rw [outcome_foldTurn_of_error fails, proper]
      exact nofun
  | refused yields fails =>
      rw [outcome_foldTurn_of_ok yields, fails]
      exact nofun

theorem exists_turn_of_continues {after : σ} {later : World}
    (continues : outcome (foldTurn next iterator step state) world = (.ok (.inl after), later)) :
    ∃ item middle, outcome (next iterator) world = (.ok item, middle) ∧
      outcome (step state item) middle = (.ok after, later) := by
  rcases turn_or_loopEnds next iterator step state world with
    ⟨item, middle, found, left, yields, steps⟩ | ⟨ending, ends⟩
  · cases (outcome_foldTurn_of_turn yields steps).symm.trans continues
    exact ⟨item, middle, yields, steps⟩
  · exact absurd continues ends.ne_continues

theorem loopEnds_of_stops (loops : LoopsTo (foldTurn next iterator step) state world ending)
    (stops : ∀ after later,
      outcome (foldTurn next iterator step state) world ≠ (.ok (.inl after), later)) :
    LoopEnds next iterator step state world ending := by
  rcases turn_or_loopEnds next iterator step state world with
    ⟨item, middle, after, later, yields, steps⟩ | ⟨other, ends⟩
  · exact absurd (outcome_foldTurn_of_turn yields steps) (stops after later)
  · rwa [← loops.outcome_loop, ends.loopsTo.outcome_loop]

/-- The last turn of a loop comes after some full turns. -/
theorem exists_loopEnds_of_loopsTo
    (loops : LoopsTo (foldTurn next iterator step) state world ending) :
    ∃ turns last final, LoopTurns next iterator step turns state world last final ∧
      LoopEnds next iterator step last final ending := by
  induction loops with
  | @result state world _ _ comes =>
      refine ⟨0, state, world, .none state world, loopEnds_of_stops (.result comes) ?_⟩
      exact fun _ _ continues => nomatch comes.symm.trans continues
  | @fault state world _ _ fails =>
      refine ⟨0, state, world, .none state world, loopEnds_of_stops (.fault fails) ?_⟩
      exact fun _ _ continues => nomatch fails.symm.trans continues
  | again continues _ induction =>
      obtain ⟨item, middle, yields, steps⟩ := exists_turn_of_continues continues
      obtain ⟨turns, last, final, takes, ends⟩ := induction
      exact ⟨turns + 1, last, final, .turn yields steps takes, ends⟩

/-! ## Endings -/

/-- A loop that does not end takes a full turn after any number of them. -/
theorem exists_loopTurns_of_not_loopsTo
    (endless : ∀ ending, ¬LoopsTo (foldTurn next iterator step) state world ending)
    (turns : Nat) : ∃ last final, LoopTurns next iterator step turns state world last final := by
  induction turns generalizing state world with
  | zero => exact ⟨state, world, .none state world⟩
  | succ turns induction =>
      rcases turn_or_loopEnds next iterator step state world with
        ⟨item, middle, after, later, yields, steps⟩ | ⟨ending, ends⟩
      · obtain ⟨last, final, takes⟩ := induction fun ending loops =>
          endless ending (LoopTurns.loopsTo (.turn yields steps (.none after later)) loops)
        exact ⟨last, final, .turn yields steps takes⟩
      · exact absurd ends.loopsTo (endless ending)

/-- There is no full turn after the last one. -/
theorem LoopEnds.not_loopTurns {other : σ} {beyond : World}
    (takes : LoopTurns next iterator step turns state world last final)
    (ends : LoopEnds next iterator step last final ending) :
    ¬LoopTurns next iterator step (turns + 1) state world other beyond := by
  intro further
  induction takes with
  | none state world =>
      cases further with
      | turn yields steps _ => exact ends.ne_continues (outcome_foldTurn_of_turn yields steps)
  | turn yields steps _ induction =>
      cases further with
      | turn yields_too steps_too rest =>
          obtain ⟨⟨⟩, rfl⟩ := Prod.mk.inj (yields.symm.trans yields_too)
          obtain ⟨⟨⟩, rfl⟩ := Prod.mk.inj (steps.symm.trans steps_too)
          exact induction ends rest

/-- A loop ends after some full turns, or takes a full turn after any number of them and does not
end. -/
theorem outcome_foldLoop_eq_iff :
    outcome (foldLoop next iterator step state) world = ending ↔
      (∃ turns last final, LoopTurns next iterator step turns state world last final ∧
        LoopEnds next iterator step last final ending) ∨
      (∀ turns, ∃ last final, LoopTurns next iterator step turns state world last final) ∧
        ending = (.error .endless, world) := by
  constructor
  · rintro rfl
    rcases loopsTo_or_endless (foldTurn next iterator step) state world with
      loops | ⟨never, endless⟩
    · exact .inl (exists_loopEnds_of_loopsTo loops)
    · exact .inr ⟨exists_loopTurns_of_not_loopsTo never, endless⟩
  · rintro (⟨turns, last, final, takes, ends⟩ | ⟨takes_all, rfl⟩)
    · exact (takes.loopsTo ends.loopsTo).outcome_loop
    · refine outcome_loop_of_not_loopsTo fun ending loops => ?_
      obtain ⟨turns, last, final, takes, ends⟩ := exists_loopEnds_of_loopsTo loops
      obtain ⟨other, beyond, further⟩ := takes_all (turns + 1)
      exact ends.not_loopTurns takes further

end ObjectModel
