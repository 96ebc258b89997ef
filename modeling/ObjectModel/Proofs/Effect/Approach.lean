import ObjectModel.Proofs.Effect.Call
import ObjectModel.Proofs.Effect.Loop

/-!
# Attempts that approach a limit

Attempts at a step differ in how deep steps may nest, and whatever uses the step differs with them.
An attempt that ends does so as the step without a bound does, and if that ends, so does every
attempt that is deep enough. Sequences of effects and loops keep this, and so do the functions of
the object model. The functions of the host are assumed to: they cannot tell that a step does not
end. Then the step of a mapping is made of the steps of its source and of what its function gets.
-/

namespace ObjectModel

open Effect

variable {α β σ : Type}

/-! ## Endings -/

/-- The first computation ends as the second one does, if it ends. -/
def EndsAs (ending other : Except Fault α × World) : Prop :=
  Endless ending ∨ ending = other

theorem EndsAs.refl (ending : Except Fault α × World) : EndsAs ending ending :=
  .inr rfl

theorem EndsAs.trans {ending other third : Except Fault α × World} (first : EndsAs ending other)
    (second : EndsAs other third) : EndsAs ending third := by
  rcases first with endless | rfl
  · exact .inl endless
  · exact second

theorem EndsAs.eq {ending other : Except Fault α × World} (ends_as : EndsAs ending other)
    (ends : ¬Endless ending) : ending = other :=
  ends_as.resolve_left ends

namespace Effect

/-! ## Loops -/

section Loops

variable {turn other : σ → Effect (σ ⊕ α)} {state : σ} {world later : World} {fault : Fault}
  {ending : Except Fault α × World}

theorem loopsTo_of_endsAs_error
    (fails : EndsAs (.error fault, later) (outcome (turn state) world)) :
    Endless (α := α) (.error fault, later) ∨ LoopsTo turn state world (.error fault, later) := by
  rcases fails with endless | same
  · exact .inl (endless_error_iff.mpr (endless_error_iff.mp endless))
  · exact .inr (.fault same.symm)

/-- A loop ends as another one if its turns do. -/
theorem LoopsTo.follows
    (turns : ∀ state world, EndsAs (outcome (turn state) world) (outcome (other state) world))
    (loops : LoopsTo turn state world ending) :
    Endless ending ∨ LoopsTo other state world ending := by
  induction loops with
  | @result state world _ _ comes =>
      have same := turns state world
      rw [comes] at same
      exact .inr (.result (same.eq nofun).symm)
  | @fault state world _ _ fails =>
      have same := turns state world
      rw [fails] at same
      exact loopsTo_of_endsAs_error same
  | @again state _ world _ _ continues _ induction =>
      have same := turns state world
      rw [continues] at same
      exact induction.imp_right (.again (same.eq nofun).symm)

/-- A loop takes finitely many turns, so all attempts at it from some depth on end as it does if
those at each turn do. -/
theorem LoopsTo.exists_depth {attempts : Nat → σ → Effect (σ ⊕ α)}
    (turns : ∀ state world, ∃ depth, ∀ deeper, depth ≤ deeper →
      EndsAs (outcome (turn state) world) (outcome (attempts deeper state) world))
    (loops : LoopsTo turn state world ending) :
    ∃ depth, ∀ deeper, depth ≤ deeper →
      Endless ending ∨ LoopsTo (attempts deeper) state world ending := by
  induction loops with
  | @result state world _ _ comes =>
      obtain ⟨depth, reached⟩ := turns state world
      rw [comes] at reached
      exact ⟨depth, fun deeper le => .inr (.result ((reached deeper le).eq nofun).symm)⟩
  | @fault state world _ _ fails =>
      obtain ⟨depth, reached⟩ := turns state world
      rw [fails] at reached
      exact ⟨depth, fun deeper le => loopsTo_of_endsAs_error (reached deeper le)⟩
  | @again state _ world _ _ continues _ induction =>
      obtain ⟨depth, reached⟩ := turns state world
      obtain ⟨further, follows⟩ := induction
      rw [continues] at reached
      refine ⟨max depth further, fun deeper le => ?_⟩
      have same := (reached deeper (le_of_max_le_left le)).eq nofun
      exact (follows deeper (le_of_max_le_right le)).imp_right (.again same.symm)

end Loops

/-! ## Limits -/

/-- No attempt ends in another way than the limit, and if the limit ends, so do all attempts from
some depth on. -/
structure Approaches (attempts : Nat → Effect α) (limit : Effect α) : Prop where
  below : ∀ world depth, EndsAs (outcome (attempts depth) world) (outcome limit world)
  reaches : ∀ world, ∃ depth, ∀ deeper, depth ≤ deeper →
    EndsAs (outcome limit world) (outcome (attempts deeper) world)

namespace Approaches

theorem const (effect : Effect α) : Approaches (fun _ => effect) effect where
  below _ _ := .refl _
  reaches _ := ⟨0, fun _ _ => .refl _⟩

theorem bind {attempts : Nat → Effect α} {limit : Effect α} {next : Nat → α → Effect β}
    {last : α → Effect β} (first : Approaches attempts limit)
    (rest : ∀ result, Approaches (next · result) (last result)) :
    Approaches (fun depth => attempts depth >>= next depth) (limit >>= last) where
  below world depth := by
    rcases first.below world depth with endless | same
    · exact .inl (endless_bind endless)
    · rw [outcome_bind, outcome_bind, same]
      generalize outcome limit world = ending
      obtain ⟨fault | result, later⟩ := ending
      · exact .refl _
      · exact (rest result).below later depth
  reaches world := by
    obtain ⟨depth, reached⟩ := first.reaches world
    simp only [outcome_bind]
    generalize outcome limit world = ending at reached ⊢
    obtain ⟨fault | result, later⟩ := ending
    · refine ⟨depth, fun deeper le => ?_⟩
      rcases reached deeper le with endless | same
      · exact .inl (endless_error_iff.mpr (endless_error_iff.mp endless))
      · rw [← same]
        exact .refl _
    · obtain ⟨further, goes_on⟩ := (rest result).reaches later
      refine ⟨max depth further, fun deeper le => ?_⟩
      rw [← (reached deeper (le_of_max_le_left le)).eq nofun]
      exact goes_on deeper (le_of_max_le_right le)

/-- What becomes of an ending depends on it alone, and that a computation does not end stays. -/
theorem map {attempts : Nat → Effect α} {limit : Effect α} {after : Nat → Effect β}
    {last : Effect β} (approaches : Approaches attempts limit)
    (becomes : Except Fault α × World → Except Fault β × World)
    (keeps : ∀ ending, Endless ending → Endless (becomes ending))
    (each : ∀ depth world, outcome (after depth) world = becomes (outcome (attempts depth) world))
    (last_eq : ∀ world, outcome last world = becomes (outcome limit world)) :
    Approaches after last := by
  have mono {ending other : Except Fault α × World} (ends_as : EndsAs ending other) :
      EndsAs (becomes ending) (becomes other) :=
    ends_as.imp (keeps ending) (congrArg becomes)
  constructor
  · intro world depth
    rw [each, last_eq]
    exact mono (approaches.below world depth)
  · intro world
    obtain ⟨depth, reached⟩ := approaches.reaches world
    refine ⟨depth, fun deeper le => ?_⟩
    rw [each, last_eq]
    exact mono (reached deeper le)

theorem nextItem {attempts : Nat → Value → Effect Value} {next : Value → Effect Value}
    {iterator : Value} (step : Approaches (attempts · iterator) (next iterator)) :
    Approaches (fun depth => nextItemBy (attempts depth) iterator) (nextItemBy next iterator) := by
  let found (ending : Except Fault Value × World) : Except Fault (Option Value) × World :=
    ((ending.1.map some).tryCatch fun fault =>
      if fault.isEndOfSequence then .ok none else .error fault, ending.2)
  have finds (next : Value → Effect Value) (world : World) :
      outcome (nextItemBy next iterator) world = found (outcome (next iterator) world) := by
    rw [outcome_nextItemBy]
    obtain ⟨_ | _, later⟩ := outcome (next iterator) world <;> rfl
  refine step.map found (fun ending endless => ?_) (fun _ => finds _) (finds next)
  obtain ⟨result, later⟩ := ending
  obtain rfl : result = .error .endless := endless
  rfl

theorem report {attempts : Nat → Effect α} {limit : Effect α} (attempt : Approaches attempts limit)
    {fault : Fault → Fault} (keeps : fault .endless = .endless) :
    Approaches (fun depth => tryCatch (attempts depth) fun cause => throw (fault cause))
      (tryCatch limit fun cause => throw (fault cause)) := by
  have ends (effect : Effect α) (world : World) :
      outcome (tryCatch effect fun cause => throw (fault cause)) world =
        ((outcome effect world).1.mapError fault, (outcome effect world).2) := by
    rw [outcome_tryCatch]
    obtain ⟨_ | _, later⟩ := outcome effect world <;> rfl
  refine attempt.map (fun ending => (ending.1.mapError fault, ending.2)) (fun ending endless => ?_)
    (fun _ => ends _) (ends limit)
  obtain ⟨result, later⟩ := ending
  obtain rfl : result = .error .endless := endless
  exact congrArg Except.error keeps

/-- The last turns of loops are the same, from some depth on, if the turns are. -/
theorem loop {turn : Nat → σ → Effect (σ ⊕ α)} {last : σ → Effect (σ ⊕ α)}
    (turns : ∀ state, Approaches (turn · state) (last state)) (state : σ) :
    Approaches (fun depth => loop (turn depth) state) (loop last state) where
  below world depth := by
    rcases loopsTo_or_endless (turn depth) state world with loops | ⟨-, endless⟩
    · have follows := loops.follows fun state world => (turns state).below world depth
      exact follows.imp_right fun loops => loops.outcome_loop.symm
    · exact .inl (congrArg Prod.fst endless)
  reaches world := by
    rcases loopsTo_or_endless last state world with loops | ⟨-, endless⟩
    · obtain ⟨depth, follows⟩ := loops.exists_depth fun state => (turns state).reaches
      exact ⟨depth, fun deeper le => (follows deeper le).imp_right
        fun loops => loops.outcome_loop.symm⟩
    · exact ⟨0, fun _ _ => .inl (congrArg Prod.fst endless)⟩

end Approaches

/-! ## Functions of the object model -/

section Functions

variable {attempts : Nat → Value → Effect Value} {next : Value → Effect Value}
  (steps : ∀ iterator, Approaches (attempts · iterator) (next iterator))

include steps

theorem approaches_foldLoop (iterator : Value) (step : σ → Value → Effect σ) (state : σ) :
    Approaches (fun depth => foldLoop (attempts depth) iterator step state)
      (foldLoop next iterator step state) := by
  refine .loop (fun state => ?_) state
  exact .bind (.nextItem (steps iterator)) fun found => .const _

theorem approaches_foldItems (source : Value) (step : σ → Value → Effect σ) (initial : σ) :
    Approaches (fun depth => foldItems (attempts depth) source step initial)
      (foldItems next source step initial) :=
  .bind (.const source.iter) fun iterator => approaches_foldLoop steps iterator step initial

theorem approaches_collectItems (source : Value) :
    Approaches (fun depth => collectItems (attempts depth) source) (collectItems next source) :=
  .bind (approaches_foldItems steps source _ []) fun _ => .const _

theorem approaches_listOf (arguments : List Value) :
    Approaches (fun depth => listOf (attempts depth) arguments) (listOf next arguments) := by
  refine .bind (.const getStore) fun store => ?_
  have collects (source : Value) : Approaches
      (fun depth => collectItems (attempts depth) source >>= newList)
      (collectItems next source >>= newList) :=
    .bind (approaches_collectItems steps source) fun _ => .const _
  rcases arguments with - | ⟨source, - | ⟨second, further⟩⟩
  · exact .const _
  · cases source with
    | list | tuple => exact .const _
    | _ => exact collects _
  · cases source <;> exact .const _

theorem approaches_setOf (sort : SetKind) (arguments : List Value) :
    Approaches (fun depth => setOf sort (attempts depth) arguments)
      (setOf sort next arguments) := by
  rcases arguments with - | ⟨source, - | ⟨second, further⟩⟩
  · exact .const _
  · refine .bind (.const getStore) fun store => ?_
    cases store.setSource? source with
    | some elements => exact .const _
    | none => exact .bind (approaches_collectItems steps source) fun _ => .const _
  · exact .const _

theorem approaches_reportedSum (config : Config) (source start : Value) :
    Approaches
      (fun depth => tryCatch (sumOf (attempts depth) source start) fun fault =>
        throw (fault.reportedBy config.sumReport))
      (tryCatch (sumOf next source start) fun fault =>
        throw (fault.reportedBy config.sumReport)) :=
  .report (approaches_foldItems steps source _ start)
    ((Fault.reportedBy_eq_endless_iff .endless config.sumReport).mpr rfl)

theorem approaches_runSum (config : Config) (frame : Frame) :
    Approaches (fun depth => Builtin.runSum config (attempts depth) frame)
      (Builtin.runSum config next frame) := by
  refine .bind (.const _) fun arguments => ?_
  rcases arguments with - | ⟨source, - | ⟨start, - | ⟨third, further⟩⟩⟩
  · exact .const (throw _)
  · exact approaches_reportedSum steps config source (.int 0)
  · exact approaches_reportedSum steps config source start
  · exact .const (throw _)

theorem approaches_run (config : Config) (function : Builtin) (frame : Frame) :
    Approaches (fun depth => function.run config (attempts depth) frame)
      (function.run config next frame) := by
  cases function with
  | frozenset => exact .bind (.const _) (approaches_setOf steps .frozen)
  | list => exact .bind (.const _) (approaches_listOf steps)
  | set => exact .bind (.const _) (approaches_setOf steps .mutable)
  | sum => exact approaches_runSum steps config frame
  | _ => exact .const _

end Functions

end Effect

/-! ## Calls and steps -/

/-- What a function of the host comes to rests on finitely many steps of iterators, and it cannot
tell that one of these does not end. -/
def HostsContinuous (function? : String → Option HostFunction) : Prop :=
  ∀ name host, function? name = some host →
    ∀ (attempts : Nat → Value → Effect Value) (next : Value → Effect Value),
      (∀ iterator, Approaches (attempts · iterator) (next iterator)) →
        ∀ arguments, Approaches (fun depth => host (attempts depth) arguments) (host next arguments)

theorem hostsContinuous_default : HostsContinuous (fun _ => none) :=
  fun _ _ found => nomatch found

namespace HostsContinuous

variable {context : Context} {attempts : Nat → Value → Effect Value} {next : Value → Effect Value}

theorem approaches_callBy (hosts : HostsContinuous context.function?)
    (steps : ∀ iterator, Approaches (attempts · iterator) (next iterator)) (function : Value)
    (frame : Frame) :
    Approaches (fun depth => callBy context (attempts depth) function frame)
      (callBy context next function frame) := by
  unfold callBy
  cases function with
  | builtin name =>
      dsimp only
      cases Builtin.ofName? name with
      | some builtin => exact approaches_run steps context.config builtin frame
      | none =>
          cases found : context.function? name with
          | some host => exact .bind (.const _) (hosts name host found attempts next steps)
          | none => exact .const _
  | _ => exact .const _

theorem approaches_stepBy (hosts : HostsContinuous context.function?)
    (steps : ∀ iterator, Approaches (attempts · iterator) (next iterator)) (iterator : Value) :
    Approaches (fun depth => stepBy context (attempts depth) iterator)
      (stepBy context next iterator) := by
  cases iterator with
  | map ref =>
      refine .bind (.const _) fun source => .bind (.const _) fun store => ?_
      dsimp only
      split
      · exact .bind (steps source) fun item => hosts.approaches_callBy steps _ _
      · exact .const _
  | _ => exact .const _

/-- What ends ends in the same way where steps may nest deeper. -/
theorem nextWithin_succ (hosts : HostsContinuous context.function?) (depth : Nat) (iterator : Value)
    (world : World) :
    EndsAs (outcome (nextWithin context depth iterator) world)
      (outcome (nextWithin context (depth + 1) iterator) world) := by
  induction depth generalizing iterator world with
  | zero => exact .inl rfl
  | succ depth induction =>
      have two_steps (iterator : Value) :
          Approaches (fun attempt => nextWithin context (if attempt = 0 then depth else depth + 1)
            iterator) (nextWithin context (depth + 1) iterator) :=
        { below := fun world attempt => by
            split
            · exact induction iterator world
            · exact .refl _
          reaches := fun world => ⟨1, fun deeper le => by
            rw [if_neg (Nat.ne_of_gt le)]
            exact .refl _⟩ }
      exact (hosts.approaches_stepBy two_steps iterator).below world 0

theorem nextWithin_of_le (hosts : HostsContinuous context.function?) {depth deeper : Nat}
    (le : depth ≤ deeper) (iterator : Value) (world : World) :
    EndsAs (outcome (nextWithin context depth iterator) world)
      (outcome (nextWithin context deeper iterator) world) := by
  induction le with
  | refl => exact .refl _
  | step _ induction => exact induction.trans (hosts.nextWithin_succ _ iterator world)

/-- Attempts at a step approach the step. -/
theorem approaches_next (hosts : HostsContinuous context.function?) (iterator : Value) :
    Approaches (nextWithin context · iterator) (iterator.next context) where
  below world depth := by
    by_cases ends : Endless (outcome (nextWithin context depth iterator) world)
    · exact .inl ends
    · obtain ⟨first, le, is_first⟩ :
          ∃ first ≤ depth, FirstToEnd (nextWithin context · iterator) world first :=
        exists_firstToEnd ends
      refine .inr ?_
      rw [Value.next, is_first.outcome_unbounded]
      exact ((hosts.nextWithin_of_le le iterator world).eq is_first.ends).symm
  reaches world := by
    by_cases ends : Endless (outcome (iterator.next context) world)
    · exact ⟨0, fun _ _ => .inl ends⟩
    · obtain ⟨depth, same⟩ := exists_attempt ends
      refine ⟨depth, fun deeper le => .inr ?_⟩
      rw [Value.next, ← same] at ends ⊢
      exact (hosts.nextWithin_of_le le iterator world).eq ends

/-- The step of an iterator ends as it does by the steps that it rests on, or neither ends. -/
theorem next_eq_stepBy (hosts : HostsContinuous context.function?) (iterator : Value)
    (world : World) :
    EndsAs (outcome (iterator.next context) world)
        (outcome (stepBy context (Value.next context) iterator) world) ∧
      EndsAs (outcome (stepBy context (Value.next context) iterator) world)
        (outcome (iterator.next context) world) := by
  have steps := hosts.approaches_stepBy hosts.approaches_next iterator
  have attempts := hosts.approaches_next iterator
  constructor
  · obtain ⟨depth, reached⟩ := attempts.reaches world
    exact (reached (depth + 1) (Nat.le_succ depth)).trans (steps.below world depth)
  · obtain ⟨depth, reached⟩ := steps.reaches world
    exact (reached depth le_rfl).trans (attempts.below world (depth + 1))

end HostsContinuous
end ObjectModel
