import ObjectModel.Proofs.Addition
import ObjectModel.Proofs.Effect.Sparing
import ObjectModel.Proofs.Iterator.Emptying
import ObjectModel.Proofs.Operation.Configuration

/-!
# Sums

A sum pulls one element after the other and adds each to the total before it asks for the next,
until a pull or an addition fails. If neither ever does, it goes on without end. Additions change
nothing that iteration looks at, so the sum of a container, or of what remains for a cursor, is a
left fold over a list that is known beforehand. The report of a failure is the only thing that the
configuration decides.
-/

namespace ObjectModel

open Effect

/-- Adds an element to the total. -/
def addItem (total item : Value) : Effect Value :=
  total.binary .add item

/-- The elements that are pulled and added to a total one by one, and how that ends: at the end of
the iterator with the total, or with the failure of a pull, or with the failure of an addition. A
pull that does not end counts as one that fails with the fault for that. -/
inductive Sums (pull : Effect Value) :
    Value → World → List Value → Except Fault Value × World → Prop
  | ended {total : Value} {world later : World} {fault : Fault}
      (ends : outcome pull world = (.error fault, later)) (signal : fault.isEndOfSequence = true) :
      Sums pull total world [] (.ok total, later)
  | broken {total : Value} {world later : World} {fault : Fault}
      (fails : outcome pull world = (.error fault, later))
      (proper : fault.isEndOfSequence = false) :
      Sums pull total world [] (.error fault, later)
  | refused {total item : Value} {world middle later : World} {fault : Fault}
      (yields : outcome pull world = (.ok item, middle))
      (fails : outcome (addItem total item) middle = (.error fault, later)) :
      Sums pull total world [item] (.error fault, later)
  | added {total item sum : Value} {items : List Value} {world middle later : World}
      {ending : Except Fault Value × World} (yields : outcome pull world = (.ok item, middle))
      (adds : outcome (addItem total item) middle = (.ok sum, later))
      (rest : Sums pull sum later items ending) : Sums pull total world (item :: items) ending

/-- The elements that are added to a start, and how that ends. A source that has no iterator is
refused first. -/
inductive SumEnds (context : Context) (source start : Value) (world : World) :
    List Value → Except Fault Value × World → Prop
  | refused {fault : Fault} {later : World}
      (fails : outcome source.iter world = (.error fault, later)) :
      SumEnds context source start world [] (.error fault, later)
  | summed {iterator : Value} {items : List Value} {opened : World}
      {ending : Except Fault Value × World}
      (opens : outcome source.iter world = (.ok iterator, opened))
      (sums : Sums (iterator.next context) start opened items ending) :
      SumEnds context source start world items ending

/-- Elements are pulled and added one after the other, and there is always one more. -/
def SumGoesOn (context : Context) (source start : Value) (world : World)
    (ending : Except Fault Value × World) : Prop :=
  ∃ iterator opened, outcome source.iter world = (.ok iterator, opened) ∧
    (∀ turns, ∃ total later,
      LoopTurns (Value.next context) iterator addItem turns start opened total later) ∧
    ending = (.error .endless, opened)

/-- The arguments of a sum: a source, and a start which is zero if it is absent. -/
inductive Frame.Asks : Frame → Value → Value → Prop
  | fromZero (source : Value) : Asks (.ofList [source]) source (.int 0)
  | fromStart (source start : Value) : Asks (.ofList [source, start]) source start

/-- The same context with a report of failing sums. -/
def Context.reporting (context : Context) (report : SumReport) : Context :=
  { context with config := { context.config with sumReport := report } }

/-- The outcome of a call of the function for sums. -/
def sumOutcome (context : Context) (frame : Frame) (world : World) : Except Fault Value × World :=
  outcome (Builtin.sum.toValue.call context frame) world

variable {context : Context} {world later : World} {source start total iterator : Value}
  {items : List Value} {ending : Except Fault Value × World} {frame : Frame}
  {next : Value → Effect Value} {turns : Nat}

theorem sums_of_loopEnds {last : Value} {final : World}
    (takes : LoopTurns next iterator addItem turns total world last final)
    (ends : LoopEnds next iterator addItem last final ending) :
    ∃ items, Sums (next iterator) total world items ending := by
  induction takes with
  | none total world =>
      cases ends with
      | finished ends signal => exact ⟨[], .ended ends signal⟩
      | broken fails proper => exact ⟨[], .broken fails proper⟩
      | @refused item _ _ _ yields fails => exact ⟨[item], .refused yields fails⟩
  | @turn _ _ _ _ _ _ _ _ item yields steps _ induction =>
      obtain ⟨items, sums⟩ := induction ends
      exact ⟨item :: items, .added yields steps sums⟩

theorem sumOf_eq (next : Value → Effect Value) (source start : Value) :
    sumOf next source start = foldItems next source addItem start :=
  rfl

theorem outcome_sumOf (next : Value → Effect Value) (source start : Value) (world : World) :
    outcome (sumOf next source start) world =
      match outcome source.iter world with
      | (.ok iterator, opened) => outcome (foldLoop next iterator addItem start) opened
      | (.error fault, later) => (.error fault, later) := by
  rw [sumOf_eq, foldItems, outcome_bind]
  obtain ⟨_ | _, opened⟩ := outcome source.iter world <;> rfl

theorem sumEnds_or_goesOn (context : Context) (source start : Value) (world : World) :
    (∃ items, SumEnds context source start world items
        (outcome (sumOf (Value.next context) source start) world)) ∨
      SumGoesOn context source start world
        (outcome (sumOf (Value.next context) source start) world) := by
  rw [outcome_sumOf]
  obtain ⟨⟨fault | iterator, opened⟩, opens⟩ :
      ∃ ending, outcome source.iter world = ending := ⟨_, rfl⟩
  all_goals rw [opens]
  · exact .inl ⟨[], .refused opens⟩
  · rcases outcome_foldLoop_eq_iff.mp rfl with ⟨turns, last, final, takes, ends⟩ | ⟨takes, endless⟩
    · obtain ⟨items, sums⟩ := sums_of_loopEnds takes ends
      exact .inl ⟨items, .summed opens sums⟩
    · exact .inr ⟨iterator, opened, opens, takes, endless⟩

/-! ## Reports -/

theorem runSum_of_asks (asks : frame.Asks source start) (config : Config)
    (next : Value → Effect Value) :
    Builtin.runSum config next frame =
      tryCatch (sumOf next source start) fun fault =>
        throw (fault.reportedBy config.sumReport) := by
  cases asks <;> rfl

/-- A sum that is asked for folds, and what fails meanwhile is reported. -/
theorem sumOutcome_eq (asks : frame.Asks source start) (context : Context) (world : World) :
    sumOutcome context frame world =
      let ending := outcome (sumOf (Value.next context) source start) world
      (ending.1.mapError (·.reportedBy context.config.sumReport), ending.2) := by
  have runs : sumOutcome context frame world =
      outcome (Builtin.runSum context.config (Value.next context) frame) world := rfl
  rw [runs, runSum_of_asks asks, outcome_tryCatch]
  obtain ⟨_ | _, later⟩ := outcome (sumOf (Value.next context) source start) world <;> rfl

theorem sumOutcome_precise (asks : frame.Asks source start) (context : Context) (world : World) :
    sumOutcome (context.reporting .precise) frame world =
      outcome (sumOf (Value.next (context.reporting .precise)) source start) world := by
  rw [sumOutcome_eq asks]
  obtain ⟨_ | _, later⟩ :=
    outcome (sumOf (Value.next (context.reporting .precise)) source start) world <;> rfl

theorem agree_sumOf (hosts : HostsAgree context.function?) (source start : Value) :
    Agree (sumOf (Value.next (context.reporting .precise)) source start)
      (sumOf (Value.next (context.reporting .uniform)) source start) := by
  have routine : Routine Tolerant (fun _ => False) true fun config =>
      sumOf (Value.next { config, function? := context.function? }) source start :=
    routine_sumOf (routine_next (hosts.routines _)) source start
  exact routine.tolerant _ _

theorem Fault.reportedBy_uniform_congr {fault other : Fault}
    (same_end : fault = .endless ↔ other = .endless) :
    fault.reportedBy .uniform = other.reportedBy .uniform := by
  simp only [reportedBy, same_end]

/-- The uniform report differs from the precise one in what stands for a failure. -/
theorem sumOutcome_uniform_eq (hosts : HostsAgree context.function?)
    (asks : frame.Asks source start) (world : World) :
    sumOutcome (context.reporting .uniform) frame world =
      ((sumOutcome (context.reporting .precise) frame world).1.mapError (·.reportedBy .uniform),
        (sumOutcome (context.reporting .precise) frame world).2) := by
  have agree := agree_sumOf hosts source start world
  rw [sumOutcome_precise asks, sumOutcome_eq asks]
  generalize outcome (sumOf _ source start) world = ending at agree ⊢
  generalize outcome (sumOf _ source start) world = other at agree ⊢
  cases agree with
  | result => rfl
  | failure _ same_end later =>
      exact Prod.ext (congrArg Except.error (Fault.reportedBy_uniform_congr same_end.symm)) rfl

/-- Arguments that no sum asks for are refused alike under both reports. -/
theorem exists_refusal (unasked : ∀ source start, ¬ frame.Asks source start) (context : Context)
    (world : World) :
    ∃ fault, fault.category = (if frame.positional.isNone then .callingConvention else .typeError) ∧
      ∀ report, sumOutcome (context.reporting report) frame world = (.error fault, world) := by
  obtain ⟨positional, keywords⟩ := frame
  cases positional with
  | none => exact ⟨.missingFrame, rfl, fun _ => rfl⟩
  | some arguments =>
      cases keywords with
      | cons keyword keywords => exact ⟨.noKeywords "sum", rfl, fun _ => rfl⟩
      | nil =>
          rcases arguments with - | ⟨source, - | ⟨start, - | ⟨third, further⟩⟩⟩
          · exact ⟨.sumOfNothing, rfl, fun _ => rfl⟩
          · exact absurd (.fromZero source) (unasked source _)
          · exact absurd (.fromStart source start) (unasked source start)
          · exact ⟨.sumOfTooMany (further.length + 3), rfl, fun _ => rfl⟩

theorem spares_sum {spared : Value → Prop} (context : Context)
    (hosts : HostsSpare spared context.function?) (frame : Frame) (world : World) :
    world.store.Spares spared (sumOutcome context frame world).2.store := by
  have routine : Routine (SparingAt context.config spared) spared true fun config =>
      Builtin.sum.toValue.call { config, function? := context.function? } frame :=
    routine_call hosts.routines _ frame
  exact routine.spares world

/-! ## Drainable sources -/

theorem undisturbed_addItem (total item : Value) : Relates Store.Undisturbed (addItem total item) :=
  fun world => (gainsSequence_binary_add total item world).undisturbed

/-- The sum of a drainable source does not go on without end. -/
theorem not_sumGoesOn_of_drainable (continuous : HostsContinuous context.function?)
    (undisturbing : HostsUndisturbing context.function?)
    (drainable : world.store.Drainable source) : ¬SumGoesOn context source start world ending := by
  rintro ⟨iterator, opened, opens, takes, -⟩
  exact drainable.not_forall_loopTurns continuous undisturbing undisturbed_addItem opens takes

/-- The sum of a drainable source ends if the functions of the host settle. -/
theorem not_endless_sumOutcome {growth : Value → Nat → Nat}
    (continuous : HostsContinuous context.function?)
    (undisturbing : HostsUndisturbing context.function?)
    (hosts : HostsSettle growth context.function?) (drainable : world.store.Drainable source)
    (asks : frame.Asks source start) : ¬Endless (sumOutcome context frame world) := by
  obtain ⟨layers, layered⟩ : ∃ layers, world.store.Layered growth layers source :=
    drainable.exists_layered
  have settles : Settles world (sumOf (Value.next context) source start) fun _ _ => True :=
    settles_foldItems (stepSettles_next continuous undisturbing hosts)
      (fun world total item _ _ => settles_addition total item world) (fun _ _ _ _ _ => trivial)
      layered trivial
  intro endless
  refine settles.ends ?_
  rw [sumOutcome_eq asks] at endless
  generalize outcome (sumOf (Value.next context) source start) world = ending at endless ⊢
  obtain ⟨fault | sum, later⟩ := ending
  · have same := (fault.reportedBy_eq_endless_iff _).mp (endless_error_iff.mp endless)
    exact endless_error_iff.mpr same
  · cases endless

/-! ## Containers and cursors -/

/-- The elements of a container, or those that remain for a cursor. -/
inductive Store.Offers (store : Store) : Value → List Value → Prop
  | container {source : Value} (holds : source.holdsItems) (known : store.knows source) :
      Offers store source (store.items source)
  | cursor {cursor : Value} (is_cursor : cursor.isCursor) (made : store.Made cursor) :
      Offers store cursor (store.remaining cursor)

variable {cursor item : Value} {middle : World} {pull : Effect Value}

theorem sameSequences_of_step {result : Except Fault Value}
    (steps : world.step cursor = (result, middle)) :
    world.store.SameSequences middle.store := by
  unfold World.step at steps
  split at steps
  · obtain ⟨-, rfl⟩ := Prod.mk.inj steps
    cases cursor <;> exact ⟨rfl, rfl, rfl⟩
  · obtain ⟨-, rfl⟩ := Prod.mk.inj steps
    exact .refl world.store

/-- When a cursor has yielded an element and that has been added, the others remain. -/
theorem remaining_of_turn (is_cursor : cursor.isCursor) (made : world.store.Made cursor)
    (yields : world.step cursor = (.ok item, middle)) (gains : middle.GainsSequence later) :
    later.store.Made cursor ∧
      world.store.remaining cursor = item :: later.store.remaining cursor := by
  have undisturbed := world.undisturbed_step cursor
  rw [yields] at undisturbed
  have made_middle := made.kept undisturbed
  refine ⟨made_middle.kept gains.undisturbed, ?_⟩
  rw [gains.remaining_eq made_middle is_cursor]
  exact World.remaining_of_step_ok (made.hasCursor is_cursor) yields

theorem gainsSequence_of_outcome {result : Except Fault Value}
    (ends : outcome (addItem total item) world = (result, later)) : world.GainsSequence later := by
  have gains := gainsSequence_binary_add total item world
  rwa [← addItem, ends] at gains

/-- An addition comes to the same in a world with the same sequences. -/
theorem exists_addItem {other : World} {result : Except Fault Value}
    (same : other.store.SameSequences world.store)
    (ends : outcome (addItem total item) world = (result, later)) :
    ∃ after, outcome (addItem total item) other = (result, after) ∧
      after.store.SameSequences later.store := by
  obtain ⟨same_result, same_after⟩ := binary_add_congr total item same
  rw [← addItem, ends] at same_result same_after
  exact ⟨(outcome (addItem total item) other).2, Prod.ext same_result.symm rfl, same_after⟩

theorem turns_le_of_cursor (pulls : ∀ world, outcome (next cursor) world = world.step cursor)
    (is_cursor : cursor.isCursor) (made : world.store.Made cursor) {last : Value} {final : World}
    (takes : LoopTurns next cursor addItem turns total world last final) :
    turns ≤ (world.store.remaining cursor).length := by
  induction takes with
  | none => exact Nat.zero_le _
  | turn yields adds _ induction =>
      rw [pulls] at yields
      obtain ⟨made_later, remain⟩ :=
        remaining_of_turn is_cursor made yields (gainsSequence_of_outcome adds)
      rw [remain]
      exact Nat.succ_le_succ (induction made_later)

/-- Pulls from a cursor take its elements in order, and all of them if the sum succeeds. -/
theorem Sums.remaining_eq (sums : Sums pull total world items ending)
    (pulls : ∀ world, outcome pull world = world.step cursor) (is_cursor : cursor.isCursor)
    (made : world.store.Made cursor) :
    world.store.remaining cursor = items ++ ending.2.store.remaining cursor ∧
      ∀ result, ending.1 = .ok result → ending.2.store.remaining cursor = [] := by
  induction sums with
  | ended ends =>
      rw [pulls] at ends
      obtain ⟨none_remain, -, rfl⟩ := World.eq_of_step_error ends
      exact ⟨rfl, fun _ _ => none_remain⟩
  | broken fails proper =>
      rw [pulls] at fails
      obtain ⟨-, rfl, -⟩ := World.eq_of_step_error fails
      contradiction
  | refused yields fails =>
      rw [pulls] at yields
      obtain ⟨-, remain⟩ :=
        remaining_of_turn is_cursor made yields (gainsSequence_of_outcome fails)
      exact ⟨remain, nofun⟩
  | added yields adds _ induction =>
      rw [pulls] at yields
      obtain ⟨made_later, remain⟩ :=
        remaining_of_turn is_cursor made yields (gainsSequence_of_outcome adds)
      obtain ⟨rest_remain, all_taken⟩ := induction made_later
      exact ⟨remain.trans (congrArg _ rest_remain), all_taken⟩

/-- Pulls from a cursor give the left fold over the elements that remain for it, in any world with
the same sequences. -/
theorem Sums.foldlM_eq (sums : Sums pull total world items ending)
    (pulls : ∀ world, outcome pull world = world.step cursor) (is_cursor : cursor.isCursor)
    (made : world.store.Made cursor) {other : World}
    (same : other.store.SameSequences world.store) :
    (outcome ((world.store.remaining cursor).foldlM addItem total) other).1 = ending.1 := by
  induction sums generalizing other with
  | ended ends =>
      rw [pulls] at ends
      rw [(World.eq_of_step_error ends).1]
      rfl
  | broken fails proper =>
      rw [pulls] at fails
      obtain ⟨-, rfl, -⟩ := World.eq_of_step_error fails
      contradiction
  | @refused total item world middle later fault yields fails =>
      rw [pulls] at yields
      obtain ⟨-, remain⟩ :=
        remaining_of_turn is_cursor made yields (gainsSequence_of_outcome fails)
      obtain ⟨after, ends, -⟩ := exists_addItem (same.trans (sameSequences_of_step yields)) fails
      rw [remain, List.foldlM_cons, outcome_bind, ends]
  | added yields adds _ induction =>
      rw [pulls] at yields
      obtain ⟨made_later, remain⟩ :=
        remaining_of_turn is_cursor made yields (gainsSequence_of_outcome adds)
      obtain ⟨after, ends, same_after⟩ :=
        exists_addItem (same.trans (sameSequences_of_step yields)) adds
      rw [remain, List.foldlM_cons, outcome_bind_of_ok ends]
      exact induction made_later same_after

/-- The iterator over a source that offers some elements is a cursor for which these remain. -/
theorem exists_cursor_of_offers {offered : List Value}
    (offers : world.store.Offers source offered) :
    ∃ cursor opened, outcome source.iter world = (.ok cursor, opened) ∧ cursor.isCursor ∧
      opened.store.Made cursor ∧ opened.store.remaining cursor = offered ∧
        world.store.SameSequences opened.store := by
  cases offers with
  | container holds known =>
      obtain ⟨cursor, opened, asks, has, -, remaining_eq, ⟨gains, -⟩⟩ := exists_begun holds world
      have goes_over := (settles_iter known).meets cursor (congrArg Prod.fst asks)
      rw [asks, Store.IteratesOver, Value.not_iterator_of_holdsItems holds] at goes_over
      obtain ⟨is_cursor, made, -⟩ := goes_over
      exact ⟨cursor, opened, asks, is_cursor, made, remaining_eq, gains.buffers_eq.symm,
        gains.tuples_eq.symm, gains.lists_eq.symm⟩
  | cursor is_cursor made =>
      have is_iterator := Value.isIterator_of_isCursor is_cursor
      exact ⟨source, world, outcome_iter_of_isIterator is_iterator world, is_cursor, made, rfl,
        .refl world.store⟩

/-- The sum of a container or a cursor is the left fold over its elements. It takes those up to the
one with which an addition fails, and all of them otherwise. -/
structure FoldsOffered (context : Context) (source start : Value) (world : World)
    (offered : List Value) (ending : Except Fault Value × World) : Prop where
  /-- What the sum comes to is the left fold of `+`. -/
  result_eq : ending.1 = (outcome (offered.foldlM addItem start) world).1
  /-- The elements are taken in order and no further than to the first failure. -/
  takes : ∃ taken rest, SumEnds context source start world taken ending ∧ offered = taken ++ rest ∧
    (source.isCursor → ending.2.store.remaining source = rest) ∧
      ∀ result, ending.1 = .ok result → rest = []

theorem foldsOffered {offered : List Value} (offers : world.store.Offers source offered)
    (context : Context) (start : Value) :
    FoldsOffered context source start world offered
      (outcome (sumOf (Value.next context) source start) world) := by
  obtain ⟨cursor, opened, asks, is_cursor, made, rfl, same⟩ := exists_cursor_of_offers offers
  have pulls (before : World) : outcome (cursor.next context) before = before.step cursor :=
    outcome_next_cursor is_cursor before
  have itself : source.isCursor → source = cursor := by
    intro source_cursor
    have is_iterator := Value.isIterator_of_isCursor source_cursor
    have asks_itself := outcome_iter_of_isIterator is_iterator world
    exact Except.ok.inj (congrArg Prod.fst (asks_itself.symm.trans asks))
  rcases sumEnds_or_goesOn context source start world with ⟨taken, ends⟩ | goes_on
  · generalize outcome (sumOf _ source start) world = ending at ends ⊢
    cases ends with
    | refused fails => cases asks.symm.trans fails
    | @summed iterator items opened' ending opens sums =>
        cases asks.symm.trans opens
        obtain ⟨remain, all_taken⟩ := sums.remaining_eq pulls is_cursor made
        refine ⟨(sums.foldlM_eq pulls is_cursor made same).symm, taken,
          ending.2.store.remaining cursor, .summed opens sums, remain, ?_, all_taken⟩
        intro source_cursor
        rw [itself source_cursor]
  · obtain ⟨iterator, opened', opens, takes_all, -⟩ := goes_on
    cases asks.symm.trans opens
    obtain ⟨last, later, takes⟩ := takes_all ((opened.store.remaining cursor).length + 1)
    have few := turns_le_of_cursor pulls is_cursor made takes
    omega

/-- How sums end. -/
structure SumsFromLeft (context : Context) (world : World) : Prop where
  /-- Under the precise report a sum pulls and adds until a step fails, or for ever if none does. -/
  precise : ∀ frame source start, frame.Asks source start →
    (∃ items, SumEnds (context.reporting .precise) source start world items
        (sumOutcome (context.reporting .precise) frame world)) ∨
      SumGoesOn (context.reporting .precise) source start world
        (sumOutcome (context.reporting .precise) frame world)
  /-- It does not go on and on over a drainable source. -/
  stops : ∀ source start ending, HostsContinuous context.function? →
    HostsUndisturbing context.function? → world.store.Drainable source →
      ¬SumGoesOn (context.reporting .precise) source start world ending
  /-- Nor is it stuck in a step if the functions of the host settle. -/
  settles : ∀ growth frame source start, HostsContinuous context.function? →
    HostsUndisturbing context.function? → HostsSettle growth context.function? →
      world.store.Drainable source → frame.Asks source start →
        ¬Endless (sumOutcome (context.reporting .precise) frame world)
  /-- The sum of a container or a cursor ends, and it is the left fold over what is there at the
  beginning. -/
  folds : ∀ frame source start offered, frame.Asks source start →
    world.store.Offers source offered →
      FoldsOffered (context.reporting .precise) source start world offered
        (sumOutcome (context.reporting .precise) frame world)
  /-- Under the uniform report the same sums succeed with the same results, the same sums do not
  end, and all others fail with one fault. The world afterwards is the same, and with it the place
  of every cursor. -/
  uniform : ∀ frame source start, frame.Asks source start → HostsAgree context.function? →
    sumOutcome (context.reporting .uniform) frame world =
      ((sumOutcome (context.reporting .precise) frame world).1.mapError (·.reportedBy .uniform),
        (sumOutcome (context.reporting .precise) frame world).2)
  /-- That fault is a type error, whatever has failed. -/
  typeError : Fault.sumFailed.category = .typeError ∧
    ∀ fault : Fault, fault ≠ .endless → fault.reportedBy .uniform = .sumFailed
  /-- Other arguments are refused in the same way under both reports, and have no effect. -/
  refuses : ∀ frame : Frame, (∀ source start, ¬ frame.Asks source start) →
    ∃ fault : Fault,
      fault.category = (if frame.positional.isNone then .callingConvention else .typeError) ∧
        ∀ report, sumOutcome (context.reporting report) frame world = (.error fault, world)
  /-- An addition makes a sequence at most, and changes nothing. -/
  additions : ∀ (total item : Value) (before : World),
    before.GainsSequence (outcome (addItem total item) before).2
  /-- A sum changes no object that the functions of the host do not change. -/
  spares : ∀ spared, HostsSpare spared context.function? → ∀ frame report,
    world.store.Spares spared (sumOutcome (context.reporting report) frame world).2.store

/-- A sum is the left fold of additions, and only the report of a failure depends on the
configuration. -/
theorem sumsFromLeft (context : Context) (world : World) : SumsFromLeft context world where
  precise frame source start asks := by
    rw [sumOutcome_precise asks]
    exact sumEnds_or_goesOn _ source start world
  stops source start ending continuous undisturbing drainable :=
    not_sumGoesOn_of_drainable continuous undisturbing drainable
  settles growth frame source start continuous undisturbing hosts drainable asks :=
    not_endless_sumOutcome continuous undisturbing hosts drainable asks
  folds frame source start offered asks offers := by
    rw [sumOutcome_precise asks]
    exact foldsOffered offers _ start
  uniform frame source start asks hosts := sumOutcome_uniform_eq hosts asks world
  typeError := ⟨rfl, fun _ proper => if_neg proper⟩
  refuses frame unasked := exists_refusal unasked context world
  additions total item before := gainsSequence_binary_add total item before
  spares spared hosts frame report :=
    spares_sum (context.reporting report) hosts frame world

end ObjectModel
