import ObjectModel.Proofs.Effect.Approach
import ObjectModel.Proofs.Iterator.Step

/-!
# Consumers that share a cursor

A cursor can be asked for its elements itself, and any number of mappings can have it as their
source. They all take from the same cursor: a call takes the next element and hands it on, or takes
nothing. So in whatever order the consumers are called, they are handed the elements that remain one
after the other, each of them once.
-/

namespace ObjectModel

open Effect

/-- What takes its elements from a cursor: the cursor itself, and a mapping whose source it is. Such
a mapping has the cursor as its iterator from its first step on. -/
inductive Store.IsConsumer (store : Store) (cursor : Value) : Value → Prop
  | cursor : IsConsumer store cursor cursor
  | map {ref : Ref} (source_eq : (store.mappings.get ref).source = cursor)
      (own : ∀ iterator, (store.mappings.get ref).iterator = some iterator → iterator = cursor) :
      IsConsumer store cursor (.map ref)

/-- What consumes from a cursor goes on to do so, whatever else happens. -/
theorem Store.IsConsumer.later {store later : Store} {cursor consumer : Value}
    (consumes : store.IsConsumer cursor consumer) (is_cursor : cursor.isCursor)
    (advances : store.Advances later) : later.IsConsumer cursor consumer := by
  cases consumes with
  | cursor => exact .cursor
  | @map ref source_eq own =>
      have known : ref.index < store.mappings.size := by
        apply store.lt_size_of_source_ne
        intro no_source
        rw [← source_eq, no_source] at is_cursor
        contradiction
      have moved := advances.mappings.get ref known
      refine .map (moved.source_eq.trans source_eq) fun iterator held => ?_
      rcases moved.own iterator held with before | itself
      · exact own iterator before
      · rw [source_eq, Value.CanHave, if_pos (Value.isIterator_of_isCursor is_cursor)] at itself
        exact itself

/-- How many elements a consumer asks for in a step: one, unless it is a mapping whose function
cannot be called. -/
def Store.demand (store : Store) : Value → Nat
  | .map ref => if (store.mappings.get ref).function.isCallable then 1 else 0
  | _ => 1

theorem Store.demand_of_isCursor {store : Store} {cursor : Value} (is_cursor : cursor.isCursor) :
    store.demand cursor = 1 := by
  cases cursor <;> first | rfl | contradiction

/-- How a consumer of a cursor is asked for its next element: what it takes from the cursor and
hands on, the world right after that, and how the step ends. The cursor hands its element to the
caller, a mapping hands it to its function as the only argument. Steps nest as deep as that call
needs. -/
inductive Serves (context : Context) (cursor : Value) (world : World) :
    Value → List Value → World → Except Fault Value × World → Prop
  | handed {item : Value} {middle : World}
      (steps : outcome (cursor.next context) world = (.ok item, middle)) :
      Serves context cursor world cursor [item] middle (.ok item, middle)
  | failed {fault : Fault} {middle : World}
      (fails : outcome (cursor.next context) world = (.error fault, middle)) :
      Serves context cursor world cursor [] middle (.error fault, middle)
  | refused {ref : Ref} {middle : World} {function : Value}
      (opens : outcome (sourceIterator ref) world = (.ok cursor, middle))
      (function_eq : (middle.store.mappings.get ref).function = function)
      (not_callable : function.isCallable = false) :
      Serves context cursor world (.map ref) [] middle (.error (.notCallable function.kind), middle)
  | stopped {ref : Ref} {opened middle : World} {fault : Fault}
      (opens : outcome (sourceIterator ref) world = (.ok cursor, opened))
      (callable : (opened.store.mappings.get ref).function.isCallable)
      (fails : outcome (cursor.next context) opened = (.error fault, middle)) :
      Serves context cursor world (.map ref) [] middle (.error fault, middle)
  | passed {ref : Ref} {opened middle : World} {function item : Value} {depth : Nat}
      {ending : Except Fault Value × World}
      (opens : outcome (sourceIterator ref) world = (.ok cursor, opened))
      (function_eq : (opened.store.mappings.get ref).function = function)
      (callable : function.isCallable)
      (takes : outcome (cursor.next context) opened = (.ok item, middle))
      (calls : outcome (callBy context (nextWithin context depth) function (.ofList [item]))
        middle = ending) (ends : ¬Endless ending) :
      Serves context cursor world (.map ref) [item] middle ending
  | unanswered {ref : Ref} {opened middle : World} {function item : Value}
      (opens : outcome (sourceIterator ref) world = (.ok cursor, opened))
      (function_eq : (opened.store.mappings.get ref).function = function)
      (callable : function.isCallable)
      (takes : outcome (cursor.next context) opened = (.ok item, middle))
      (calls : ∀ depth, 0 < depth → Endless (outcome (callBy context (nextWithin context depth)
        function (.ofList [item])) middle)) :
      Serves context cursor world (.map ref) [item] middle (.error .endless, world)

section Steps

variable {context : Context} {world middle : World} {cursor consumer : Value} {handed : List Value}
  {ending : Except Fault Value × World}

/-- A mapping over a cursor gets that cursor as its iterator, which takes no element from it. -/
theorem exists_opened_of_isConsumer {ref : Ref} (has : world.store.hasCursor cursor)
    (consumes : world.store.IsConsumer cursor (.map ref)) :
    ∃ opened, outcome (sourceIterator ref) world = (.ok cursor, opened) ∧
      opened.store.remaining cursor = world.store.remaining cursor ∧
      opened.store.hasCursor cursor ∧
      (opened.store.mappings.get ref).function = (world.store.mappings.get ref).function := by
  cases consumes with
  | cursor => contradiction
  | map source_eq own =>
      cases held : (world.store.mappings.get ref).iterator with
      | some iterator =>
          obtain rfl := own iterator held
          exact ⟨world, outcome_sourceIterator_of_held held, rfl, has, rfl⟩
      | none =>
          have is_iterator := Value.isIterator_of_isCursor (Store.isCursor_of_hasCursor has)
          rw [outcome_sourceIterator, held]
          dsimp only
          rw [source_eq, outcome_iter_of_isIterator is_iterator]
          refine ⟨_, rfl, world.store.remaining_resolve ref cursor cursor, ?_,
            world.store.function_resolve ref cursor ref⟩
          rw [Store.hasCursor_resolve, has]

/-- A mapping hands the element that it has taken from the cursor to its function, and ends as the
first call does that ends, or none ends. -/
theorem exists_serves_of_takes {ref : Ref} {opened : World} {item : Value}
    (is_cursor : cursor.isCursor)
    (opens : outcome (sourceIterator ref) world = (.ok cursor, opened))
    (callable : (opened.store.mappings.get ref).function.isCallable)
    (takes : opened.step cursor = (.ok item, middle)) :
    Serves context cursor world (.map ref) [item] middle
      (outcome ((Value.map ref).next context) world) := by
  have calls (depth : Nat) : outcome (nextWithin context (depth + 2) (.map ref)) world =
      outcome (callBy context (nextWithin context (depth + 1))
        (opened.store.mappings.get ref).function (.ofList [item])) middle := by
    rw [nextWithin, outcome_stepBy_map opens]
    dsimp only
    rw [if_pos callable, outcome_bind, nextWithin, outcome_stepBy_cursor is_cursor, takes]
  have shallow : Endless (outcome (nextWithin context 1 (.map ref)) world) := by
    rw [nextWithin, outcome_stepBy_map opens]
    dsimp only
    rw [if_pos callable]
    rfl
  have takes_next : outcome (cursor.next context) opened = (.ok item, middle) :=
    (outcome_next_cursor is_cursor opened).trans takes
  rcases firstToEnd_or_endless (nextWithin context · (.map ref)) world with
    ⟨depth, first, same⟩ | ⟨endless, same⟩
  · rw [Value.next, same]
    have ends := first.ends
    rcases depth with - | - | depth
    · exact absurd rfl ends
    · exact absurd shallow ends
    · exact .passed opens rfl callable takes_next (calls depth).symm ends
  · rw [Value.next, same]
    refine .unanswered opens rfl callable takes_next fun depth positive => ?_
    obtain ⟨depth, rfl⟩ := Nat.exists_eq_add_one.mpr positive
    rw [← calls]
    exact endless (depth + 2)

/-- A step of a mapping whose function cannot be called fails when it has its iterator. -/
theorem outcome_next_map_of_not_callable {ref : Ref} {opened : World}
    (opens : outcome (sourceIterator ref) world = (.ok cursor, opened))
    (not_callable : (opened.store.mappings.get ref).function.isCallable = false) :
    outcome ((Value.map ref).next context) world =
      (.error (.notCallable (opened.store.mappings.get ref).function.kind), opened) := by
  have fails : outcome (nextWithin context 1 (.map ref)) world =
      (.error (.notCallable (opened.store.mappings.get ref).function.kind), opened) := by
    rw [nextWithin, outcome_stepBy_map opens]
    exact if_neg (Bool.not_eq_true _ ▸ not_callable)
  have first : FirstToEnd (nextWithin context · (.map ref)) world 1 :=
    { ends := by
        rw [fails]
        intro endless
        cases endless_error_iff.mp endless
      before := fun less below => by
        obtain rfl := Nat.lt_one_iff.mp below
        rfl }
  exact first.outcome_unbounded.trans fails

/-- Each request for the next element of a consumer is served. -/
theorem exists_serves (context : Context) (has : world.store.hasCursor cursor)
    (consumes : world.store.IsConsumer cursor consumer) :
    ∃ handed middle ending, Serves context cursor world consumer handed middle ending ∧
      outcome (consumer.next context) world = ending := by
  have is_cursor := Store.isCursor_of_hasCursor has
  cases consumes with
  | cursor =>
      cases steps : outcome (cursor.next context) world with
      | mk result middle =>
          cases result with
          | ok item => exact ⟨[item], middle, _, .handed steps, rfl⟩
          | error fault => exact ⟨[], middle, _, .failed steps, rfl⟩
  | @map ref source_eq own =>
      obtain ⟨opened, opens, -, -, -⟩ := exists_opened_of_isConsumer has (.map source_eq own)
      cases callable : (opened.store.mappings.get ref).function.isCallable with
      | false =>
          exact ⟨[], opened, _, .refused opens rfl callable,
            outcome_next_map_of_not_callable opens callable⟩
      | true =>
          cases takes : opened.step cursor with
          | mk result middle =>
              cases result with
              | ok item =>
                  exact ⟨[item], middle, _,
                    exists_serves_of_takes is_cursor opens callable takes, rfl⟩
              | error fault =>
                  have fails : outcome (cursor.next context) opened = (.error fault, middle) :=
                    (outcome_next_cursor is_cursor opened).trans takes
                  have proper : fault ≠ .endless := by
                    rintro rfl
                    exact opened.step_ne_endless cursor (congrArg Prod.fst takes)
                  exact ⟨[], middle, _, .stopped opens callable fails,
                    outcome_next_map_of_error opens callable fails proper⟩

theorem take_one_of_step {result : Except Fault Value} {start : World}
    (has : start.store.hasCursor cursor) (steps : start.step cursor = (result, middle)) :
    result.toOption.toList = (start.store.remaining cursor).take 1 ∧
      middle.store.remaining cursor = (start.store.remaining cursor).drop 1 ∧
      middle.store.hasCursor cursor := by
  have has_later : middle.store.hasCursor cursor := by
    have advances := start.advances_step cursor
    rw [steps] at advances
    exact advances.hasCursor has
  cases result with
  | ok item =>
      rw [World.remaining_of_step_ok has steps]
      exact ⟨rfl, rfl, has_later⟩
  | error fault =>
      obtain ⟨none_remain, -, rfl⟩ := World.eq_of_step_error steps
      rw [none_remain]
      exact ⟨rfl, rfl, has_later⟩

/-- A request takes from the cursor what it hands on, and nothing else: the first element that
remains, unless the function of the mapping cannot be called. -/
theorem Serves.handed_eq (serves : Serves context cursor world consumer handed middle ending)
    (has : world.store.hasCursor cursor) (consumes : world.store.IsConsumer cursor consumer) :
    handed = (world.store.remaining cursor).take (world.store.demand consumer) ∧
      middle.store.remaining cursor =
        (world.store.remaining cursor).drop (world.store.demand consumer) ∧
      middle.store.hasCursor cursor := by
  have is_cursor := Store.isCursor_of_hasCursor has
  -- before the first element is taken, a mapping only gets its iterator, which moves no cursor
  have opened_eq {ref : Ref} {opened : World}
      (consumes : world.store.IsConsumer cursor (.map ref))
      (opens : outcome (sourceIterator ref) world = (.ok cursor, opened)) :
      opened.store.remaining cursor = world.store.remaining cursor ∧
        opened.store.hasCursor cursor ∧
          (opened.store.mappings.get ref).function = (world.store.mappings.get ref).function := by
    obtain ⟨other, opens_too, facts⟩ := exists_opened_of_isConsumer has consumes
    obtain ⟨-, rfl⟩ := Prod.mk.inj (opens.symm.trans opens_too)
    exact facts
  cases serves with
  | handed steps =>
      rw [outcome_next_cursor is_cursor] at steps
      rw [Store.demand_of_isCursor is_cursor]
      exact take_one_of_step has steps
  | failed fails =>
      rw [outcome_next_cursor is_cursor] at fails
      rw [Store.demand_of_isCursor is_cursor]
      exact take_one_of_step has fails
  | refused opens function_eq not_callable =>
      obtain ⟨same_remaining, has_opened, same_function⟩ := opened_eq consumes opens
      rw [← function_eq, same_function] at not_callable
      simp [Store.demand, not_callable, same_remaining, has_opened]
  | stopped opens callable fails =>
      obtain ⟨same_remaining, has_opened, same_function⟩ := opened_eq consumes opens
      rw [outcome_next_cursor is_cursor] at fails
      rw [same_function] at callable
      rw [Store.demand, if_pos callable, ← same_remaining]
      exact take_one_of_step has_opened fails
  | passed opens function_eq callable takes | unanswered opens function_eq callable takes =>
      obtain ⟨same_remaining, has_opened, same_function⟩ := opened_eq consumes opens
      rw [outcome_next_cursor is_cursor] at takes
      rw [← function_eq, same_function] at callable
      rw [Store.demand, if_pos callable, ← same_remaining]
      exact take_one_of_step has_opened takes

/-- Where nothing remains for the cursor, each request for an element reports the end. -/
theorem next_of_ended (has : world.store.hasCursor cursor)
    (consumes : world.store.IsConsumer cursor consumer)
    (asks : world.store.demand consumer = 1)
    (ended : world.store.remaining cursor = []) :
    (outcome (consumer.next context) world).1 = .error .endOfSequence := by
  have is_cursor := Store.isCursor_of_hasCursor has
  cases consumes with
  | cursor =>
      rw [outcome_next_cursor is_cursor, World.step, ended]
  | @map ref source_eq own =>
      obtain ⟨opened, opens, same_remaining, -, same_function⟩ :=
        exists_opened_of_isConsumer has (.map source_eq own)
      have callable : (opened.store.mappings.get ref).function.isCallable := by
        rw [same_function]
        by_contra not_callable
        rw [Store.demand, if_neg not_callable] at asks
        contradiction
      have fails : outcome (cursor.next context) opened = (.error .endOfSequence, opened) := by
        rw [outcome_next_cursor is_cursor, World.step, same_remaining, ended]
      rw [outcome_next_map_of_error opens callable fails (ne_endless_of_signal rfl)]

end Steps

/-! ## Any number of consumers -/

/-- Consumers of a cursor are asked for their next elements, in any order. The elements that they
take are listed in that order. The functions that are called with them, and whatever else is done in
between, leave the cursor where it is and what it looks at as it is. -/
inductive Consumption (context : Context) (cursor : Value) : World → List Value → World → Prop
  | done (world : World) : Consumption context cursor world [] world
  | served {world middle last : World} {consumer : Value} {handed further : List Value}
      {ending : Except Fault Value × World}
      (consumes : world.store.IsConsumer cursor consumer)
      (serves : Serves context cursor world consumer handed middle ending)
      (leaves_remaining : ending.2.store.remaining cursor = middle.store.remaining cursor)
      (leaves_cursor : ending.2.store.hasCursor cursor)
      (rest : Consumption context cursor ending.2 further last) :
      Consumption context cursor world (handed ++ further) last
  | elsewhere {world later last : World} {further : List Value}
      (leaves_remaining : later.store.remaining cursor = world.store.remaining cursor)
      (leaves_cursor : later.store.hasCursor cursor)
      (rest : Consumption context cursor later further last) :
      Consumption context cursor world further last

/-- What the consumers of a cursor can rely on. -/
structure SharesFairly (context : Context) (cursor : Value) : Prop where
  /-- Every request is served in one of the ways above. -/
  serves : ∀ (world : World) (consumer : Value), world.store.hasCursor cursor →
    world.store.IsConsumer cursor consumer → ∃ handed middle ending,
      Serves context cursor world consumer handed middle ending ∧
        outcome (consumer.next context) world = ending
  /-- The call is that of the function, if functions of the host cannot tell that a step does not
  end. -/
  calls : HostsContinuous context.function? → ∀ (depth : Nat) (function : Value) (frame : Frame)
    (world : World),
      EndsAs (outcome (callBy context (nextWithin context depth) function frame) world)
        (outcome (function.call context frame) world)
  /-- When a mapping gets its iterator, this is the cursor, and nothing is taken from it. -/
  opens : ∀ (world : World) (ref : Ref), world.store.hasCursor cursor →
    world.store.IsConsumer cursor (.map ref) →
      ∃ opened, outcome (sourceIterator ref) world = (.ok cursor, opened) ∧
        opened.store.remaining cursor = world.store.remaining cursor
  /-- A mapping whose function cannot be called takes nothing. Every other request takes the first
  element that remains, whatever becomes of it, and nothing at the end. -/
  takes : ∀ (world middle : World) (consumer : Value) (handed : List Value)
    (ending : Except Fault Value × World), world.store.hasCursor cursor →
      world.store.IsConsumer cursor consumer →
          Serves context cursor world consumer handed middle ending →
            handed = (world.store.remaining cursor).take (world.store.demand consumer) ∧
              middle.store.remaining cursor =
                (world.store.remaining cursor).drop (world.store.demand consumer)
  /-- At the end, every request for an element reports it. -/
  ends : ∀ (world : World) (consumer : Value), world.store.hasCursor cursor →
    world.store.IsConsumer cursor consumer → world.store.demand consumer = 1 →
      world.store.remaining cursor = [] →
        (outcome (consumer.next context) world).1 = .error .endOfSequence
  /-- A consumer stays one, whatever happens to the store. -/
  persists : ∀ (store later : Store) (consumer : Value), store.hasCursor cursor →
    store.IsConsumer cursor consumer → store.Advances later → later.IsConsumer cursor consumer
  /-- All consumers together are handed the first of the elements that remain, in their order and
  each of them once. -/
  inOrder : ∀ (first last : World) (handed : List Value), first.store.hasCursor cursor →
    Consumption context cursor first handed last →
      handed ++ last.store.remaining cursor = first.store.remaining cursor

theorem Consumption.append_remaining {context : Context} {cursor : Value} {first last : World}
    {handed : List Value} (consumption : Consumption context cursor first handed last)
    (has : first.store.hasCursor cursor) :
    handed ++ last.store.remaining cursor = first.store.remaining cursor := by
  induction consumption with
  | done world => rfl
  | served consumes serves leaves_remaining leaves_cursor rest induction =>
      obtain ⟨handed_eq, middle_eq, -⟩ := serves.handed_eq has consumes
      rw [List.append_assoc, induction leaves_cursor, leaves_remaining, handed_eq, middle_eq,
        List.take_append_drop]
  | elsewhere leaves_remaining leaves_cursor rest induction =>
      rw [induction leaves_cursor, leaves_remaining]

/-- No element is lost between the consumers of a cursor, and none is handed to two of them. -/
theorem sharesFairly (context : Context) (cursor : Value) : SharesFairly context cursor where
  serves _ _ has consumes := exists_serves context has consumes
  calls hosts depth function frame world :=
    (hosts.approaches_callBy hosts.approaches_next function frame).below world depth
  opens _ _ has consumes :=
    have ⟨opened, opens, same_remaining, _⟩ := exists_opened_of_isConsumer has consumes
    ⟨opened, opens, same_remaining⟩
  takes _ _ _ _ _ has consumes serves :=
    have ⟨handed_eq, middle_eq, _⟩ := serves.handed_eq has consumes
    ⟨handed_eq, middle_eq⟩
  ends _ _ has consumes asks ended := next_of_ended has consumes asks ended
  persists _ _ _ has consumes advances :=
    consumes.later (Store.isCursor_of_hasCursor has) advances
  inOrder _ _ _ has consumption := consumption.append_remaining has

/-- A cursor at a place of a list with three items, and three mappings over the cursor, of which the
given number have it as their iterator. The function of the second cannot be called, and that of the
third fails with numbers. -/
def shared (place opened : Nat) : World where
  store :=
    let cursor := Value.listIterator ⟨0⟩
    let mapping (number : Nat) (function : Value) : Mapping :=
      { function, source := cursor, iterator := if number < opened then some cursor else none }
    { lists := ⟨#[[.int 1, .int 2, .int 3]]⟩
      listCursors := ⟨#[{ target := ⟨0⟩, place }]⟩
      mappings := ⟨#[mapping 0 (.builtin "str"), mapping 1 .none, mapping 2 (.builtin "len")]⟩ }

theorem isConsumer_shared {place opened number : Nat} (below : number < 3) :
    (shared place opened).store.IsConsumer (.listIterator ⟨0⟩) (.map ⟨number⟩) := by
  have own (iterator : Value)
      (held : (if number < opened then some (Value.listIterator ⟨0⟩) else none) =
      some iterator) : iterator = .listIterator ⟨0⟩ := by
    split at held
    · exact (Option.some.inj held).symm
    · contradiction
  match number with
  | 0 | 1 | 2 => exact .map rfl own

theorem sharesFairly_shared :
    Consumption {} (.listIterator ⟨0⟩) (shared 0 0) [.int 1, .int 2, .int 3] (shared 3 3) ∧
      [.int 1, .int 2, .int 3] ++ (shared 3 3).store.remaining (.listIterator ⟨0⟩) =
        (shared 0 0).store.remaining (.listIterator ⟨0⟩) := by
  have yields (world : World) {item : Value} {later : World}
      (steps : world.step (.listIterator ⟨0⟩) = (.ok item, later)) :
      outcome ((Value.listIterator ⟨0⟩).next {}) world = (.ok item, later) :=
    (outcome_next_cursor rfl world).trans steps
  have first : Serves {} (.listIterator ⟨0⟩) (shared 0 0) (.map ⟨0⟩) [.int 1] (shared 1 1)
      (.ok (.str "1"), shared 1 1) := by
    have calls : outcome (callBy {} (nextWithin {} 1) (.builtin "str") (.ofList [.int 1]))
        (shared 1 1) = (.ok (.str "1"), shared 1 1) := rfl
    exact .passed rfl rfl rfl (yields (shared 0 1) rfl) calls nofun
  have second : Serves {} (.listIterator ⟨0⟩) (shared 1 1) (.map ⟨1⟩) [] (shared 1 2)
      (.error (.notCallable .none), shared 1 2) :=
    .refused rfl rfl rfl
  have third : Serves {} (.listIterator ⟨0⟩) (shared 1 2) (.map ⟨2⟩) [.int 2] (shared 2 3)
      (.error (.noLength .int), shared 2 3) := by
    have calls : outcome (callBy {} (nextWithin {} 1) (.builtin "len") (.ofList [.int 2]))
        (shared 2 3) = (.error (.noLength .int), shared 2 3) := rfl
    exact .passed rfl rfl rfl (yields (shared 1 3) rfl) calls nofun
  have last : Serves {} (.listIterator ⟨0⟩) (shared 2 3) (.listIterator ⟨0⟩) [.int 3] (shared 3 3)
      (.ok (.int 3), shared 3 3) :=
    .handed (yields _ rfl)
  have run : Consumption {} (.listIterator ⟨0⟩) (shared 0 0)
      ([.int 1] ++ ([] ++ ([.int 2] ++ ([.int 3] ++ [])))) (shared 3 3) :=
    .served (isConsumer_shared (by decide)) first rfl rfl
      (.served (isConsumer_shared (by decide)) second rfl rfl
        (.served (isConsumer_shared (by decide)) third rfl rfl
          (.served .cursor last rfl rfl (.done _))))
  exact ⟨run, (sharesFairly {} _).inOrder _ _ _ rfl run⟩

end ObjectModel
