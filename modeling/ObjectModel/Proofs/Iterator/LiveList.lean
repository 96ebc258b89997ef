import ObjectModel.Proofs.Iterator.Emptying
import ObjectModel.Proofs.Operation.Evolving

/-!
# Cursors over lists

A cursor over a list looks at the list as it is at each step. It yields the item at the place whose
number is that of the elements it has yielded, however the list has been changed meanwhile, by
whatever other cursors there are over it, and by operations that take elements from the cursor
themselves. As long as nothing is taken out of the list, what the cursor has yielded is what the
list begins with.
-/

namespace ObjectModel

open Effect

/-- The elements that a cursor has yielded, of a record of elements and the cursors that have
yielded them. -/
def yieldedBy (cursor : Value) (yielded : List (Value × Value)) : List Value :=
  yielded.filterMap fun record => if record.1 = cursor then some record.2 else none

variable {cursor other item : Value} {yielded more : List (Value × Value)}

theorem yieldedBy_append (cursor : Value) (yielded more : List (Value × Value)) :
    yieldedBy cursor (yielded ++ more) = yieldedBy cursor yielded ++ yieldedBy cursor more :=
  List.filterMap_append

theorem yieldedBy_singleton (cursor item : Value) : yieldedBy cursor [(cursor, item)] = [item] := by
  simp [yieldedBy]

theorem yieldedBy_singleton_of_ne (ne : other ≠ cursor) (item : Value) :
    yieldedBy cursor [(other, item)] = [] := by
  simp [yieldedBy, ne]

namespace Store

variable {allowed : Store → Store → Prop} {store later : Store} {ref list : Ref}

/-! ## The place of a cursor -/

/-- A change in which no cursor yields an element moves none. -/
theorem Edits.listCursor_eq (edits : store.Edits later)
    (known : ref.index < store.listCursors.size) :
    later.listCursors.get ref = store.listCursors.get ref := by
  cases edits with
  | adds adds =>
      cases adds with
      | listCursor target =>
          exact Pool.get_push_of_ne _ _ (by rintro rfl; exact Nat.lt_irrefl _ known)
      | _ => rfl
  | _ => rfl

theorem listCursor_pass_of_ne (ne : cursor ≠ .listIterator ref) :
    (store.pass cursor).listCursors.get ref = store.listCursors.get ref := by
  cases cursor with
  | listIterator other =>
      exact Pool.get_set_of_ne _ _ fun same => ne (congrArg Value.listIterator same.symm)
  | _ => rfl

theorem listCursor_pass (known : ref.index < store.listCursors.size) :
    (store.pass (.listIterator ref)).listCursors.get ref =
      { store.listCursors.get ref with place := (store.listCursors.get ref).place + 1 } :=
  Pool.get_set_self _ _ known

theorem list_pass (store : Store) (cursor : Value) (list : Ref) :
    (store.pass cursor).list list = store.list list := by
  cases cursor <;> rfl

/-- A cursor moves by one place with each element that it yields, and in no other way. -/
theorem Course.listCursor_eq (course : store.Course allowed yielded later)
    (known : ref.index < store.listCursors.size) :
    later.listCursors.get ref =
      { store.listCursors.get ref with
        place := (store.listCursors.get ref).place +
          (yieldedBy (.listIterator ref) yielded).length } := by
  induction course with
  | start => rfl
  | edit course edits is_allowed induction =>
      rw [edits.listCursor_eq (known.trans_le course.advances.listCursors.size_le), induction]
  | @yield yielded middle cursor item rest course remain induction =>
      rw [yieldedBy_append, List.length_append]
      by_cases same : cursor = .listIterator ref
      · rw [same, listCursor_pass (known.trans_le course.advances.listCursors.size_le), induction,
          yieldedBy_singleton]
        rfl
      · rw [listCursor_pass_of_ne same, induction, yieldedBy_singleton_of_ne same]
        rfl

/-- A cursor that began over a list has the items ahead that stand behind as many as it has
yielded. -/
theorem Course.remaining_eq (course : store.Course allowed yielded later)
    (known : ref.index < store.listCursors.size)
    (began : store.listCursors.get ref = { target := list }) :
    later.remaining (.listIterator ref) =
      (later.list list).drop (yieldedBy (.listIterator ref) yielded).length := by
  rw [remaining, course.listCursor_eq known, began]
  dsimp only
  rw [Nat.zero_add]

/-! ## Lists that grow -/

/-- As long as the list grows only, the elements that a cursor has yielded are those that the list
begins with. -/
theorem Course.yieldedBy_prefix (course : store.Course (Grows list) yielded later)
    (known : ref.index < store.listCursors.size)
    (began : store.listCursors.get ref = { target := list }) :
    yieldedBy (.listIterator ref) yielded <+: later.list list := by
  induction course with
  | start => exact List.nil_prefix
  | edit course edits grows induction => exact induction.trans grows
  | @yield yielded middle cursor item rest course remain induction =>
      rw [yieldedBy_append, list_pass]
      by_cases same : cursor = .listIterator ref
      · -- the list begins with what was yielded before, and then has the item
        obtain ⟨ahead, list_eq⟩ := induction
        have ahead_eq : ahead = item :: rest := by
          rw [← remain, same, course.remaining_eq known began, ← list_eq, List.drop_left]
        rw [same, yieldedBy_singleton, ← list_eq, ahead_eq]
        exact ⟨rest, by rw [List.append_assoc, List.singleton_append]⟩
      · rw [yieldedBy_singleton_of_ne same, List.append_nil]
        exact induction

end Store

/-! ## Views of a list -/

/-- What a cursor over a list shows of the list from its beginning on. -/
structure ListView (context : Context) (list : Ref) (cursor : Value) (opened : World) : Prop where
  /-- Whatever operations follow, there is a record of all elements that cursors yield. -/
  runs : HostsEvolve Store.Anyhow context.function? → ∀ operations : List Operation,
    (∀ operation ∈ operations, operation.BodyEvolves Store.Anyhow context) →
      opened.store.Evolves Store.Anyhow (Operation.performAll context operations opened).store
  /-- The next element is the item behind as many as the cursor has yielded, and goes on record. -/
  next : ∀ yielded later, opened.store.Course Store.Anyhow yielded later.store →
    ∀ item, (later.store.list list)[(yieldedBy cursor yielded).length]? = some item →
      ∃ after, outcome (cursor.next context) later = (.ok item, after) ∧
        after.store.lists = later.store.lists ∧
          opened.store.Course Store.Anyhow (yielded ++ [(cursor, item)]) after.store
  /-- The end is reported if and only if the list has no more items than the cursor has yielded.
  That changes nothing. -/
  ends : ∀ yielded later, opened.store.Course Store.Anyhow yielded later.store →
    ((outcome (cursor.next context) later).1 = .error .endOfSequence ↔
      (later.store.list list).length ≤ (yieldedBy cursor yielded).length) ∧
    ((later.store.list list).length ≤ (yieldedBy cursor yielded).length →
      (outcome (cursor.next context) later).2 = later)
  /-- All elements that an operation takes from the cursor go on record. -/
  collect : ∀ yielded later, opened.store.Course Store.Anyhow yielded later.store →
    ∃ after, outcome (cursor.collect context) later =
        (.ok ((later.store.list list).drop (yieldedBy cursor yielded).length), after) ∧
      opened.store.Course Store.Anyhow (yielded ++
        ((later.store.list list).drop (yieldedBy cursor yielded).length).map (cursor, ·))
        after.store
  /-- Operations that take nothing out of the list let it grow only. -/
  grows : HostsEvolve (Store.Grows list) context.function? → ∀ operations : List Operation,
    (∀ operation ∈ operations, operation.TakesNothing list ∧
      operation.BodyEvolves (Store.Grows list) context) →
        opened.store.Evolves (Store.Grows list)
          (Operation.performAll context operations opened).store
  /-- As long as the list grows only, what the cursor has yielded is what the list begins with, and
  the end is reported if and only if that is the whole list. -/
  grown : ∀ yielded later, opened.store.Course (Store.Grows list) yielded later.store →
    yieldedBy cursor yielded <+: later.store.list list ∧
      ((outcome (cursor.next context) later).1 = .error .endOfSequence ↔
        yieldedBy cursor yielded = later.store.list list)

section View

variable {context : Context} {list ref : Ref} {opened later : World}
  {allowed : Store → Store → Prop}

/-- A step of a cursor over a list at the end of a course. -/
theorem outcome_next_of_course (course : opened.store.Course allowed yielded later.store)
    (known : ref.index < opened.store.listCursors.size)
    (began : opened.store.listCursors.get ref = { target := list }) :
    outcome ((Value.listIterator ref).next context) later =
      match (later.store.list list)[(yieldedBy (.listIterator ref) yielded).length]? with
      | some item =>
          (.ok item, { later with store := later.store.pass (.listIterator ref) })
      | none => (.error .endOfSequence, later) := by
  rw [outcome_next_cursor rfl, World.step,
    course.remaining_eq known began]
  generalize (yieldedBy (.listIterator ref) yielded).length = count
  cases found : (later.store.list list)[count]? with
  | some item =>
      obtain ⟨inside, rfl⟩ := List.getElem?_eq_some_iff.mp found
      rw [List.drop_eq_getElem_cons inside]
  | none => rw [List.drop_eq_nil_of_le (List.getElem?_eq_none_iff.mp found)]

theorem outcome_next_eq_end_iff (course : opened.store.Course allowed yielded later.store)
    (known : ref.index < opened.store.listCursors.size)
    (began : opened.store.listCursors.get ref = { target := list }) :
    (outcome ((Value.listIterator ref).next context) later).1 = .error .endOfSequence ↔
      (later.store.list list).length ≤ (yieldedBy (.listIterator ref) yielded).length := by
  rw [outcome_next_of_course course known began, ← List.getElem?_eq_none_iff]
  cases (later.store.list list)[(yieldedBy (.listIterator ref) yielded).length]? <;> simp

theorem listView_of_began (known : ref.index < opened.store.listCursors.size)
    (began : opened.store.listCursors.get ref = { target := list }) :
    ListView context list (.listIterator ref) opened where
  runs hosts operations bodies := Operation.evolves_performAll
    (fun operation member => Operation.evolves_perform_anyhow hosts (bodies operation member)) _
  next yielded later course item found := by
    have steps : outcome ((Value.listIterator ref).next context) later = _ :=
      outcome_next_of_course course known began
    rw [found] at steps
    obtain ⟨inside, rfl⟩ := List.getElem?_eq_some_iff.mp found
    have remain := course.remaining_eq known began
    rw [List.drop_eq_getElem_cons inside] at remain
    exact ⟨_, steps, rfl, course.yield remain⟩
  ends yielded later course := by
    refine ⟨outcome_next_eq_end_iff course known began, fun le => ?_⟩
    rw [outcome_next_of_course course known began, List.getElem?_eq_none_iff.mpr le]
  collect yielded later course := by
    have has : later.store.hasCursor (.listIterator ref) :=
      course.advances.hasCursor (decide_eq_true known)
    have collects : outcome ((Value.listIterator ref).collect context) later = _ :=
      outcome_collect_of_iter (outcome_iter_of_isIterator rfl later) has
    have takes : later.store.Course Store.Anyhow _ _ :=
      Store.course_passOver has (List.append_nil _).symm
    rw [course.remaining_eq known began] at collects takes
    exact ⟨_, collects, course.trans takes⟩
  grows hosts operations keeps := Operation.evolves_performAll
    (fun operation member => Operation.growsList_perform hosts (keeps operation member).2
      (keeps operation member).1) _
  grown yielded later course := by
    have begins := course.yieldedBy_prefix known began
    refine ⟨begins, (outcome_next_eq_end_iff course known began).trans ?_⟩
    exact ⟨fun le => begins.eq_of_length_le le, fun same => (congrArg List.length same).ge⟩

end View

/-- Every cursor over a list is a view of the list as it is, from the request on that makes it. -/
theorem exists_listView (context : Context) (list : Ref) (world : World) :
    ∃ cursor opened, outcome (Value.list list).iter world = (.ok cursor, opened) ∧
      world.store.hasCursor cursor = false ∧ opened.store.lists = world.store.lists ∧
        ListView context list cursor opened :=
  ⟨.listIterator world.store.listCursors.next, _, rfl, decide_eq_false (Nat.lt_irrefl _), rfl,
    listView_of_began (world.store.listCursors.index_next_lt_size_push _) (Pool.get_push_next _ _)⟩

/-- A list takes up the rest of its own cursor, which then yields what has come behind. -/
example :
    (outcome (do
      let list ← newList [.int 1, .int 2]
      let cursor ← list.iter
      let first ← cursor.next {}
      let _ ← list.callMethod {} "extend" [cursor]
      let _ ← list.callMethod {} "append" [.int 3]
      return first :: (← cursor.collect {})) {}).1 = .ok [.int 1, .int 2, .int 3] := by
  cbv

end ObjectModel
