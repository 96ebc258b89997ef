import ObjectModel.Proofs.Store.Hashability
import ObjectModel.Proofs.Store.Undisturbed

/-!
# Layers of mappings

Iteration gets elements out of a container, those that remain out of a cursor, and whatever its
source holds out of a mapping. A mapping has a layer more than what it goes over, and at least as
many as what its function returns. Every drainable value, from which no way down comes back to where
it was, has so many layers for some number, and then only so many elements are left in it. Neither
number grows as long as iteration is undisturbed.
-/

namespace ObjectModel

/-! ## Failures other than a given one -/

section Failures

variable {α β ε : Type} {fault : ε}

theorem bind_ne_error {first : Except ε α} {next : α → Except ε β} (proper : first ≠ .error fault)
    (rest : ∀ result, next result ≠ .error fault) : first >>= next ≠ .error fault := by
  cases first with
  | ok result => exact rest result
  | error cause => exact fun fails => proper (congrArg Except.error (Except.error.inj fails))

theorem foldlM_ne_error {f : β → α → Except ε β} {items : List α}
    (proper : ∀ state, ∀ item ∈ items, f state item ≠ .error fault) (state : β) :
    items.foldlM f state ≠ .error fault := by
  induction items generalizing state with
  | nil => exact nofun
  | cons item items induction =>
      rw [List.foldlM_cons]
      exact bind_ne_error (proper state item List.mem_cons_self) fun _ =>
        induction (fun state other member =>
          proper state other (List.mem_cons_of_mem item member)) _

end Failures

/-! ## Bounds -/

/-- Finitely many bounds have a common one. -/
theorem exists_common_bound {α : Type} {holds : Nat → α → Prop} {items : List α}
    (mono : ∀ {bound more item}, holds bound item → bound ≤ more → holds more item)
    (each : ∀ item ∈ items, ∃ bound, holds bound item) :
    ∃ bound, ∀ item ∈ items, holds bound item := by
  induction items with
  | nil => exact ⟨0, nofun⟩
  | cons item items induction =>
      rw [List.forall_mem_cons] at each
      obtain ⟨⟨first, of_first⟩, rest⟩ := each
      obtain ⟨second, of_rest⟩ := induction rest
      refine ⟨max first second, List.forall_mem_cons.mpr ⟨?_, fun other member => ?_⟩⟩
      · exact mono of_first (le_max_left first second)
      · exact mono (of_rest other member) (le_max_right first second)

/-- A value nests to some depth if its parts do. -/
theorem Value.exists_nestsWithin {parts : Value → List Value} {value : Value}
    (nest : ∀ part ∈ parts value, ∃ depth, nestsWithin parts depth part) :
    ∃ depth, nestsWithin parts depth value := by
  obtain ⟨depth, nests⟩ : ∃ depth, ∀ part ∈ parts value, nestsWithin parts depth part :=
    exists_common_bound (fun nests le => nestsWithin_of_le nests le) nest
  exact ⟨depth + 1, nestsWithin_succ_iff.mpr nests⟩

/-! ## Layers -/

theorem Pool.get_mem {α : Type} [Inhabited α] {pool : Pool α} {ref : Ref}
    (known : ref.index < pool.size) : pool.get ref ∈ pool.cells.toList := by
  rw [Pool.size] at known
  rw [Pool.get, Array.getD_eq_getD_getElem?, Array.getElem?_eq_getElem known]
  exact Array.getElem_mem_toList known

namespace Store

/-- What iteration gets out of a value: the elements of a container, those that remain for a cursor,
and the source of a mapping, with the iterator over it once there is one. -/
def links (store : Store) : Value → List Value
  | .list ref => store.list ref
  | .tuple ref => store.tuple ref
  | .set ref | .frozenset ref | .dict ref => store.elements ref
  | .map ref => (store.mappings.get ref).source :: (store.mappings.get ref).iterator.toList
  | value => store.remaining value

/-- Out of a value, iteration gets only what has been made, and nothing with more layers than the
given number. A mapping has more layers than what it goes over, and no fewer than the results of its
function, which may have as many more than the elements as the growth of the function says. -/
inductive Layered (growth : Value → Nat → Nat) (store : Store) : Nat → Value → Prop
  | plain {layers : Nat} {value : Value} (not_map : ∀ ref, value ≠ .map ref)
      (made : store.Made value)
      (inside : ∀ link ∈ store.links value, Layered growth store layers link) :
      Layered growth store layers value
  | map {layers under : Nat} {ref : Ref} (made : store.Made (.map ref)) (below : under < layers)
      (grows : growth (store.mappings.get ref).function under ≤ layers)
      (inside : ∀ link ∈ store.links (.map ref), Layered growth store under link) :
      Layered growth store layers (.map ref)

/-- Iteration gets only what has been made out of a value, and nothing out of itself. -/
structure Drainable (store : Store) (value : Value) : Prop where
  acyclic : Value.Acyclic store.links value
  made : ∀ inner, Value.Reaches store.links value inner → store.Made inner

variable {growth : Value → Nat → Nat} {store later : Store} {value source iterator : Value}
  {layers count : Nat}

theorem Layered.made (layered : store.Layered growth layers value) : store.Made value := by
  cases layered with
  | plain _ made => exact made
  | map made => exact made

theorem Layered.mono {more : Nat} (layered : store.Layered growth layers value)
    (le : layers ≤ more) : store.Layered growth more value := by
  induction layered with
  | plain not_map made inside induction =>
      exact .plain not_map made fun link member => induction link member le
  | map made below grows inside _ => exact .map made (below.trans_le le) (grows.trans le) inside

/-- What a mapping takes its elements from has fewer layers, and so do the elements, unless the
function makes them more. -/
theorem Layered.feed {ref : Ref} (layered : store.Layered growth layers (.map ref)) :
    ∃ under < layers, growth (store.mappings.get ref).function under ≤ layers ∧
      store.Layered growth under (store.feed ref) := by
  cases layered with
  | plain not_map => exact absurd rfl (not_map ref)
  | @map _ under _ made below grows inside =>
      refine ⟨under, below, grows, inside _ ?_⟩
      rw [Store.feed, links]
      cases (store.mappings.get ref).iterator with
      | none => exact List.mem_cons_self
      | some iterator => exact List.mem_cons_of_mem _ List.mem_cons_self

/-- What iteration gets out of a value that is no mapping has no more layers. -/
theorem Layered.link (layered : store.Layered growth layers value)
    (not_map : ∀ ref, value ≠ .map ref) :
    ∀ link ∈ store.links value, store.Layered growth layers link := by
  cases layered with
  | plain _ made inside => exact inside
  | map => exact absurd rfl (not_map _)

/-- A value without an object that holds anything has no layers. -/
theorem layered_of_no_links (made : store.Made value) (not_map : ∀ ref, value ≠ .map ref)
    (no_links : store.links value = []) : store.Layered growth layers value :=
  .plain not_map made fun link member => by simp [no_links] at member

theorem layered_char (c : Char) : store.Layered growth layers (.char c) :=
  layered_of_no_links rfl nofun rfl

theorem layered_byte (b : UInt8) : store.Layered growth layers (.byte b) :=
  layered_of_no_links rfl nofun rfl

theorem layered_number {value : Value} (is_number : value.number?.isSome) :
    store.Layered growth layers value := by
  cases value <;> first | exact layered_of_no_links rfl nofun rfl | contradiction

theorem Layered.item (layered : store.Layered growth layers value) :
    ∀ item ∈ store.items value, store.Layered growth layers item := by
  intro item member
  cases value with
  | list | tuple | set | frozenset | dict => exact layered.link nofun item member
  | str text =>
      obtain ⟨c, -, rfl⟩ := List.mem_map.mp member
      exact layered_char c
  | bytes | bytearray =>
      obtain ⟨b, -, rfl⟩ := List.mem_map.mp member
      exact layered_byte b
  | _ => exact absurd member List.not_mem_nil

/-! ## Drainable values -/

/-- What iteration gets out of each object. -/
def linkings (store : Store) : List (List Value) :=
  store.tuples.cells.toList ++ store.lists.cells.toList ++ store.tables.cells.toList.map (·.keys) ++
    store.mappings.cells.toList.map (fun mapping => mapping.source :: mapping.iterator.toList) ++
    store.listCursors.cells.toList.map
      (fun cursor => (store.list cursor.target).drop cursor.place) ++
    store.keyCursors.cells.toList.map
      (fun cursor => ((store.table cursor.target).ahead cursor.place).map (·.key)) ++
    store.sequenceCursors.cells.toList

theorem links_mem_linkings (made : store.Made value) (some_links : store.links value ≠ []) :
    store.links value ∈ store.linkings := by
  simp only [linkings, List.mem_append]
  have of_table : ∀ ref : Ref, ref.index < store.tables.size →
      (store.table ref).keys ∈ store.tables.cells.toList.map (·.keys) :=
    fun ref known => List.mem_map_of_mem (Pool.get_mem known)
  have of_keys : ∀ ref : Ref, ref.index < store.keyCursors.size →
      store.remaining (.setIterator ref) ∈ store.keyCursors.cells.toList.map
        (fun cursor => ((store.table cursor.target).ahead cursor.place).map (·.key)) :=
    fun ref known => List.mem_map_of_mem
      (f := fun cursor : Cursor => ((store.table cursor.target).ahead cursor.place).map (·.key))
      (Pool.get_mem known)
  cases value with
  | tuple ref => simp [links, tuple, Pool.get_mem (of_decide_eq_true made)]
  | list ref => simp [links, list, Pool.get_mem (of_decide_eq_true made)]
  | set ref | frozenset ref | dict ref =>
      exact .inl (.inl (.inl (.inl (.inr (of_table ref (of_decide_eq_true made))))))
  | map ref =>
      exact .inl (.inl (.inl (.inr (List.mem_map_of_mem
        (f := fun mapping : Mapping => mapping.source :: mapping.iterator.toList)
        (Pool.get_mem made)))))
  | listIterator ref =>
      exact .inl (.inl (.inr (List.mem_map_of_mem
        (f := fun cursor : Cursor => (store.list cursor.target).drop cursor.place)
        (Pool.get_mem made.1))))
  | setIterator ref | dictKeyIterator ref => exact .inl (.inr (of_keys ref made.1))
  | seqIterator ref => exact .inr (Pool.get_mem made)
  | _ => exact absurd rfl some_links

theorem Drainable.link (drainable : store.Drainable value) {link : Value}
    (member : link ∈ store.links value) : store.Drainable link where
  acyclic := drainable.acyclic.of_reaches (.single member)
  made inner reaches := drainable.made inner (.head member reaches)

/-- However much the functions add, a drainable value has no more layers than some number. -/
theorem Drainable.exists_layered (drainable : store.Drainable value) :
    ∃ layers, store.Layered growth layers value := by
  have nests := Value.nestsWithin_of_acyclic drainable.acyclic fun inner reaches =>
    links_mem_linkings (drainable.made inner reaches)
  generalize store.linkings.length + 1 = depth at nests
  induction depth generalizing value with
  | zero => contradiction
  | succ depth induction =>
      obtain ⟨under, inside⟩ : ∃ under, ∀ link ∈ store.links value,
          store.Layered growth under link :=
        exists_common_bound Layered.mono fun link member => induction (drainable.link member)
          (Value.nestsWithin_succ_iff.mp nests link member)
      by_cases is_map : ∃ ref, value = .map ref
      · obtain ⟨ref, rfl⟩ := is_map
        exact ⟨max (under + 1) (growth (store.mappings.get ref).function under),
          .map (drainable.made _ .refl) (Nat.lt_of_succ_le (le_max_left _ _))
            (le_max_right _ _) inside⟩
      · exact ⟨under, .plain (not_exists.mp is_map) (drainable.made value .refl) inside⟩

/-! ## Hashes -/

/-- Tuples nest to less than the depth of the store in a value with layers, so its hash is found
within that depth, or the value has none. -/
theorem Layered.hash_ne_endless (layered : store.Layered growth layers value) :
    store.hash value ≠ .error .endless := by
  have nests : ∃ depth, Value.nestsWithin store.tupleItems depth value := by
    induction layered with
    | @plain layers value not_map made inside induction =>
        refine Value.exists_nestsWithin fun item member => ?_
        cases value with
        | tuple ref => exact induction item member
        | _ => exact absurd member List.not_mem_nil
    | map => exact ⟨1, rfl⟩
  obtain ⟨depth, nests⟩ := nests
  intro endless
  obtain ⟨kind, -, unhashable⟩ :=
    (hash_eq_error_iff (Value.acyclic_of_nestsWithin nests)).mp endless
  cases unhashable

theorem tableOfPairs_ne_endless {pairs : List (Value × Value)}
    (layered : ∀ pair ∈ pairs, store.Layered growth layers pair.1) :
    store.tableOfPairs pairs ≠ .error .endless := by
  have inserts : ∀ table, ∀ pair ∈ pairs,
      store.insertKey table pair.1 pair.2 ≠ .error .endless :=
    fun table pair member =>
      bind_ne_error (layered pair member).hash_ne_endless fun hash => nofun
  exact foldlM_ne_error inserts ∅

theorem tableOfElements_ne_endless {elements : List Value}
    (layered : ∀ element ∈ elements, store.Layered growth layers element) :
    store.tableOfElements elements ≠ .error .endless := by
  rw [tableOfElements_eq]
  have pairs_layered : ∀ pair ∈ elements.map fun element => (element, element),
      store.Layered growth layers pair.1 := by
    intro pair member
    obtain ⟨element, is_element, rfl⟩ := List.mem_map.mp member
    exact layered element is_element
  exact tableOfPairs_ne_endless pairs_layered

/-! ## Undisturbed iteration -/

theorem not_map_of_isCursor (is_cursor : value.isCursor) : ∀ ref, value ≠ .map ref := by
  rintro ref rfl
  contradiction

theorem links_of_isCursor (is_cursor : value.isCursor) :
    store.links value = store.remaining value := by
  cases value <;> first | rfl | contradiction

theorem Undisturbed.links_subset (undisturbed : store.Undisturbed later)
    (made : store.Made value) (not_map : ∀ ref, value ≠ .map ref) :
    later.links value ⊆ store.links value := by
  by_cases is_cursor : value.isCursor
  · rw [links_of_isCursor is_cursor, links_of_isCursor is_cursor]
    exact (undisturbed.remaining_suffix made is_cursor).subset
  · have same_items := undisturbed.items_eq made.knows
    cases value with
    | list | tuple | set | frozenset | dict =>
        exact fun link member => (congrArg (link ∈ ·) same_items).mp member
    | map ref => exact absurd rfl (not_map ref)
    | listIterator | setIterator | dictKeyIterator | seqIterator => exact absurd rfl is_cursor
    | _ => exact List.Subset.refl _

theorem Layered.of_iteratesOver (layered : store.Layered growth layers source)
    (goes_over : store.IteratesOver source iterator) : store.Layered growth layers iterator := by
  rw [IteratesOver] at goes_over
  split at goes_over
  · rwa [goes_over]
  · obtain ⟨is_cursor, made, suffix⟩ := goes_over
    refine .plain (not_map_of_isCursor is_cursor) made fun item member => ?_
    rw [links_of_isCursor is_cursor] at member
    exact layered.item item (suffix.subset member)

theorem Layered.kept (layered : store.Layered growth layers value)
    (undisturbed : store.Undisturbed later) : later.Layered growth layers value := by
  induction layered with
  | plain not_map made inside induction =>
      exact .plain not_map (made.kept undisturbed) fun link member =>
        induction link (undisturbed.links_subset made not_map member)
  | @map layers under ref made below grows inside induction =>
      have moved := undisturbed.advances.mappings.get ref made
      have source_layered : later.Layered growth under (store.mappings.get ref).source :=
        induction _ List.mem_cons_self
      refine .map (made.kept undisturbed) below (moved.function_eq ▸ grows) fun link member => ?_
      rw [links, moved.source_eq] at member
      rcases List.mem_cons.mp member with rfl | holds
      · exact source_layered
      · have held := Option.mem_toList.mp holds
        cases earlier : (store.mappings.get ref).iterator with
        | none =>
            exact source_layered.of_iteratesOver (undisturbed.opened ref link made
              (inside _ List.mem_cons_self).made.knows earlier held)
        | some iterator =>
            have same := undisturbed.advances.iterator_eq earlier
            obtain rfl := Option.some.inj (same.symm.trans held)
            exact induction _ (List.mem_cons_of_mem _ (by simp [earlier]))

/-! ## What is left at most -/

/-- At most the given number of elements are left in a value: of those that remain for a cursor, of
the items of a container, and for a mapping of what it takes its elements from. -/
inductive AtMost (store : Store) (count : Nat) : Value → Prop
  | cursor {cursor : Value} (is_cursor : cursor.isCursor)
      (le : (store.remaining cursor).length ≤ count) : AtMost store count cursor
  | container {source : Value} (not_iterator : source.isIterator = false)
      (le : (store.items source).length ≤ count) : AtMost store count source
  | map {ref : Ref} (rest : AtMost store count (store.feed ref)) : AtMost store count (.map ref)

theorem AtMost.feed {ref : Ref} (at_most : store.AtMost count (.map ref)) :
    store.AtMost count (store.feed ref) := by
  cases at_most with
  | map rest => exact rest
  | cursor | container => contradiction

theorem AtMost.of_iteratesOver (at_most : store.AtMost count source)
    (goes_over : store.IteratesOver source iterator) : store.AtMost count iterator := by
  rw [IteratesOver] at goes_over
  split at goes_over
  · rwa [goes_over]
  · rename_i not_iterator
    obtain ⟨is_cursor, -, suffix⟩ := goes_over
    cases at_most with
    | cursor is_cursor => exact absurd (Value.isIterator_of_isCursor is_cursor) not_iterator
    | container _ le => exact .cursor is_cursor (suffix.length_le.trans le)
    | map => exact absurd rfl not_iterator

theorem AtMost.kept (at_most : store.AtMost count value)
    (layered : store.Layered growth layers value) (undisturbed : store.Undisturbed later) :
    later.AtMost count value := by
  induction at_most generalizing layers with
  | cursor is_cursor le =>
      exact .cursor is_cursor
        ((undisturbed.remaining_suffix layered.made is_cursor).length_le.trans le)
  | container not_iterator le =>
      refine .container not_iterator ?_
      rwa [undisturbed.items_eq layered.made.knows]
  | @map ref rest induction =>
      have known : ref.index < store.mappings.size := layered.made
      obtain ⟨under, -, -, feed_layered⟩ := layered.feed
      have feed_at_most := induction feed_layered
      have moved := undisturbed.advances.mappings.get ref known
      refine .map ?_
      cases earlier : (store.mappings.get ref).iterator with
      | some iterator =>
          rw [Store.feed, earlier] at feed_at_most
          rwa [Store.feed, undisturbed.advances.iterator_eq earlier]
      | none =>
          rw [Store.feed, earlier, Option.getD_none] at feed_at_most feed_layered
          rw [Store.feed, moved.source_eq]
          cases held : (later.mappings.get ref).iterator with
          | none => exact feed_at_most
          | some iterator =>
              exact feed_at_most.of_iteratesOver
                (undisturbed.opened ref iterator known feed_layered.made.knows earlier held)

/-- Only so many elements are left in a value with layers. -/
theorem Layered.exists_atMost (layered : store.Layered growth layers value) :
    ∃ count, store.AtMost count value := by
  induction layers using Nat.strong_induction_on generalizing value with
  | _ layers induction =>
      cases is_iterator : value.isIterator with
      | false => exact ⟨_, .container is_iterator le_rfl⟩
      | true =>
          obtain is_cursor | ⟨ref, rfl⟩ := Value.isCursor_or_map is_iterator
          · exact ⟨_, .cursor is_cursor le_rfl⟩
          · obtain ⟨under, below, -, feed_layered⟩ := layered.feed
            obtain ⟨count, at_most⟩ := induction under below feed_layered
            exact ⟨count, .map at_most⟩

end Store
end ObjectModel
