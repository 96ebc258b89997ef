import ObjectModel.Proofs.Store.Hash
import ObjectModel.Proofs.Store.Nesting
import ObjectModel.Store.Keys
import Mathlib.Data.List.Lex

/-!
# Values without a hash

A value has a hash unless it is of one of six kinds, or a tuple with such a value inside. Nested
tuples are walked by paths of positions. In lexicographic order the paths enter each item of a tuple
before the next one, so the first path that leads to a value of such a kind tells which value is to
blame. Nothing but tuples is looked into: a frozenset has a hash, whatever its elements are.
-/

namespace ObjectModel

/-- The kinds of values that have no hash: what can change, the bounds of a subscript, and records
of the host. -/
def Kind.unhashable : List Kind :=
  [.bytearray, .list, .set, .dict, .slice, .hostObject]

/-- The first item that fails is what a whole list of items fails on. -/
theorem mapM_eq_error_iff {α β ε : Type} {f : α → Except ε β} {items : List α} {fault : ε} :
    items.mapM f = .error fault ↔ ∃ before item after, items = before ++ item :: after ∧
      (∀ earlier ∈ before, ∃ result, f earlier = .ok result) ∧ f item = .error fault := by
  constructor
  · intro fails
    induction items with
    | nil => cases fails
    | cons item items induction =>
        rw [List.mapM_cons, bind_eq_error_iff] at fails
        rcases fails with fails | ⟨result, succeeds, fails⟩
        · exact ⟨[], item, items, rfl, nofun, fails⟩
        · rcases bind_eq_error_iff.mp fails with fails | ⟨results, -, fails⟩
          · obtain ⟨before, failing, after, rfl, succeed, fails⟩ := induction fails
            exact ⟨item :: before, failing, after, rfl,
              List.forall_mem_cons.mpr ⟨⟨result, succeeds⟩, succeed⟩, fails⟩
          · cases fails
  · rintro ⟨before, item, after, rfl, succeed, fails⟩
    induction before with
    | nil =>
        rw [List.nil_append, List.mapM_cons, bind_eq_error_iff]
        exact .inl fails
    | cons earlier before induction =>
        rw [List.forall_mem_cons] at succeed
        obtain ⟨⟨result, succeeds⟩, succeed⟩ := succeed
        rw [List.cons_append, List.mapM_cons, bind_eq_error_iff]
        exact .inr ⟨result, succeeds, bind_eq_error_iff.mpr (.inl (induction succeed))⟩

namespace Store

open Value

/-- The value that a path leads to: each number is the position of an item in the tuple before. -/
def inside? (store : Store) (value : Value) : List Nat → Option Value
  | [] => some value
  | place :: path => (store.tupleItems value)[place]?.bind fun item => store.inside? item path

/-- A path inside nested tuples is the first one that leads to a value of a kind without hashes. -/
structure FirstUnhashable (store : Store) (value : Value) (path : List Nat) (inner : Value) :
    Prop where
  found : store.inside? value path = some inner
  unhashable : inner.kind ∈ Kind.unhashable
  first : ∀ earlier < path, ∀ other, store.inside? value earlier = some other →
    other.kind ∉ Kind.unhashable

/-- A value cannot be a key, and the first value inside that is to blame for it has the kind. -/
def Refuses (store : Store) (value : Value) (kind : Kind) : Prop :=
  ∃ path inner, store.FirstUnhashable value path inner ∧ inner.kind = kind

/-- The first of some values that cannot be a key is refused for the kind. -/
def RefusesOneOf (store : Store) (values : List Value) (kind : Kind) : Prop :=
  ∃ before value after, values = before ++ value :: after ∧
    (∀ earlier ∈ before, ∀ other, ¬ store.Refuses earlier other) ∧ store.Refuses value kind

variable {store : Store} {value inner : Value} {kind : Kind} {fault : Fault} {depth : Nat}

theorem inside?_cons_eq_some_iff {place : Nat} {path : List Nat} :
    store.inside? value (place :: path) = some inner ↔
      ∃ item, (store.tupleItems value)[place]? = some item ∧
        store.inside? item path = some inner :=
  Option.bind_eq_some_iff

/-- What is inside nested tuples is what a path leads to. -/
theorem reaches_tupleItems_iff :
    Reaches store.tupleItems value inner ↔ ∃ path, store.inside? value path = some inner := by
  constructor
  · intro reaches
    induction reaches using Relation.ReflTransGen.head_induction_on with
    | refl => exact ⟨[], rfl⟩
    | head member _ induction =>
        obtain ⟨place, at_place⟩ := List.mem_iff_getElem?.mp member
        obtain ⟨path, found⟩ := induction
        exact ⟨place :: path, inside?_cons_eq_some_iff.mpr ⟨_, at_place, found⟩⟩
  · rintro ⟨path, found⟩
    induction path generalizing value with
    | nil => exact Option.some.inj found ▸ .refl
    | cons place path induction =>
        obtain ⟨item, at_place, found⟩ := inside?_cons_eq_some_iff.mp found
        exact .head (List.mem_of_getElem? at_place) (induction found)

/-- No value inside a value with a hash is of a kind without hashes. -/
theorem kind_notMem_unhashable_of_hashWithin {hash : UInt64} {path : List Nat}
    (hashes : store.hashWithin depth value = .ok hash)
    (leads : store.inside? value path = some inner) : inner.kind ∉ Kind.unhashable := by
  induction path generalizing depth value hash with
  | nil =>
      obtain rfl := Option.some.inj leads
      cases depth with
      | zero => cases hashes
      | succ depth =>
          cases value with
          | bytearray | list | set | dict | slice | hostObject => cases hashes
          | _ => simp [kind, Kind.unhashable]
  | cons place path induction =>
      obtain ⟨item, at_place, item_leads⟩ := inside?_cons_eq_some_iff.mp leads
      cases value with
      | tuple ref =>
          cases depth with
          | zero => cases hashes
          | succ depth =>
              rw [hashWithin, bind_eq_ok_iff] at hashes
              obtain ⟨words, items_hash, -⟩ := hashes
              obtain ⟨word, item_hashes⟩ := exists_mapM_eq_ok_iff.mp ⟨words, items_hash⟩ item
                (List.mem_of_getElem? at_place)
              exact induction item_hashes item_leads
      | _ => simp [tupleItems] at at_place

/-- The value to blame in a tuple is the one to blame in its first item without a hash. -/
theorem FirstUnhashable.of_item {ref : Ref} {before after : List Value} {item : Value}
    {path : List Nat} (items : store.tuple ref = before ++ item :: after)
    (hashable : ∀ earlier ∈ before, ∃ hash, store.hashWithin depth earlier = .ok hash)
    (blames : store.FirstUnhashable item path inner) :
    store.FirstUnhashable (.tuple ref) (before.length :: path) inner where
  found := inside?_cons_eq_some_iff.mpr ⟨item, by simp [tupleItems, items], blames.found⟩
  unhashable := blames.unhashable
  first earlier lt other leads := by
    cases earlier with
    | nil =>
        obtain rfl := Option.some.inj leads
        simp [kind, Kind.unhashable]
    | cons place further =>
        obtain ⟨other_item, at_place, item_leads⟩ := inside?_cons_eq_some_iff.mp leads
        rw [tupleItems, items] at at_place
        rcases List.cons_lt_cons_iff.mp lt with earlier_item | ⟨rfl, further_lt⟩
        · rw [List.getElem?_append_left earlier_item] at at_place
          obtain ⟨hash, hashes⟩ := hashable other_item (List.mem_of_getElem? at_place)
          exact kind_notMem_unhashable_of_hashWithin hashes item_leads
        · obtain rfl : item = other_item := by simpa using at_place
          exact blames.first further further_lt other item_leads

theorem refuses_self (unhashable : value.kind ∈ Kind.unhashable) :
    store.Refuses value value.kind :=
  ⟨[], value, ⟨rfl, unhashable, fun _ lt => absurd lt (List.not_lt_nil _)⟩, rfl⟩

/-- A value without a hash is refused, if its tuples nest to less than the given depth. -/
theorem exists_refuses_of_hashWithin (nests : nestsWithin store.tupleItems depth value)
    (fails : store.hashWithin depth value = .error fault) :
    ∃ kind, store.Refuses value kind ∧ fault = .unhashable kind := by
  induction depth generalizing value with
  | zero => contradiction
  | succ depth induction =>
      cases value with
      | tuple ref =>
          rw [hashWithin, bind_eq_error_iff] at fails
          rcases fails with fails | ⟨words, -, fails⟩
          · obtain ⟨before, item, after, items, hashable, fails⟩ := mapM_eq_error_iff.mp fails
            have member : item ∈ store.tuple ref := by simp [items]
            obtain ⟨kind, ⟨path, inner, blames, is_kind⟩, rfl⟩ :=
              induction (nestsWithin_succ_iff.mp nests item member) fails
            exact ⟨kind, ⟨_, inner, blames.of_item items hashable, is_kind⟩, rfl⟩
          · cases fails
      | bytearray | list | set | dict | slice | hostObject =>
          exact ⟨_, refuses_self (by simp [kind, Kind.unhashable]), (Except.error.inj fails).symm⟩
      | _ => cases fails

theorem FirstUnhashable.inner_eq {path other : List Nat} {found : Value}
    (blames : store.FirstUnhashable value path inner)
    (blames_other : store.FirstUnhashable value other found) : inner = found := by
  rcases lt_trichotomy path other with lt | rfl | lt
  · exact absurd blames.unhashable (blames_other.first path lt inner blames.found)
  · exact Option.some.inj (blames.found.symm.trans blames_other.found)
  · exact absurd blames_other.unhashable (blames.first other lt found blames_other.found)

/-- At most one kind is to blame. -/
theorem Refuses.kind_eq {other : Kind} (refuses : store.Refuses value kind)
    (refuses_other : store.Refuses value other) : kind = other := by
  obtain ⟨path, inner, blames, rfl⟩ := refuses
  obtain ⟨other_path, found, blames_other, rfl⟩ := refuses_other
  rw [blames.inner_eq blames_other]

theorem Refuses.hash_ne_ok (refuses : store.Refuses value kind) (hash : UInt64) :
    store.hash value ≠ .ok hash := by
  obtain ⟨path, inner, blames, -⟩ := refuses
  exact fun hashes => kind_notMem_unhashable_of_hashWithin hashes blames.found blames.unhashable

section Acyclic

variable (acyclic : Acyclic store.tupleItems value)

include acyclic

/-- The fault of a value without a hash names the kind of the first value that is to blame. -/
theorem hash_eq_error_iff :
    store.hash value = .error fault ↔
      ∃ kind, store.Refuses value kind ∧ fault = .unhashable kind := by
  have refused {fault : Fault} (fails : store.hash value = .error fault) :
      ∃ kind, store.Refuses value kind ∧ fault = .unhashable kind :=
    exists_refuses_of_hashWithin (nestsWithin_depth_of_tupleItems acyclic) fails
  refine ⟨refused, ?_⟩
  rintro ⟨kind, refuses, rfl⟩
  cases hashes : store.hash value with
  | ok hash => exact absurd hashes (refuses.hash_ne_ok hash)
  | error fault =>
      obtain ⟨other, refuses_other, rfl⟩ := refused hashes
      rw [refuses.kind_eq refuses_other]

/-- A value cannot be a key if and only if it is of a kind without hashes, or a tuple that has such
a value inside. -/
theorem exists_hash_error_iff :
    (∃ fault, store.hash value = .error fault) ↔
      ∃ inner, Reaches store.tupleItems value inner ∧ inner.kind ∈ Kind.unhashable := by
  constructor
  · rintro ⟨fault, fails⟩
    obtain ⟨kind, ⟨path, inner, blames, -⟩, -⟩ := (hash_eq_error_iff acyclic).mp fails
    exact ⟨inner, reaches_tupleItems_iff.mpr ⟨path, blames.found⟩, blames.unhashable⟩
  · rintro ⟨inner, reaches, unhashable⟩
    obtain ⟨path, found⟩ := reaches_tupleItems_iff.mp reaches
    cases hashes : store.hash value with
    | ok hash => exact absurd unhashable (kind_notMem_unhashable_of_hashWithin hashes found)
    | error fault => exact ⟨fault, rfl⟩

end Acyclic

/-! ## Several keys -/

/-- Hashing values one by one fails on the first one that cannot be a key. -/
theorem mapM_hash_eq_error_iff {values : List Value}
    (acyclic : ∀ value ∈ values, Acyclic store.tupleItems value) :
    values.mapM store.hash = .error fault ↔
      ∃ kind, store.RefusesOneOf values kind ∧ fault = .unhashable kind := by
  have hashable_iff : ∀ value ∈ values,
      (∃ hash, store.hash value = .ok hash) ↔ ∀ kind, ¬ store.Refuses value kind := by
    intro value member
    cases hashes : store.hash value with
    | ok hash => exact iff_of_true ⟨hash, rfl⟩ fun kind refuses => refuses.hash_ne_ok hash hashes
    | error fault =>
        obtain ⟨kind, refuses, -⟩ := (hash_eq_error_iff (acyclic value member)).mp hashes
        exact iff_of_false nofun fun hashable => hashable kind refuses
  rw [mapM_eq_error_iff]
  constructor
  · rintro ⟨before, value, after, rfl, hashable, fails⟩
    obtain ⟨kind, refuses, rfl⟩ := (hash_eq_error_iff (acyclic value (by simp))).mp fails
    exact ⟨kind, ⟨before, value, after, rfl, fun earlier member =>
      (hashable_iff earlier (List.mem_append_left _ member)).mp (hashable earlier member),
      refuses⟩, rfl⟩
  · rintro ⟨kind, ⟨before, value, after, rfl, hashable, refuses⟩, rfl⟩
    exact ⟨before, value, after, rfl, fun earlier member =>
      (hashable_iff earlier (List.mem_append_left _ member)).mpr (hashable earlier member),
      (hash_eq_error_iff (acyclic value (by simp))).mpr ⟨kind, refuses, rfl⟩⟩

theorem insertKey_eq_error_iff {table : Table Value Value} {key : Value} :
    store.insertKey table key value = .error fault ↔ store.hash key = .error fault := by
  rw [insertKey, bind_pure_eq_error_iff]

/-- Keys are put into a table until one has no hash, whatever the table holds. -/
theorem insertPairs_eq_error_iff {pairs : List (Value × Value)} {table : Table Value Value} :
    pairs.foldlM (fun table pair => store.insertKey table pair.1 pair.2) table = .error fault ↔
      (pairs.map (·.1)).mapM store.hash = .error fault := by
  induction pairs generalizing table with
  | nil => exact iff_of_false nofun nofun
  | cons pair pairs induction =>
      rw [List.foldlM_cons, bind_eq_error_iff, insertKey_eq_error_iff, List.map_cons,
        List.mapM_cons, bind_eq_error_iff]
      refine or_congr Iff.rfl ?_
      simp only [insertKey_eq_ok, induction, bind_eq_error_iff, pure, Except.pure, reduceCtorEq,
        and_false, exists_false, or_false]
      constructor
      · rintro ⟨_, ⟨hash, hashes, -⟩, fails⟩
        exact ⟨hash, hashes, fails⟩
      · rintro ⟨hash, hashes, fails⟩
        exact ⟨_, ⟨hash, hashes, rfl⟩, fails⟩

end Store
end ObjectModel
