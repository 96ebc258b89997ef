import ObjectModel.Proofs.Store.Coherence
import ObjectModel.Proofs.Store.Nesting
import ObjectModel.Proofs.Store.ValueEquality

/-!
# Equality of copies

A value without a NaN is equal to itself, and to every copy of it: a value of the same structure
whose containers and sequences are other objects with copies inside, in any order where order does
not count. Iterators have no copies but themselves.

For a set this needs that a copy of a key has the hash of the key, so that it is found; that is
proved first. The main statement collects what equality is: symmetric, transitive, and true of
copies.
-/

namespace ObjectModel

/-- Whether the value is a number and a part of it is not. -/
def Value.isNaN (value : Value) : Bool :=
  value.number?.any Number.isNaN

/-- Nothing inside a value is a NaN. -/
def Value.FreeOfNaN (parts : Value → List Value) (value : Value) : Prop :=
  ∀ inner, Value.Reaches parts value inner → inner.isNaN = false

theorem Value.FreeOfNaN.of_mem {parts : Value → List Value} {value part : Value}
    (free : FreeOfNaN parts value) (member : part ∈ parts value) : FreeOfNaN parts part :=
  fun inner reaches => free inner (.head member reaches)

namespace Store

open Value

/-- A value of the same structure as another one, with the same scalars and iterators, whose
containers and sequences may be other objects. -/
inductive Copies (store : Store) : Value → Value → Prop
  | shared (value : Value) : Copies store value value
  | bytearray {a b : Ref} (same : store.buffer a = store.buffer b) :
      Copies store (.bytearray a) (.bytearray b)
  | tuple {a b : Ref} (items : List.Forall₂ (Copies store) (store.tuple a) (store.tuple b)) :
      Copies store (.tuple a) (.tuple b)
  | list {a b : Ref} (items : List.Forall₂ (Copies store) (store.list a) (store.list b)) :
      Copies store (.list a) (.list b)
  | set {a b : Ref} {arranged : List (Entry Value Value)}
      (order : arranged.Perm (store.table b).entries)
      (keys : List.Forall₂ (fun x y => Copies store x.key y.key) (store.table a).entries arranged) :
      Copies store (.set a) (.set b)
  | frozenset {a b : Ref} {arranged : List (Entry Value Value)}
      (order : arranged.Perm (store.table b).entries)
      (keys : List.Forall₂ (fun x y => Copies store x.key y.key) (store.table a).entries arranged) :
      Copies store (.frozenset a) (.frozenset b)
  | dict {a b : Ref} {arranged : List (Entry Value Value)}
      (order : arranged.Perm (store.table b).entries)
      (keys : List.Forall₂ (fun x y => Copies store x.key y.key) (store.table a).entries arranged)
      (values : List.Forall₂ (fun x y => Copies store x.value y.value) (store.table a).entries
        arranged) : Copies store (.dict a) (.dict b)
  | hostObject {a b : Ref}
      (names : List.Forall₂ (fun x y => x.1 = y.1) (store.record a) (store.record b))
      (values : List.Forall₂ (fun x y => Copies store x.2 y.2) (store.record a) (store.record b)) :
      Copies store (.hostObject a) (.hostObject b)

variable {store : Store} {value copy : Value} {depth limit : Nat} {mode : Equality}

/-! ## Values themselves -/

theorem corresponds_self {equal : Equality → Value → Value → Bool} (valid : value.isNaN = false)
    (items : ∀ item ∈ store.tupleItems value, equal mode item item) :
    store.Corresponds equal mode (store.shape value) (store.shape value) := by
  have number {kind : Kind} {number : Number} (is_number : value.number? = some number) :
      store.Corresponds equal mode (.number kind number) (.number kind number) := by
    rw [Value.isNaN, is_number] at valid
    exact .number (fun _ => rfl) (Number.equals_self valid)
  cases value with
  | bool b => exact number rfl
  | int n => exact number rfl
  | float x => exact number rfl
  | complex re im => exact number rfl
  | bytes bytes => exact .bytes (fun _ => rfl) bytes
  | bytearray ref => exact .bytes (fun _ => rfl) (store.buffer ref)
  | tuple ref => exact .tuple (List.forall₂_same.mpr items)
  | set ref => exact .set (by rw [sameElements, beq_self_eq_true, Bool.true_or])
  | frozenset ref => exact .set (by rw [sameElements, beq_self_eq_true, Bool.true_or])
  | dict ref => exact .dict (by rw [sameEntries, beq_self_eq_true, Bool.true_or])
  | _ => exact .same rfl

/-- A value is equal to itself unless it is a NaN or a tuple with one. -/
theorem equalWithin_self (nests : nestsWithin store.tupleItems depth value)
    (free : FreeOfNaN store.tupleItems value) (le : depth ≤ limit) :
    store.equalWithin limit mode value value := by
  induction depth generalizing value limit mode with
  | zero => contradiction
  | succ depth induction =>
      obtain ⟨limit, rfl⟩ := Nat.exists_eq_add_one_of_ne_zero (Nat.ne_zero_of_lt le)
      rw [equalWithin_succ_iff_corresponds]
      apply corresponds_self (free value .refl)
      intro item member
      exact induction (nestsWithin_succ_iff.mp nests item member) (free.of_mem member)
        (Nat.le_of_succ_le_succ le)

/-! ## Hashes of copies -/

/-- A copy of a key is a key with the same hash. -/
theorem hashWithin_of_copies (sound : store.Sound) (nests : nestsWithin store.contents depth value)
    (copies : store.Copies value copy) {hash : UInt64}
    (hashes : store.hashWithin limit value = .ok hash) :
    store.hashWithin limit copy = .ok hash := by
  induction depth generalizing value copy limit hash with
  | zero => contradiction
  | succ depth induction =>
      rw [nestsWithin_succ_iff] at nests
      cases limit with
      | zero => contradiction
      | succ limit =>
          cases copies with
          | shared => exact hashes
          | bytearray same => contradiction
          | tuple items =>
              rw [hashWithin, bind_eq_ok_iff] at hashes ⊢
              obtain ⟨words, item_hashes, same⟩ := hashes
              refine ⟨words, ?_, same⟩
              rw [mapM_eq_ok_iff] at item_hashes ⊢
              apply forall₂_trans_of_mem items.flip item_hashes
              intro item_copy _ item member _ _ item_copies item_hash
              exact induction (nests item member) item_copies item_hash
          | list items => contradiction
          | set order keys => contradiction
          | @frozenset a b arranged order keys =>
              have same_hashes : List.Forall₂ (fun entry found => entry.hash = found.hash)
                  (store.table a).entries arranged := by
                apply forall₂_imp_of_mem keys
                intro entry member found found_member key_copies
                have entry_nests := nests entry.key (key_mem_tableContents member)
                have entry_hashes := (sound.keyed a).hash_eq entry member
                have found_hashes :=
                  (sound.keyed b).hash_eq found (order.mem_iff.mp found_member)
                have copy_hashes := induction entry_nests key_copies entry_hashes
                exact Except.ok.inj (copy_hashes.symm.trans found_hashes)
              rw [hashWithin, ← Table.digest_eq_of_perm order same_hashes]
              exact hashes
          | dict order keys values => contradiction
          | hostObject names values => contradiction

/-! ## Equality of copies -/

section Tables

variable {a b : Ref} {arranged : List (Entry Value Value)}

theorem finds_of_copies (sound : store.Sound) (le : limit ≤ store.depth)
    (order : arranged.Perm (store.table b).entries) {entry found : Entry Value Value}
    (member : entry ∈ (store.table a).entries) (found_member : found ∈ arranged)
    (nests : nestsWithin store.contents depth entry.key)
    (copies : store.Copies entry.key found.key)
    (equal : store.equalWithin limit .loose entry.key found.key) :
    Finds (store.equalWithin limit .loose) entry found := by
  have entry_hashes := (sound.keyed a).hash_eq entry member
  have found_hashes := (sound.keyed b).hash_eq found (order.mem_iff.mp found_member)
  have copy_hashes := hashWithin_of_copies sound nests copies entry_hashes
  have same_hash : found.hash = entry.hash :=
    Except.ok.inj (found_hashes.symm.trans copy_hashes)
  exact ⟨same_hash, (partialEquivalence_equalWithin sound le).symm equal⟩

theorem sameElements_of_copies (sound : store.Sound) (le : limit ≤ store.depth)
    (order : arranged.Perm (store.table b).entries)
    (keys : List.Forall₂ (fun x y => store.Copies x.key y.key) (store.table a).entries arranged)
    (nests : ∀ key ∈ store.elements a, nestsWithin store.contents depth key)
    (equal : ∀ key ∈ store.elements a, ∀ other, store.Copies key other →
      store.equalWithin limit .loose key other) :
    store.sameElements (store.equalWithin limit .loose) a b := by
  refine (sameElements_iff sound).mpr (.inr ⟨keys.length_eq.trans order.length_eq, ?_⟩)
  intro entry member
  obtain ⟨found, found_member, key_copies⟩ := exists_right_of_mem keys member
  have key_member : entry.key ∈ store.elements a := List.mem_map_of_mem member
  exact ⟨found, order.mem_iff.mp found_member,
    finds_of_copies sound le order member found_member (nests entry.key key_member) key_copies
      (equal entry.key key_member found.key key_copies)⟩

theorem sameEntries_of_copies (sound : store.Sound) (le : limit ≤ store.depth)
    (order : arranged.Perm (store.table b).entries)
    (keys : List.Forall₂ (fun x y => store.Copies x.key y.key) (store.table a).entries arranged)
    (values : List.Forall₂ (fun x y => store.Copies x.value y.value) (store.table a).entries
      arranged)
    (nests : ∀ part ∈ tableContents (store.table a), nestsWithin store.contents depth part)
    (equal : ∀ part ∈ tableContents (store.table a), ∀ other, store.Copies part other →
      store.equalWithin limit .loose part other) :
    store.sameEntries (store.equalWithin limit .loose) a b := by
  have relation := keyRelation_equalWithin sound le
  refine (sameEntries_iff sound relation).mpr (.inr ⟨keys.length_eq.trans order.length_eq, ?_⟩)
  intro entry member
  have pairs := List.Forall₂.mp (fun _ _ => And.intro) keys values
  obtain ⟨found, found_member, key_copies, value_copies⟩ := exists_right_of_mem pairs member
  have key_member := key_mem_tableContents member
  exact ⟨found, order.mem_iff.mp found_member,
    finds_of_copies sound le order member found_member (nests entry.key key_member) key_copies
      (equal entry.key key_member found.key key_copies),
    equal entry.value (value_mem_tableContents member) found.value value_copies⟩

end Tables

/-- A value without a NaN is equal to its copies. -/
theorem equalWithin_of_copies (sound : store.Sound) (le_depth : limit ≤ store.depth)
    (nests : nestsWithin store.contents depth value) (free : FreeOfNaN store.members value)
    (copies : store.Copies value copy) (le : depth ≤ limit) :
    store.equalWithin limit mode value copy := by
  induction depth generalizing value copy limit mode with
  | zero => contradiction
  | succ depth induction =>
      obtain ⟨limit, rfl⟩ := Nat.exists_eq_add_one_of_ne_zero (Nat.ne_zero_of_lt le)
      have le_depth := Nat.le_of_succ_le le_depth
      have le := Nat.le_of_succ_le_succ le
      have parts_nest : ∀ part ∈ store.members value, nestsWithin store.contents depth part :=
        fun part member => nestsWithin_succ_iff.mp nests part (store.members_subset value member)
      have of_part : ∀ part ∈ store.members value, ∀ other, store.Copies part other → ∀ mode,
          store.equalWithin limit mode part other :=
        fun part member other part_copies mode =>
          induction le_depth (parts_nest part member) (free.of_mem member) part_copies le
      rw [equalWithin_succ_iff_corresponds]
      cases copies with
      | shared =>
          apply corresponds_self (free value .refl)
          intro item member
          exact of_part item (store.tupleItems_subset value member) item (.shared item) mode
      | bytearray same =>
          rw [shape, shape, same]
          exact .bytes (fun _ => rfl) _
      | tuple items =>
          refine .tuple (forall₂_imp_of_mem items ?_)
          exact fun item member other _ item_copies => of_part item member other item_copies mode
      | list items =>
          refine .list (forall₂_imp_of_mem items ?_)
          exact fun item member other _ item_copies => of_part item member other item_copies .strict
      | set order keys =>
          refine .set (sameElements_of_copies sound le_depth order keys parts_nest ?_)
          exact fun part member other part_copies => of_part part member other part_copies .loose
      | frozenset order keys =>
          refine .set (sameElements_of_copies sound le_depth order keys parts_nest ?_)
          exact fun part member other part_copies => of_part part member other part_copies .loose
      | dict order keys values =>
          refine .dict (sameEntries_of_copies sound le_depth order keys values parts_nest ?_)
          exact fun part member other part_copies => of_part part member other part_copies .loose
      | hostObject names values =>
          refine .record (List.Forall₂.mp (fun _ _ => And.intro) names ?_)
          apply forall₂_imp_of_mem values
          intro field member other _ value_copies
          exact of_part field.2 (List.mem_map_of_mem member) other.2 value_copies .strict

/-- What loose equality is among the values of a store. -/
structure LawfulEquality (store : Store) : Prop where
  /-- Equality is symmetric. -/
  symm : ∀ a b, store.equals a b → store.equals b a
  /-- Equality is transitive. -/
  trans : ∀ a b c, store.equals a b → store.equals b c → store.equals a c
  /-- A value without a NaN is equal to itself, also one that is inside itself, as long as that is
  not by tuples alone. -/
  self : ∀ a, Acyclic store.tupleItems a → FreeOfNaN store.members a → store.equals a a
  /-- An acyclic value without a NaN is equal to its copies. -/
  copies : ∀ a b, Acyclic store.contents a → FreeOfNaN store.members a → store.Copies a b →
    store.equals a b

/-- In a store of tables with stable keys equality is a partial equivalence among all values, and
relates every value without a NaN to its copies. -/
theorem lawfulEquality_of_sound (sound : store.Sound) : store.LawfulEquality := by
  have values := partialEquivalence_equalWithin sound (Nat.le_refl store.depth)
  refine
    { symm := fun _ _ => values.symm
      trans := fun _ _ _ => values.trans
      self := ?_
      copies := ?_ }
  · intro a acyclic free
    have free_of_tuples : FreeOfNaN store.tupleItems a := by
      intro inner reaches
      apply free inner
      exact Relation.ReflTransGen.mono
        (fun outer _ member => store.tupleItems_subset outer member) _ _ reaches
    exact equalWithin_self (nestsWithin_depth_of_tupleItems acyclic) free_of_tuples le_rfl
  · intro a b acyclic free copies
    exact equalWithin_of_copies sound le_rfl (nestsWithin_depth acyclic) free copies le_rfl

/-- Two maps that share no object: each leads from 3 to a list of a number and a tuple of a byte
array and a set, and the sets are in different orders. -/
def nested : Store where
  buffers := ⟨#[[7], [7]]⟩
  tuples := ⟨#[[.bytearray ⟨0⟩, .frozenset ⟨0⟩], [.bytearray ⟨1⟩, .frozenset ⟨1⟩]]⟩
  lists := ⟨#[[.tuple ⟨0⟩, .float ⟨0x3ff8000000000000⟩], [.tuple ⟨1⟩, .float ⟨0x3ff8000000000000⟩]]⟩
  tables := ⟨#[
    ((∅ : Table Value Value).push ⟨hashOfInt 1, .int 1, .int 1⟩).push ⟨hashOfInt 2, .int 2, .int 2⟩,
    ((∅ : Table Value Value).push ⟨hashOfInt 2, .int 2, .int 2⟩).push ⟨hashOfInt 1, .int 1, .int 1⟩,
    (∅ : Table Value Value).push ⟨hashOfInt 3, .int 3, .list ⟨0⟩⟩,
    (∅ : Table Value Value).push ⟨hashOfInt 3, .int 3, .list ⟨1⟩⟩]⟩

theorem sound_nested : nested.Sound := by
  rintro ⟨index⟩
  match index with
  | 0 => exact (Builds.empty.push rfl (by cbv) _).push rfl (by cbv) _
  | 1 => exact (Builds.empty.push rfl (by cbv) _).push rfl (by cbv) _
  | 2 => exact Builds.empty.push rfl (by cbv) _
  | 3 => exact Builds.empty.push rfl (by cbv) _
  | index + 4 => exact .empty

theorem copies_nested : nested.Copies (.dict ⟨2⟩) (.dict ⟨3⟩) := by
  have sets : nested.Copies (.frozenset ⟨0⟩) (.frozenset ⟨1⟩) :=
    .frozenset (.swap _ _ _) (.cons (.shared _) (.cons (.shared _) .nil))
  have tuples : nested.Copies (.tuple ⟨0⟩) (.tuple ⟨1⟩) :=
    .tuple (.cons (.bytearray rfl) (.cons sets .nil))
  have lists : nested.Copies (.list ⟨0⟩) (.list ⟨1⟩) :=
    .list (.cons tuples (.cons (.shared _) .nil))
  exact .dict (.refl _) (.cons (.shared _) .nil) (.cons lists .nil)

theorem freeOfNaN_nested : FreeOfNaN nested.members (.dict ⟨2⟩) := by
  let known : List Value := [.dict ⟨2⟩, .int 3, .list ⟨0⟩, .tuple ⟨0⟩, .float ⟨0x3ff8000000000000⟩,
    .bytearray ⟨0⟩, .frozenset ⟨0⟩, .int 1, .int 2]
  have closed : ∀ outer ∈ known, nested.members outer ⊆ known := by decide
  have valid : ∀ inner ∈ known, inner.isNaN = false := by decide
  exact fun inner reaches => valid inner (reaches.mem_of_closed List.mem_cons_self closed)

theorem lawfulEquality_of_sound_nested :
    nested.Sound ∧ Acyclic nested.contents (.dict ⟨2⟩) ∧
      FreeOfNaN nested.members (.dict ⟨2⟩) ∧ nested.Copies (.dict ⟨2⟩) (.dict ⟨3⟩) ∧
        nested.equals (.dict ⟨2⟩) (.dict ⟨3⟩) ∧ nested.equals (.dict ⟨3⟩) (.dict ⟨2⟩) := by
  have nests : nestsWithin nested.contents 5 (.dict ⟨2⟩) := by decide
  have acyclic : Acyclic nested.contents (.dict ⟨2⟩) := acyclic_of_nestsWithin nests
  have lawful := lawfulEquality_of_sound sound_nested
  have equal := lawful.copies _ _ acyclic freeOfNaN_nested copies_nested
  exact ⟨sound_nested, acyclic, freeOfNaN_nested, copies_nested, equal, lawful.symm _ _ equal⟩

end Store
end ObjectModel
