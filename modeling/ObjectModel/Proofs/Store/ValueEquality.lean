import ObjectModel.Proofs.Store.KeyEquality
import Mathlib.Data.List.Pairwise

/-!
# Equality of values

Both equalities are symmetric and transitive among all values, whether they have a hash or not. What
they see of a value is its shape: equality relates values of one shape only, and the kind counts in
strict equality alone. Sets and maps find each other's keys, among which equality is known to be
symmetric and transitive already; the rest is an induction on the depth.
-/

namespace ObjectModel

/-- What equality sees of a value. -/
inductive Shape where
  /-- A number. -/
  | number (kind : Kind) (number : Number)
  /-- A string of bytes. -/
  | bytes (kind : Kind) (bytes : List UInt8)
  /-- An immutable sequence. -/
  | tuple (items : Ref)
  /-- A mutable sequence. -/
  | list (items : Ref)
  /-- A set of either kind. -/
  | set (table : Ref)
  /-- A map. -/
  | dict (table : Ref)
  /-- A host object. -/
  | record (fields : Ref)
  /-- A value that is equal to itself alone. -/
  | atom (value : Value)

/-- Whether identical values of a shape are equal, whatever is inside. -/
def Shape.equalsItself (mode : Equality) : Shape → Bool
  | .tuple _ => mode == .strict
  | .list _ | .record _ | .atom _ => true
  | _ => false

namespace Store

/-- The shape of a value. -/
def shape (store : Store) : Value → Shape
  | .bool b => .number .bool (.int b.toInt)
  | .int n => .number .int (.int n)
  | .float x => .number .float (.float x)
  | .complex re im => .number .complex (.complex re im)
  | .bytes bytes => .bytes .bytes bytes
  | .bytearray ref => .bytes .bytearray (store.buffer ref)
  | .tuple ref => .tuple ref
  | .list ref => .list ref
  | .set ref | .frozenset ref => .set ref
  | .dict ref => .dict ref
  | .hostObject ref => .record ref
  | value => .atom value

/-- Equality of shapes, given both equalities of the values inside. -/
def shapesEqual (store : Store) (equal : Equality → Value → Value → Bool) (mode : Equality) :
    Shape → Shape → Bool
  | .number k m, .number l n => (mode == .loose || k == l) && m.equals n
  | .bytes k a, .bytes l b => (mode == .loose || k == l) && a == b
  | .tuple a, .tuple b =>
    mode == .strict && a == b || pointwise (equal mode) (store.tuple a) (store.tuple b)
  | .list a, .list b => a == b || pointwise (equal .strict) (store.list a) (store.list b)
  | .set a, .set b => store.sameElements (equal .loose) a b
  | .dict a, .dict b => store.sameEntries (equal .loose) a b
  | .record a, .record b =>
    a == b || pointwise (fun x y => x.1 == y.1 && equal .strict x.2 y.2) (store.record a)
      (store.record b)
  | .atom a, .atom b => a == b
  | _, _ => false

variable {store : Store} {equal : Equality → Value → Value → Bool} {mode : Equality}

theorem looseStep_eq (store : Store) (equal : Equality → Value → Value → Bool)
    (left right : Value) :
    store.looseStep equal left right =
      store.shapesEqual equal .loose (store.shape left) (store.shape right) := by
  cases left <;> cases right <;> rfl

theorem strictStep_eq (store : Store) (equal : Equality → Value → Value → Bool)
    (left right : Value) :
    store.strictStep equal left right =
      store.shapesEqual equal .strict (store.shape left) (store.shape right) := by
  cases left <;> cases right <;> try rfl
  case bool.bool a b => cases a <;> cases b <;> rfl
  case int.int m n => simp [strictStep, shapesEqual, shape, Number.equals, Number.realEquals]
  case bytes.bytes a b => simp [strictStep, shapesEqual, shape]
  case bytearray.bytearray a b =>
    have same_buffer : a = b → store.buffer a = store.buffer b := congrArg store.buffer
    simpa [strictStep, shapesEqual, shape] using same_buffer

theorem equalWithin_succ_eq (store : Store) (depth : Nat) (mode : Equality) (left right : Value) :
    store.equalWithin (depth + 1) mode left right =
      store.shapesEqual (store.equalWithin depth) mode (store.shape left) (store.shape right) := by
  cases mode with
  | loose => exact store.looseStep_eq _ left right
  | strict => exact store.strictStep_eq _ left right

/-! ## Entries of maps -/

/-- No two entries have equal keys. -/
theorem Keyed.eq_of_finds {table : Table Value Value} (keyed : store.Keyed table)
    (keys : store.KeyRelation store.equals) {entry found : Entry Value Value}
    (member : entry ∈ table.entries) (found_member : found ∈ table.entries)
    (finds : Finds store.equals entry found) : entry = found := by
  have apart : table.entries.Pairwise fun first second =>
      ¬ Finds store.equals first second ∧ ¬ Finds store.equals second first := by
    apply keyed.distinct.imp_of_mem
    intro first second member member_second different
    have first_key := keyed.isKey member
    have second_key := keyed.isKey member_second
    constructor
    · rintro ⟨same_hash, equal⟩
      have equal_swapped := keys.symm second_key first_key equal
      rw [different same_hash.symm] at equal_swapped
      contradiction
    · rintro ⟨same_hash, equal⟩
      rw [different same_hash] at equal
      contradiction
  have swaps : Std.Symm fun first second : Entry Value Value =>
      ¬ Finds store.equals first second ∧ ¬ Finds store.equals second first :=
    ⟨fun _ _ => And.symm⟩
  by_contra entry_ne
  exact (apart.forall member found_member entry_ne).1 finds

/-- A key finds one entry at most. -/
theorem Finds.unique (sound : store.Sound) {equal : Value → Value → Bool}
    (relation : store.KeyRelation equal) {left right : Ref} {entry found other : Entry Value Value}
    (member : entry ∈ (store.table left).entries)
    (found_member : found ∈ (store.table right).entries)
    (other_member : other ∈ (store.table right).entries) (finds : Finds equal entry found)
    (finds_other : Finds equal entry other) : found = other := by
  have finds_back := finds.symm sound relation member found_member
  have finds_each := finds_back.trans sound relation found_member member other_member finds_other
  have found_key := (sound.keyed right).isKey found_member
  have other_key := (sound.keyed right).isKey other_member
  exact (sound.keyed right).eq_of_finds (keyRelation_equals sound) found_member other_member
    ⟨finds_each.1, relation.equals other_key found_key finds_each.2⟩

/-- A map has the same entries as another one if it is as large and each of its keys is found in the
other, with an equal value. -/
theorem sameEntries_iff (sound : store.Sound) {equal : Value → Value → Bool}
    (relation : store.KeyRelation equal) {left right : Ref} :
    store.sameEntries equal left right ↔ left = right ∨
      (store.table left).entries.length = (store.table right).entries.length ∧
        ∀ entry ∈ (store.table left).entries, ∃ found ∈ (store.table right).entries,
          Finds equal entry found ∧ equal entry.value found.value := by
  rw [sameEntries, Bool.or_eq_true, Bool.and_eq_true, beq_iff_eq, beq_iff_eq,
    (sound.keyed left).indexed.size_eq, (sound.keyed right).indexed.size_eq, List.all_eq_true]
  refine or_congr_right (and_congr_right' (forall₂_congr fun entry member => ?_))
  rw [entryFor?_eq sound member]
  cases search : (store.table right).entries.find?
      (Entry.isMatch entry.hash (equal · entry.key)) with
  | none =>
      rw [List.find?_eq_none] at search
      simp only [Bool.false_eq_true, false_iff, not_exists, not_and]
      intro found found_member finds
      exact (search found found_member (isMatch_iff_finds.mpr finds)).elim
  | some found =>
      have found_member := List.mem_of_find?_eq_some search
      have finds := isMatch_iff_finds.mp (List.find?_some search)
      constructor
      · intro equal_values
        exact ⟨found, found_member, finds, equal_values⟩
      · rintro ⟨other, other_member, finds_other, equal_values⟩
        rwa [finds.unique sound relation member found_member other_member finds_other]

theorem sameEntries_symm (sound : store.Sound) {equal : Value → Value → Bool}
    (relation : store.KeyRelation equal) (symm : ∀ {a b}, equal a b → equal b a)
    {left right : Ref} (entries : store.sameEntries equal left right) :
    store.sameEntries equal right left := by
  rw [sameEntries_iff sound relation] at entries ⊢
  rcases entries with rfl | ⟨same_length, total⟩
  · exact .inl rfl
  · refine .inr ⟨same_length.symm, fun found found_member => ?_⟩
    have keys_total : ∀ entry ∈ (store.table left).entries, ∃ found ∈ (store.table right).entries,
        Finds equal entry found := by
      intro entry member
      obtain ⟨found, found_member, finds, -⟩ := total entry member
      exact ⟨found, found_member, finds⟩
    obtain ⟨paired, perm, pairs⟩ := exists_perm_of_finds sound relation same_length keys_total
    have member_paired : found ∈ paired := perm.mem_iff.mpr found_member
    obtain ⟨entry, member, finds⟩ := exists_right_of_mem pairs.flip member_paired
    obtain ⟨other, other_member, finds_other, equal_values⟩ := total entry member
    obtain rfl := Finds.unique sound relation member found_member other_member finds finds_other
    exact ⟨entry, member, Finds.symm sound relation member found_member finds, symm equal_values⟩

theorem sameEntries_trans (sound : store.Sound) {equal : Value → Value → Bool}
    (relation : store.KeyRelation equal) (trans : ∀ {a b c}, equal a b → equal b c → equal a c)
    {left middle right : Ref} (first : store.sameEntries equal left middle)
    (second : store.sameEntries equal middle right) : store.sameEntries equal left right := by
  rw [sameEntries_iff sound relation] at first second ⊢
  rcases first with rfl | ⟨same_length, total⟩
  · exact second
  · rcases second with rfl | ⟨same_length_right, total_right⟩
    · exact .inr ⟨same_length, total⟩
    · refine .inr ⟨same_length.trans same_length_right, fun entry member => ?_⟩
      obtain ⟨found, found_member, finds, equal_values⟩ := total entry member
      obtain ⟨last, last_member, finds_last, equal_values_last⟩ := total_right found found_member
      exact ⟨last, last_member,
        finds.trans sound relation member found_member last_member finds_last,
        trans equal_values equal_values_last⟩

/-! ## Symmetry and transitivity -/

/-- The ways in which two shapes can be equal, given both equalities of the values inside. -/
inductive Corresponds (store : Store) (equal : Equality → Value → Value → Bool) (mode : Equality) :
    Shape → Shape → Prop
  | number {k l : Kind} {m n : Number} (kinds : mode = .strict → k = l) (same : m.equals n) :
      Corresponds store equal mode (.number k m) (.number l n)
  | bytes {k l : Kind} (kinds : mode = .strict → k = l) (bytes : List UInt8) :
      Corresponds store equal mode (.bytes k bytes) (.bytes l bytes)
  | tuple {a b : Ref}
      (items : List.Forall₂ (fun x y => equal mode x y) (store.tuple a) (store.tuple b)) :
      Corresponds store equal mode (.tuple a) (.tuple b)
  | list {a b : Ref}
      (items : List.Forall₂ (fun x y => equal .strict x y) (store.list a) (store.list b)) :
      Corresponds store equal mode (.list a) (.list b)
  | set {a b : Ref} (elements : store.sameElements (equal .loose) a b) :
      Corresponds store equal mode (.set a) (.set b)
  | dict {a b : Ref} (entries : store.sameEntries (equal .loose) a b) :
      Corresponds store equal mode (.dict a) (.dict b)
  | record {a b : Ref} (fields : List.Forall₂ (fun x y => x.1 = y.1 ∧ equal .strict x.2 y.2)
      (store.record a) (store.record b)) : Corresponds store equal mode (.record a) (.record b)
  | same {shape : Shape} (self_equal : shape.equalsItself mode) :
      Corresponds store equal mode shape shape

theorem shapesEqual_iff {left right : Shape} :
    store.shapesEqual equal mode left right ↔ store.Corresponds equal mode left right := by
  have kinds_iff : ∀ {k l : Kind}, (mode == .loose || k == l) ↔ (mode = .strict → k = l) := by
    intro k l
    cases mode <;> simp
  constructor
  · intro holds
    unfold shapesEqual at holds
    split at holds
    · rw [Bool.and_eq_true, kinds_iff] at holds
      exact .number holds.1 holds.2
    · rw [Bool.and_eq_true, kinds_iff, beq_iff_eq] at holds
      exact holds.2 ▸ .bytes holds.1 _
    · rw [Bool.or_eq_true, Bool.and_eq_true, beq_iff_eq, beq_iff_eq, pointwise_iff] at holds
      rcases holds with ⟨rfl, rfl⟩ | items
      · exact .same rfl
      · exact .tuple items
    · rw [Bool.or_eq_true, beq_iff_eq, pointwise_iff] at holds
      rcases holds with rfl | items
      · exact .same rfl
      · exact .list items
    · exact .set holds
    · exact .dict holds
    · simp only [Bool.or_eq_true, beq_iff_eq, pointwise_iff, Bool.and_eq_true] at holds
      rcases holds with rfl | fields
      · exact .same rfl
      · exact .record fields
    · rw [beq_iff_eq] at holds
      exact holds ▸ .same rfl
    · contradiction
  · intro corresponds
    cases corresponds with
    | number kinds same =>
        rw [shapesEqual, Bool.and_eq_true, kinds_iff]
        exact ⟨kinds, same⟩
    | bytes kinds bytes =>
        rw [shapesEqual, Bool.and_eq_true, kinds_iff, beq_iff_eq]
        exact ⟨kinds, rfl⟩
    | tuple items =>
        rw [shapesEqual, Bool.or_eq_true, pointwise_iff]
        exact .inr items
    | list items =>
        rw [shapesEqual, Bool.or_eq_true, pointwise_iff]
        exact .inr items
    | set elements => exact elements
    | dict entries => exact entries
    | record fields =>
        rw [shapesEqual, Bool.or_eq_true, pointwise_iff]
        simpa using Or.inr fields
    | same self_equal =>
        cases left with
        | number k m => contradiction
        | bytes k bytes => contradiction
        | set a => contradiction
        | dict a => contradiction
        | tuple a =>
            rw [Shape.equalsItself] at self_equal
            rw [shapesEqual, self_equal, beq_self_eq_true]
            rfl
        | list a => rw [shapesEqual, beq_self_eq_true, Bool.true_or]
        | record a => rw [shapesEqual, beq_self_eq_true, Bool.true_or]
        | atom value => rw [shapesEqual, beq_self_eq_true]

/-- An equality of values that is symmetric and transitive in both modes. -/
structure PartialEquivalence (equal : Equality → Value → Value → Bool) : Prop where
  symm : ∀ {mode a b}, equal mode a b → equal mode b a
  trans : ∀ {mode a b c}, equal mode a b → equal mode b c → equal mode a c

theorem Corresponds.symm (sound : store.Sound) (keys : store.KeyRelation (equal .loose))
    (values : PartialEquivalence equal) {left right : Shape}
    (corresponds : store.Corresponds equal mode left right) :
    store.Corresponds equal mode right left := by
  cases corresponds with
  | number kinds same =>
      exact .number (fun strict => (kinds strict).symm) (by rwa [Number.equals_comm])
  | bytes kinds bytes => exact .bytes (fun strict => (kinds strict).symm) bytes
  | tuple items => exact .tuple (items.flip.imp fun _ _ => values.symm)
  | list items => exact .list (items.flip.imp fun _ _ => values.symm)
  | set elements => exact .set (sameElements_symm sound keys elements)
  | dict entries => exact .dict (sameEntries_symm sound keys values.symm entries)
  | record fields => exact .record (fields.flip.imp fun _ _ => .imp Eq.symm values.symm)
  | same self_equal => exact .same self_equal

theorem Corresponds.trans (sound : store.Sound) (keys : store.KeyRelation (equal .loose))
    (values : PartialEquivalence equal) {left middle right : Shape}
    (first : store.Corresponds equal mode left middle)
    (second : store.Corresponds equal mode middle right) :
    store.Corresponds equal mode left right := by
  cases first with
  | number kinds same =>
      cases second with
      | number kinds_right same_right =>
          refine .number (fun strict => ?_) (Number.equals_trans same same_right)
          exact (kinds strict).trans (kinds_right strict)
      | same self_equal => exact .number kinds same
  | bytes kinds bytes =>
      cases second with
      | bytes kinds_right _ =>
          exact .bytes (fun strict => (kinds strict).trans (kinds_right strict)) bytes
      | same self_equal => exact .bytes kinds bytes
  | tuple items =>
      cases second with
      | tuple items_right =>
          exact .tuple (forall₂_trans_of_mem items items_right fun _ _ _ _ _ _ => values.trans)
      | same self_equal => exact .tuple items
  | list items =>
      cases second with
      | list items_right =>
          exact .list (forall₂_trans_of_mem items items_right fun _ _ _ _ _ _ => values.trans)
      | same self_equal => exact .list items
  | set elements =>
      cases second with
      | set elements_right => exact .set (sameElements_trans sound keys elements elements_right)
      | same self_equal => exact .set elements
  | dict entries =>
      cases second with
      | dict entries_right =>
          exact .dict (sameEntries_trans sound keys values.trans entries entries_right)
      | same self_equal => exact .dict entries
  | record fields =>
      cases second with
      | record fields_right =>
          refine .record (forall₂_trans_of_mem fields fields_right ?_)
          intro x _ y _ z _ pair next
          exact ⟨pair.1.trans next.1, values.trans pair.2 next.2⟩
      | same self_equal => exact .record fields
  | same self_equal => exact second

/-! ## All depths -/

theorem equalWithin_succ_iff_corresponds {depth : Nat} {left right : Value} :
    store.equalWithin (depth + 1) mode left right ↔
      store.Corresponds (store.equalWithin depth) mode (store.shape left) (store.shape right) := by
  rw [equalWithin_succ_eq, shapesEqual_iff]

theorem partialEquivalence_equalWithin (sound : store.Sound) {depth : Nat}
    (le : depth ≤ store.depth) : PartialEquivalence (store.equalWithin depth) := by
  induction depth with
  | zero =>
      exact
        { symm := fun equal => nomatch equal
          trans := fun equal => nomatch equal }
  | succ depth induction =>
      have le := Nat.le_of_succ_le le
      have keys := keyRelation_equalWithin sound le
      have values := induction le
      constructor
      · intro mode a b equal
        rw [equalWithin_succ_iff_corresponds] at equal ⊢
        exact equal.symm sound keys values
      · intro mode a b c first second
        rw [equalWithin_succ_iff_corresponds] at first second ⊢
        exact first.trans sound keys values second

end Store
end ObjectModel
