import ObjectModel.Proofs.Store.Nesting
import ObjectModel.Proofs.Store.ValueEquality

/-!
# What hashes and equality depend on

The hash of an acyclic value, and whether two of them are equal, depends on nothing but the objects
that are inside. In a later store, where these are the same, both are what they were. The depth of
the store may have grown meanwhile; that changes nothing for values that nest to less than the depth
they were compared to before.
-/

namespace ObjectModel

theorem mapM_congr {α β ε : Type} {f g : α → Except ε β} {items : List α}
    (agree : ∀ item ∈ items, f item = g item) : items.mapM f = items.mapM g := by
  induction items with
  | nil => rfl
  | cons item items induction =>
      rw [List.mapM_cons, List.mapM_cons, agree item List.mem_cons_self,
        induction fun other member => agree other (List.mem_cons_of_mem item member)]

theorem pointwise_congr {α : Type} {related weaker : α → α → Bool} {left right : List α}
    (agree : ∀ a ∈ left, ∀ b ∈ right, related a b = weaker a b) :
    pointwise related left right = pointwise weaker left right := by
  induction left generalizing right with
  | nil => cases right <;> rfl
  | cons a left induction =>
      cases right with
      | nil => rfl
      | cons b right =>
          rw [pointwise, pointwise, agree a List.mem_cons_self b List.mem_cons_self, induction]
          intro x member y member_right
          exact agree x (List.mem_cons_of_mem a member) y (List.mem_cons_of_mem b member_right)

theorem all_congr_of_mem {α : Type} {test other : α → Bool} {items : List α}
    (agree : ∀ item ∈ items, test item = other item) : items.all test = items.all other := by
  rw [Bool.eq_iff_iff, List.all_eq_true, List.all_eq_true]
  exact forall₂_congr fun item member => by rw [agree item member]

theorem Table.mem_of_get? {κ ν : Type} {table : Table κ ν} {hash : UInt64} {f : κ → Bool}
    {entry : Entry κ ν} (found : table.get? hash f = some entry) : entry ∈ table.entries := by
  obtain ⟨slot, -, holds⟩ := Option.bind_eq_some_iff.mp found
  exact mem_entries.mpr ⟨slot, holds⟩

theorem Table.get?_congr {κ ν : Type} {table : Table κ ν} {f g : κ → Bool} (hash : UInt64)
    (agree : ∀ entry ∈ table.entries, f entry.key = g entry.key) :
    table.get? hash f = table.get? hash g := by
  have same_test : ∀ slot, (table.entryAt? slot).any (f ·.key) =
      (table.entryAt? slot).any (g ·.key) := by
    intro slot
    cases holds : table.entryAt? slot with
    | none => rfl
    | some entry => exact agree entry (mem_entries.mpr ⟨slot, holds⟩)
  rw [get?, find?, funext same_test, get?, find?]

namespace Store

open Value

/-- The object of a container or a sequence is the same in a later store. -/
def Keeps (store later : Store) : Value → Prop
  | .bytearray ref => later.buffer ref = store.buffer ref
  | .tuple ref => later.tuple ref = store.tuple ref
  | .list ref => later.list ref = store.list ref
  | .set ref | .frozenset ref | .dict ref => later.table ref = store.table ref
  | .hostObject ref => later.record ref = store.record ref
  | _ => True

/-- An acyclic value that is the same in a later store, with all that is inside. -/
structure Unchanged (store later : Store) (value : Value) : Prop where
  acyclic : Acyclic store.contents value
  keeps : ∀ inner, Reaches store.contents value inner → store.Keeps later inner

variable {store later : Store} {value left right : Value} {depth limit further : Nat}

theorem Unchanged.refl (acyclic : Acyclic store.contents value) : store.Unchanged store value where
  acyclic := acyclic
  keeps inner _ := by cases inner <;> first | rfl | exact trivial

theorem Keeps.contents_eq (keeps : store.Keeps later value) :
    later.contents value = store.contents value := by
  cases value with
  | tuple ref => exact keeps
  | list ref => exact keeps
  | set ref => exact congrArg tableContents keeps
  | frozenset ref => exact congrArg tableContents keeps
  | dict ref => exact congrArg tableContents keeps
  | hostObject ref => exact congrArg (List.map (·.2)) keeps
  | _ => rfl

theorem Keeps.shape_eq (keeps : store.Keeps later value) :
    later.shape value = store.shape value := by
  cases value with
  | bytearray ref => exact congrArg (Shape.bytes .bytearray) keeps
  | _ => rfl

theorem Unchanged.of_mem (unchanged : store.Unchanged later value) {part : Value}
    (member : part ∈ store.contents value) : store.Unchanged later part where
  acyclic := unchanged.acyclic.of_reaches (.single member)
  keeps inner reaches := unchanged.keeps inner (.head member reaches)

theorem Unchanged.nestsWithin (unchanged : store.Unchanged later value) :
    nestsWithin store.contents store.depth value :=
  nestsWithin_depth unchanged.acyclic

/-- Nothing new gets inside. -/
theorem Unchanged.reaches (unchanged : store.Unchanged later value) {inner : Value}
    (reaches : Reaches later.contents value inner) : Reaches store.contents value inner := by
  induction reaches with
  | refl => exact .refl
  | tail _ member induction =>
      rw [(unchanged.keeps _ induction).contents_eq] at member
      exact induction.tail member

/-- What is unchanged is acyclic also in the later store. -/
theorem Unchanged.acyclic_later (unchanged : store.Unchanged later value) :
    Acyclic later.contents value := by
  intro inner reaches part member back
  have inner_reached := unchanged.reaches reaches
  rw [(unchanged.keeps inner inner_reached).contents_eq] at member
  have part_unchanged : store.Unchanged later part :=
    { acyclic := unchanged.acyclic.of_reaches (inner_reached.tail member)
      keeps := fun further onward =>
        unchanged.keeps further (inner_reached.trans (.head member onward)) }
  exact unchanged.acyclic inner inner_reached part member (part_unchanged.reaches back)

/-! ## Hashes -/

theorem hashWithin_eq_of_unchanged (unchanged : store.Unchanged later value)
    (nests : nestsWithin store.contents depth value) (le : depth ≤ limit)
    (le_further : depth ≤ further) :
    later.hashWithin further value = store.hashWithin limit value := by
  induction depth generalizing value limit further with
  | zero => contradiction
  | succ depth induction =>
      obtain ⟨limit, rfl⟩ := Nat.exists_eq_add_one_of_ne_zero (Nat.ne_zero_of_lt le)
      obtain ⟨further, rfl⟩ := Nat.exists_eq_add_one_of_ne_zero (Nat.ne_zero_of_lt le_further)
      cases value with
      | tuple ref =>
          have same_items : later.tuple ref = store.tuple ref := unchanged.keeps _ .refl
          rw [hashWithin, hashWithin, same_items]
          congr 1
          apply mapM_congr
          intro item member
          exact induction (unchanged.of_mem member) (nestsWithin_succ_iff.mp nests item member)
            (Nat.le_of_succ_le_succ le) (Nat.le_of_succ_le_succ le_further)
      | frozenset ref =>
          have same_table : later.table ref = store.table ref := unchanged.keeps _ .refl
          rw [hashWithin, hashWithin, same_table]
      | _ => rfl

/-- What is unchanged keeps its hash. -/
theorem hash_eq_of_unchanged (unchanged : store.Unchanged later value)
    (depth_le : store.depth ≤ later.depth) : later.hash value = store.hash value :=
  hashWithin_eq_of_unchanged unchanged unchanged.nestsWithin le_rfl depth_le

/-! ## Equality -/

section Tables

variable {equal after : Value → Value → Bool} {a b : Ref}

theorem mem_of_entryFor? {table : Table Value Value} {key : Value} {found : Entry Value Value}
    (lookup : store.entryFor? equal table key = .ok (some found)) : found ∈ table.entries := by
  obtain ⟨hash, -, found_at⟩ := bind_eq_ok_iff.mp lookup
  exact Table.mem_of_get? (Except.ok.inj found_at)

theorem entryFor?_congr {table : Table Value Value} {key : Value}
    (same_hash : later.hash key = store.hash key)
    (agree : ∀ entry ∈ table.entries, after entry.key key = equal entry.key key) :
    later.entryFor? after table key = store.entryFor? equal table key := by
  rw [entryFor?, entryFor?, same_hash]
  congr 1
  funext hash
  rw [Table.get?_congr (f := (after · key)) (g := (equal · key)) hash agree]

theorem sameElements_congr (same_left : later.table a = store.table a)
    (same_right : later.table b = store.table b)
    (hashes : ∀ key ∈ store.elements a, later.hash key = store.hash key)
    (agree : ∀ x ∈ store.elements a, ∀ y ∈ store.elements b, after y x = equal y x) :
    later.sameElements after a b = store.sameElements equal a b := by
  rw [sameElements, sameElements, elements, same_left, same_right, ← elements]
  congr 2
  apply all_congr_of_mem
  intro key member
  rw [entryFor?_congr (hashes key member) fun entry found =>
    agree key member entry.key (List.mem_map_of_mem found)]

theorem sameEntries_congr (same_left : later.table a = store.table a)
    (same_right : later.table b = store.table b)
    (hashes : ∀ part ∈ tableContents (store.table a), later.hash part = store.hash part)
    (agree : ∀ x ∈ tableContents (store.table a), ∀ y ∈ tableContents (store.table b),
      after x y = equal x y ∧ after y x = equal y x) :
    later.sameEntries after a b = store.sameEntries equal a b := by
  rw [sameEntries, sameEntries, same_left, same_right]
  congr 2
  apply all_congr_of_mem
  intro entry member
  have key_member := key_mem_tableContents member
  have agree_key : ∀ found ∈ (store.table b).entries,
      after found.key entry.key = equal found.key entry.key := fun found found_member =>
    (agree entry.key key_member found.key (key_mem_tableContents found_member)).2
  rw [entryFor?_congr (hashes entry.key key_member) agree_key]
  cases lookup : store.entryFor? equal (store.table b) entry.key with
  | error fault => rfl
  | ok result =>
      cases result with
      | none => rfl
      | some found =>
          have found_member := mem_of_entryFor? lookup
          exact (agree entry.value (value_mem_tableContents member) found.value
            (value_mem_tableContents found_member)).1

end Tables

section Values

variable {equal after : Equality → Value → Value → Bool} {mode : Equality}

/-- Equality of shapes depends on the objects of these and on the hashes and the equalities of the
values inside alone. -/
theorem shapesEqual_congr (keeps : store.Keeps later left) (keeps_right : store.Keeps later right)
    (hashes : ∀ part ∈ store.contents left, later.hash part = store.hash part)
    (agree : ∀ mode, ∀ x ∈ store.contents left, ∀ y ∈ store.contents right,
      after mode x y = equal mode x y ∧ after mode y x = equal mode y x) :
    later.shapesEqual after mode (store.shape left) (store.shape right) =
      store.shapesEqual equal mode (store.shape left) (store.shape right) := by
  have items : ∀ {same : Bool} {mode : Equality} {xs ys : List Value}, xs ⊆ store.contents left →
      ys ⊆ store.contents right →
      (same || pointwise (after mode) xs ys) = (same || pointwise (equal mode) xs ys) := by
    intro same mode xs ys subset subset_right
    rw [pointwise_congr fun x member y member_right =>
      (agree mode x (subset member) y (subset_right member_right)).1]
  have sets : ∀ {a b : Ref}, later.table a = store.table a → later.table b = store.table b →
      store.elements a ⊆ store.contents left → store.elements b ⊆ store.contents right →
      later.sameElements (after .loose) a b = store.sameElements (equal .loose) a b :=
    fun same_left same_right subset subset_right => sameElements_congr same_left same_right
      (fun key member => hashes key (subset member)) fun x member y member_right =>
        (agree .loose x (subset member) y (subset_right member_right)).2
  have elements_subset : ∀ ref, store.elements ref ⊆ tableContents (store.table ref) :=
    fun ref => List.subset_append_left _ _
  cases left <;> cases right <;> try rfl
  case tuple.tuple a b =>
    have same_left : later.tuple a = store.tuple a := keeps
    have same_right : later.tuple b = store.tuple b := keeps_right
    rw [shape, shape, shapesEqual, shapesEqual, same_left, same_right]
    exact items (List.Subset.refl _) (List.Subset.refl _)
  case list.list a b =>
    have same_left : later.list a = store.list a := keeps
    have same_right : later.list b = store.list b := keeps_right
    rw [shape, shape, shapesEqual, shapesEqual, same_left, same_right]
    exact items (List.Subset.refl _) (List.Subset.refl _)
  case set.set a b =>
    exact sets keeps keeps_right (elements_subset a) (elements_subset b)
  case set.frozenset a b =>
    exact sets keeps keeps_right (elements_subset a) (elements_subset b)
  case frozenset.set a b =>
    exact sets keeps keeps_right (elements_subset a) (elements_subset b)
  case frozenset.frozenset a b =>
    exact sets keeps keeps_right (elements_subset a) (elements_subset b)
  case dict.dict a b => exact sameEntries_congr keeps keeps_right hashes (agree .loose)
  case hostObject.hostObject a b =>
    have same_left : later.record a = store.record a := keeps
    have same_right : later.record b = store.record b := keeps_right
    rw [shape, shape, shapesEqual, shapesEqual, same_left, same_right]
    congr 1
    apply pointwise_congr
    intro x member y member_right
    rw [(agree .strict x.2 (List.mem_map_of_mem member) y.2 (List.mem_map_of_mem member_right)).1]

end Values

theorem equalWithin_eq_of_unchanged (unchanged : store.Unchanged later left)
    (unchanged_right : store.Unchanged later right) (depth_le : store.depth ≤ later.depth)
    (nests : nestsWithin store.contents depth left)
    (nests_right : nestsWithin store.contents depth right) (le : depth ≤ limit)
    (le_further : depth ≤ further) (mode : Equality) :
    later.equalWithin further mode left right = store.equalWithin limit mode left right := by
  induction depth generalizing left right limit further mode with
  | zero => contradiction
  | succ depth induction =>
      obtain ⟨limit, rfl⟩ := Nat.exists_eq_add_one_of_ne_zero (Nat.ne_zero_of_lt le)
      obtain ⟨further, rfl⟩ := Nat.exists_eq_add_one_of_ne_zero (Nat.ne_zero_of_lt le_further)
      rw [Nat.succ_le_succ_iff] at le le_further
      rw [nestsWithin_succ_iff] at nests nests_right
      have keeps := unchanged.keeps _ .refl
      have keeps_right := unchanged_right.keeps _ .refl
      rw [equalWithin_succ_eq, equalWithin_succ_eq, keeps.shape_eq, keeps_right.shape_eq]
      apply shapesEqual_congr keeps keeps_right
      · intro part member
        exact hash_eq_of_unchanged (unchanged.of_mem member) depth_le
      · intro mode x member y member_right
        have x_unchanged := unchanged.of_mem member
        have y_unchanged := unchanged_right.of_mem member_right
        have x_nests := nests x member
        have y_nests := nests_right y member_right
        exact ⟨induction x_unchanged y_unchanged x_nests y_nests le le_further mode,
          induction y_unchanged x_unchanged y_nests x_nests le le_further mode⟩

/-- Values that are unchanged stay equal or different. -/
theorem equals_eq_of_unchanged (unchanged : store.Unchanged later left)
    (unchanged_right : store.Unchanged later right) (depth_le : store.depth ≤ later.depth) :
    later.equals left right = store.equals left right :=
  equalWithin_eq_of_unchanged unchanged unchanged_right depth_le unchanged.nestsWithin
    unchanged_right.nestsWithin le_rfl depth_le .loose

/-- A table keeps its keys in a store where all of them are unchanged. -/
theorem keepsKeys_of_unchanged {table : Table Value Value}
    (unchanged : ∀ key ∈ table.keys, store.Unchanged later key)
    (depth_le : store.depth ≤ later.depth) : store.KeepsKeys later table where
  hash_eq key member := hash_eq_of_unchanged (unchanged key member) depth_le
  equals_eq key member other other_member :=
    equals_eq_of_unchanged (unchanged key member) (unchanged other other_member) depth_le

end Store
end ObjectModel
