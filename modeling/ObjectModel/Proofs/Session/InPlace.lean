import ObjectModel.Proofs.InPlace
import ObjectModel.Proofs.Session.Atomicity

/-!
# In-place operators in a session

A set that set algebra has changed in place is inside no key of a table, for keys hold no sets but
frozen ones, and in a session these have tables of their own. So the keys have the hashes and the
equalities that they had before, and the set that is made last is the one that the plain operator
makes.
-/

namespace ObjectModel

open Effect

namespace Store

variable {store later : Store} {equal after : Value → Value → Bool} {left right : Value}

theorem alike_congr (same_tuple : ∀ ref, later.tuple ref = store.tuple ref)
    (items : ∀ a b, left = .tuple a → right = .tuple b →
      ∀ x ∈ store.tuple a, ∀ y ∈ store.tuple b, after x y = equal x y)
    (sets : ∀ a b, left = .frozenset a → right = .frozenset b →
      later.sameElements after a b = store.sameElements equal a b) :
    later.Alike after left right ↔ store.Alike equal left right := by
  constructor
  · intro alike
    cases alike with
    | number left_number right_number same => exact .number left_number right_number same
    | bytes bytes => exact .bytes bytes
    | tuple pairs =>
        rw [same_tuple, same_tuple] at pairs
        exact .tuple (forall₂_imp_of_mem pairs fun x member y member_right related =>
          items _ _ rfl rfl x member y member_right ▸ related)
    | frozenset elements => exact .frozenset (sets _ _ rfl rfl ▸ elements)
    | atom atom => exact .atom atom
  · intro alike
    cases alike with
    | number left_number right_number same => exact .number left_number right_number same
    | bytes bytes => exact .bytes bytes
    | tuple pairs =>
        refine .tuple ?_
        rw [same_tuple, same_tuple]
        exact forall₂_imp_of_mem pairs fun x member y member_right related =>
          (items _ _ rfl rfl x member y member_right).symm ▸ related
    | frozenset elements => exact .frozenset ((sets _ _ rfl rfl).symm ▸ elements)
    | atom atom => exact .atom atom

end Store

namespace Effect

variable {items : List Value} {receiver : Ref} {world later : World}

/-- The addition of elements to a set changes nothing but its table. -/
theorem exists_withTable_of_addElements
    (adds : outcome (addElements receiver items) world = (.ok (), later)) :
    ∃ after, later = { world with store := world.store.withTable receiver after } := by
  induction items generalizing world with
  | nil =>
      obtain rfl := (Prod.mk.inj adds).2
      exact ⟨world.store.table receiver, by rw [Store.withTable_table]⟩
  | cons item items induction =>
      rw [addElements_cons, outcome_bind, outcome_setKey] at adds
      cases inserts : world.store.insertKey (world.store.table receiver) item item with
      | error fault =>
          rw [inserts] at adds
          cases adds
      | ok next =>
          rw [inserts] at adds
          obtain ⟨after, rfl⟩ := induction adds
          exact ⟨after, congrArg (World.mk · world.console)
            (world.store.withTable_withTable receiver next after)⟩

end Effect

namespace SetKind

variable {op : BinaryOperator} {right : Value}

theorem binary_of_no_algebra (sort : SetKind) {a : Ref}
    (no_algebra : ¬∃ b operation, right.setTable? = some b ∧
      SetOperation.ofOp? op = some operation) :
    sort.binary a op right = throw (sort.rejection op false right) := by
  unfold SetKind.binary
  split
  · exact absurd ⟨_, _, ‹_›, ‹_›⟩ no_algebra
  · rfl

theorem inplace_of_no_algebra (sort : SetKind) {a : Ref}
    (no_algebra : ¬∃ b operation, right.setTable? = some b ∧
      SetOperation.ofOp? op = some operation) :
    sort.inplace a op right = throw (sort.rejection op true right) := by
  unfold SetKind.inplace
  split
  · exact absurd ⟨_, _, ‹_›, ‹_›⟩ no_algebra
  · rfl

end SetKind

namespace Stage

/-! ## Keys and the table of a set that changes -/

variable {stage : Stage} {value left right : Value} {a : Ref} {world : World}

section Keys

variable (sound : stage.Sound) (of_sets : stage.kinds a = .set) (table : Table Value Value)

include sound of_sets

omit sound in
theorem table_of_frozenset {ref : Ref} (admits : stage.Admits (.frozenset ref)) :
    (stage.store.withTable a table).table ref = stage.store.table ref := by
  have elsewhere : ref ≠ a := by
    rintro rfl
    exact nomatch (admits.kind_eq ref rfl).trans of_sets
  exact Pool.get_set_of_ne _ _ elsewhere

theorem hashWithin_withTable (admits : stage.Admits value) (depth : Nat) :
    (stage.store.withTable a table).hashWithin depth value =
      stage.store.hashWithin depth value := by
  induction depth generalizing value with
  | zero => rfl
  | succ depth induction =>
      cases value with
      | tuple ref =>
          have same_hashes := mapM_congr fun item member =>
            induction (sound.tuples ref item member)
          exact congrArg (· >>= fun words => pure (Digest.tagged .tuple words)) same_hashes
      | frozenset ref =>
          rw [Store.hashWithin, Store.hashWithin, table_of_frozenset of_sets table admits]
      | _ => rfl

theorem hash_withTable (admits : stage.Admits value) :
    (stage.store.withTable a table).hash value = stage.store.hash value := by
  rw [Store.hash, Store.depth_withTable, hashWithin_withTable sound of_sets table admits,
    Store.hash]

theorem equalWithin_withTable (admits : stage.Admits left) (admits_right : stage.Admits right)
    (left_key : stage.store.IsKey left) (right_key : stage.store.IsKey right) (depth : Nat) :
    (stage.store.withTable a table).equalWithin depth .loose left right =
      stage.store.equalWithin depth .loose left right := by
  induction depth generalizing left right with
  | zero => rfl
  | succ depth induction =>
      have kept {value : Value} (admits : stage.Admits value) (key : stage.store.IsKey value) :
          (stage.store.withTable a table).IsKey value := by
        rwa [Store.IsKey, hash_withTable sound of_sets table admits]
      rw [Bool.eq_iff_iff, Store.equalWithin_succ_iff left_key right_key,
        Store.equalWithin_succ_iff (kept admits left_key) (kept admits_right right_key)]
      refine Store.alike_congr (fun _ => rfl) ?_ ?_
      · rintro l r rfl rfl x member y member_right
        exact induction (sound.tuples l x member) (sound.tuples r y member_right)
          (Store.isKey_of_mem_tuple left_key x member)
          (Store.isKey_of_mem_tuple right_key y member_right)
      · rintro l r rfl rfl
        refine Store.sameElements_congr (table_of_frozenset of_sets table admits)
          (table_of_frozenset of_sets table admits_right) ?_ ?_
        · intro key member
          exact hash_withTable sound of_sets table ((sound.tables l).keys key member).1
        · intro x member y member_right
          obtain ⟨x_admits, x_key⟩ := (sound.tables l).keys x member
          obtain ⟨y_admits, y_key⟩ := (sound.tables r).keys y member_right
          exact induction y_admits x_admits y_key x_key

theorem tableOfElements_withTable {items : List Value} (admits : stage.AdmitsAll items) :
    (stage.store.withTable a table).tableOfElements items =
      stage.store.tableOfElements items := by
  refine Store.tableOfElements_congr
    (fun item member => hash_withTable sound of_sets table (admits item member)) ?_
  intro key is_item key_has item member item_has
  rw [Store.equals, Store.depth_withTable, Store.equals]
  exact equalWithin_withTable sound of_sets table (admits key is_item) (admits item member)
    key_has item_has _

end Keys

/-! ## Receivers -/

/-- What set algebra in place leaves behind: the set that the plain operator makes, and another
table in the place of that of the receiver, unless that is frozen or the operation is an
intersection. -/
theorem exists_updated (sound : stage.Sound) (same : world.store = stage.store) {sort : SetKind}
    {op : BinaryOperator} {operation : SetOperation} {b : Ref}
    (admits : stage.Admits (sort.toValue a)) (right_table : right.setTable? = some b)
    (asks : SetOperation.ofOp? op = some operation) :
    ∃ after made,
      outcome (Value.binary op (sort.toValue a) right) world =
        (.ok (sort.toValue world.store.tables.next),
          world.updated a (world.store.table a) made) ∧
      outcome (Value.inplace op (sort.toValue a) right) world =
        (.ok (sort.toValue world.store.tables.next), world.updated a after made) ∧
      (sort = .mutable ∧ operation ≠ .intersection ∨ after = world.store.table a) := by
  have keys : ∀ item ∈ world.store.elements a ++ world.store.elements b,
      world.store.IsKey item := by
    intro item member
    rw [same] at member ⊢
    rcases List.mem_append.mp member with of_left | of_right
    · exact ((sound.tables a).keys item of_left).2
    · exact ((sound.tables b).keys item of_right).2
  obtain ⟨items, combines⟩ := Store.exists_combineSets keys operation
  have admits_items := sound.admitsAll_combineSets (same ▸ combines)
  have is_key := sound.isKey_combineSets (same ▸ combines)
  obtain ⟨made, makes⟩ := Store.exists_tableOfKeys is_key
  rw [← same] at makes
  have binary_eq : outcome (Value.binary op (sort.toValue a) right) world = _ :=
    outcome_binary right_table asks combines makes
  by_cases takes : sort = .mutable ∧ operation ≠ .intersection
  · obtain ⟨rfl, proper⟩ := takes
    have of_sets : stage.kinds a = .set := (admits.kind_eq a rfl).symm
    obtain ⟨later, adds⟩ := exists_addElements sound same a admits_items is_key
    obtain ⟨after, rfl⟩ := exists_withTable_of_addElements adds
    have adds_taken : outcome (addElements a (SetKind.mutable.takes operation items)) world = _ :=
      (congrArg (fun taken => outcome (addElements a taken) world)
        (if_pos ⟨rfl, proper⟩)).trans adds
    have makes_after : (world.store.withTable a after).tableOfElements items = .ok made := by
      rw [same, tableOfElements_withTable sound of_sets after admits_items, ← same, makes]
    exact ⟨after, made, binary_eq,
      outcome_inplace right_table asks combines adds_taken makes_after, .inl ⟨rfl, proper⟩⟩
  · have unchanged := world.store.withTable_table a
    have adds_none : outcome (addElements a (sort.takes operation items)) world =
        (.ok (), { world with store := world.store.withTable a (world.store.table a) }) := by
      rw [SetKind.takes, if_neg takes, unchanged]
      rfl
    rw [← unchanged] at makes
    exact ⟨_, made, binary_eq, outcome_inplace right_table asks combines adds_none makes, .inr rfl⟩

theorem endsInPlace_set (sound : stage.Sound) (same : world.store = stage.store) {sort : SetKind}
    (admits : stage.Admits (sort.toValue a)) (op : BinaryOperator) (right : Value) :
    EndsInPlace op (sort.toValue a) right world
      (outcome (Value.binary op (sort.toValue a) right) world)
      (outcome (Value.inplace op (sort.toValue a) right) world) := by
  have joins : op.extendsList (sort.toValue a) right = false := by cases sort <;> rfl
  by_cases algebra : ∃ b operation, right.setTable? = some b ∧
      SetOperation.ofOp? op = some operation
  · obtain ⟨b, operation, right_table, asks⟩ := algebra
    obtain ⟨after, made, binary_eq, inplace_eq, updates⟩ :=
      exists_updated sound same admits right_table asks
    have known : a.index < world.store.tables.size := by
      rw [same]
      exact Store.index_lt_of_knows admits.known (by cases sort <;> rfl)
    have elsewhere : world.store.tables.next ≠ a := by
      rintro rfl
      exact Nat.lt_irrefl _ known
    have same_table : (world.updated a after made).store.elements world.store.tables.next =
        (world.updated a (world.store.table a) made).store.elements world.store.tables.next := by
      rw [Store.elements, table_updated_next, Store.elements, table_updated_next]
    rw [binary_eq, inplace_eq]
    refine .renewed (by cases sort <;> rfl) joins rfl (by cases sort <;> rfl)
      (by cases sort <;> exact same_table) ?_ ?_
    · cases sort <;> simpa [SetKind.toValue] using elsewhere
    · rcases updates with ⟨rfl, proper⟩ | rfl
      · refine .inl ⟨rfl, ?_⟩
        cases op <;> simp_all [SetOperation.ofOp?, Kind.inplaceOperators]
      · right
        cases sort <;> exact table_updated_receiver known
  · have binary_eq : Value.binary op (sort.toValue a) right = sort.binary a op right := by
      cases sort <;> rfl
    have inplace_eq : Value.inplace op (sort.toValue a) right = sort.inplace a op right := by
      cases sort <;> rfl
    rw [binary_eq, inplace_eq, sort.binary_of_no_algebra algebra,
      sort.inplace_of_no_algebra algebra]
    exact .refused _ _ joins
      ((category_rejection sort op true right).trans (category_rejection sort op false right).symm)

theorem endsInPlace (sound : stage.Sound) (same : world.store = stage.store)
    (admits : stage.Admits left) (op : BinaryOperator) (right : Value) :
    EndsInPlace op left right world (outcome (Value.binary op left right) world)
      (outcome (Value.inplace op left right) world) := by
  have known : world.store.knows left := same ▸ admits.known
  cases left with
  | list ref => exact endsInPlace_list (of_decide_eq_true known) op right
  | bytearray ref => exact endsInPlace_bytearray (of_decide_eq_true known) op right
  | set ref =>
      have admits_set : stage.Admits (SetKind.mutable.toValue ref) := admits
      exact endsInPlace_set sound same admits_set op right
  | frozenset ref =>
      have admits_set : stage.Admits (SetKind.frozen.toValue ref) := admits
      exact endsInPlace_set sound same admits_set op right
  | _ => exact endsInPlace_of_scalar (by simp [Value.kind, Kind.ownInplace]) op right world

end Stage

namespace Session

variable {context : Context} {session : Session} {left : Value}

/-- In every session that can come about, and between all values in it: an in-place operator agrees
with the plain one. -/
theorem inplace_agrees (honest : HonestHosts context.function?)
    (reachable : session.Reachable context) (has_left : left.isLiteral ∨ session.Has left)
    (op : BinaryOperator) (right : Value) : AgreesInPlace op left right session.world := by
  obtain ⟨stage, fits⟩ := reachable.exists_stage honest
  have admits : stage.Admits left := has_left.elim Stage.admits_of_isLiteral fits.admits
  exact .of_endings (Stage.endsInPlace fits.sound fits.store_eq admits op right)

/-- A list is repeated, and multiplied by nothing, and a frozenset is joined to itself. -/
theorem inplace_agrees_stocked :
    stocked.Reachable hosted ∧
      (outcome (Value.inplace .mul (.list ⟨0⟩) (.int 2)) stocked.world).1 = .ok (.list ⟨0⟩) ∧
      (outcome (Value.inplace .mul (.list ⟨0⟩) (.bool false)) stocked.world).1 = .ok (.list ⟨1⟩) ∧
      AgreesInPlace .mul (.list ⟨0⟩) (.int 2) stocked.world ∧
      AgreesInPlace .mul (.list ⟨0⟩) (.bool false) stocked.world ∧
      AgreesInPlace .or (.frozenset ⟨0⟩) (.frozenset ⟨0⟩) stocked.world := by
  have hand_stocked : stocked.hand = [.list ⟨0⟩, .frozenset ⟨0⟩] := by rfl
  have has_list : stocked.Has (.list ⟨0⟩) := .inl (by simp [hand_stocked])
  have has_frozenset : stocked.Has (.frozenset ⟨0⟩) := .inl (by simp [hand_stocked])
  exact ⟨reachable_stocked, rfl, rfl,
    inplace_agrees honestHosts_hosted reachable_stocked (.inr has_list) _ _,
    inplace_agrees honestHosts_hosted reachable_stocked (.inr has_list) _ _,
    inplace_agrees honestHosts_hosted reachable_stocked (.inr has_frozenset) _ _⟩

end Session
end ObjectModel
