import ObjectModel.Proofs.Iterator.Emptying
import ObjectModel.Proofs.Operation.Basic
import ObjectModel.Proofs.Repetition
import ObjectModel.Proofs.SetInPlace

/-!
# In-place operators

An in-place operator between two values comes to what the plain operator comes to, up to the object
that holds it. Lists and byte arrays take the new contents over and are the result themselves,
unless a list is multiplied by nothing. A list takes more on its right side than the plain operator
does.
-/

namespace ObjectModel

open Effect

/-- Whether an in-place operator that succeeds yields its left operand. -/
def BinaryOperator.yieldsReceiver (op : BinaryOperator) (left right : Value) : Bool :=
  match left, op with
  | .list _, .add | .bytearray _, .add | .bytearray _, .mul => true
  | .list _, .mul => right.integer?.any (1 ≤ ·)
  | _, _ => false

/-- Whether an in-place operator extends a list by what the plain operator does not join to it. -/
def BinaryOperator.extendsList (op : BinaryOperator) (left right : Value) : Bool :=
  left.kind == .list && op == .add && (right.kind == .tuple || right.kind == .str)

/-- The kinds that have in-place operators of their own. -/
def Kind.ownInplace : List Kind :=
  [.list, .set, .frozenset, .bytearray]

/-- How the plain operator and the in-place operator end in one world. -/
inductive EndsInPlace (op : BinaryOperator) (left right : Value) (world : World) :
    Except Fault Value × World → Except Fault Value × World → Prop
  /-- Both do the same. -/
  | same (ending : Except Fault Value × World) (other : left.kind ∉ Kind.ownInplace) :
      EndsInPlace op left right world ending ending
  /-- Both fail. -/
  | refused {fault cause : Fault} (made later : World) (refuses : op.extendsList left right = false)
      (category_eq : cause.category = fault.category) :
      EndsInPlace op left right world (.error fault, made) (.error cause, later)
  /-- A list is extended, but the operands cannot be joined. -/
  | extended (fault : Fault) (made : World) {later : World}
      (extends_list : op.extendsList left right) (yields : op.yieldsReceiver left right)
      (items_eq : later.store.items left = world.store.items left ++ world.store.items right) :
      EndsInPlace op left right world (.error fault, made) (.ok left, later)
  /-- The receiver gets the contents of the plain result. -/
  | changed {plain : Value} {made later : World} (yields : op.yieldsReceiver left right)
      (joins : op.extendsList left right = false) (kind_eq : left.kind = plain.kind)
      (holds : plain.holdsItems) (items_eq : later.store.items left = made.store.items plain) :
      EndsInPlace op left right world (.ok plain, made) (.ok left, later)
  /-- Both results are new. The receiver stays as it is, unless it is a set. -/
  | renewed {plain result : Value} {made later : World}
      (yields_new : op.yieldsReceiver left right = false)
      (joins : op.extendsList left right = false) (kind_eq : result.kind = plain.kind)
      (holds : plain.holdsItems) (items_eq : later.store.items result = made.store.items plain)
      (ne_receiver : result ≠ left)
      (keeps : left.kind = .set ∧ op ∈ Kind.set.inplaceOperators ∨
        world.store.Keeps later.store left) :
      EndsInPlace op left right world (.ok plain, made) (.ok result, later)

/-- An in-place operator agrees with the plain one in a world. -/
structure AgreesInPlace (op : BinaryOperator) (left right : Value) (world : World) : Prop where
  /-- If the plain operator succeeds, so does the one in place. The results are of the same kind and
  have the same items in the same order, or are the same value if that holds none. -/
  succeeds : ∀ plain made, outcome (Value.binary op left right) world = (.ok plain, made) →
    ∃ result later, outcome (Value.inplace op left right) world = (.ok result, later) ∧
      result.kind = plain.kind ∧ later.store.items result = made.store.items plain ∧
        (plain.holdsItems ∨ result = plain)
  /-- If the plain operator fails, so does the one in place, with a fault of the same category. -/
  fails : ∀ fault made, outcome (Value.binary op left right) world = (.error fault, made) →
    op.extendsList left right = false →
      ∃ cause later, outcome (Value.inplace op left right) world = (.error cause, later) ∧
        cause.category = fault.category
  /-- The exception is a list that is extended by the items of a tuple or a text. -/
  extends_list : op.extendsList left right → ∃ fault made later,
    outcome (Value.binary op left right) world = (.error fault, made) ∧
      outcome (Value.inplace op left right) world = (.ok left, later) ∧
        later.store.items left = world.store.items left ++ world.store.items right
  /-- Whether the result is the receiver depends on the operator and the right operand alone. -/
  result_eq : left.kind ∈ Kind.ownInplace → ∀ result later,
    outcome (Value.inplace op left right) world = (.ok result, later) →
      (result = left ↔ op.yieldsReceiver left right)
  /-- If it is not, the receiver stays as it is, apart from three operators on sets. -/
  keeps : left.kind ∈ Kind.ownInplace → ∀ result later,
    outcome (Value.inplace op left right) world = (.ok result, later) → result ≠ left →
      ¬(left.kind = .set ∧ op ∈ Kind.set.inplaceOperators) → world.store.Keeps later.store left

variable {op : BinaryOperator} {left right : Value} {world : World}

theorem BinaryOperator.kind_eq_of_extendsList (extends_list : op.extendsList left right) :
    left.kind = .list := by
  simp only [extendsList, Bool.and_eq_true, beq_iff_eq] at extends_list
  exact extends_list.1.1

theorem AgreesInPlace.of_endings (endings : EndsInPlace op left right world
    (outcome (Value.binary op left right) world) (outcome (Value.inplace op left right) world)) :
    AgreesInPlace op left right world where
  succeeds plain made binary_eq := by
    rw [binary_eq] at endings
    generalize outcome (Value.inplace op left right) world = ending at endings ⊢
    cases endings with
    | same => exact ⟨_, _, rfl, rfl, rfl, .inr rfl⟩
    | changed _ _ kind_eq holds items_eq => exact ⟨_, _, rfl, kind_eq, items_eq, .inl holds⟩
    | renewed _ _ kind_eq holds items_eq => exact ⟨_, _, rfl, kind_eq, items_eq, .inl holds⟩
  fails fault made binary_eq refuses := by
    rw [binary_eq] at endings
    generalize outcome (Value.inplace op left right) world = ending at endings ⊢
    cases endings with
    | same => exact ⟨_, _, rfl, rfl⟩
    | refused _ _ _ category_eq => exact ⟨_, _, rfl, category_eq⟩
    | extended _ _ extends_list => exact absurd extends_list (Bool.eq_false_iff.mp refuses)
  extends_list extends_list := by
    have joins := Bool.eq_false_iff.not.mpr (not_not.mpr extends_list)
    generalize outcome (Value.binary op left right) world = plain at endings ⊢
    generalize outcome (Value.inplace op left right) world = ending at endings ⊢
    cases endings with
    | same _ other =>
        rw [BinaryOperator.kind_eq_of_extendsList extends_list] at other
        exact absurd (by decide) other
    | refused _ _ refuses => exact absurd refuses joins
    | extended _ _ _ _ items_eq => exact ⟨_, _, _, rfl, rfl, items_eq⟩
    | changed _ refuses => exact absurd refuses joins
    | renewed _ refuses => exact absurd refuses joins
  result_eq own result later inplace_eq := by
    rw [inplace_eq] at endings
    generalize outcome (Value.binary op left right) world = plain at endings
    cases endings with
    | same _ other => exact absurd own other
    | extended _ _ _ yields => exact iff_of_true rfl yields
    | changed yields => exact iff_of_true rfl yields
    | renewed yields_new _ _ _ _ ne_receiver =>
        exact iff_of_false ne_receiver (Bool.eq_false_iff.mp yields_new)
  keeps own result later inplace_eq ne_receiver no_update := by
    rw [inplace_eq] at endings
    generalize outcome (Value.binary op left right) world = plain at endings
    cases endings with
    | same _ other => exact absurd own other
    | extended => exact absurd rfl ne_receiver
    | changed => exact absurd rfl ne_receiver
    | renewed _ _ _ _ _ _ keeps => exact keeps.resolve_left no_update

/-! ## Operators for numbers and constant sequences -/

/-- Two effects do the same in a world, or they fail with faults of one category. -/
def EndAlike (first second : Effect Value) (world : World) : Prop :=
  outcome first world = outcome second world ∨
    ∃ fault cause made later, outcome first world = (.error fault, made) ∧
      outcome second world = (.error cause, later) ∧ cause.category = fault.category

theorem endAlike_concatenate (left right : Value) (world : World) :
    EndAlike (concatenate false left right) (concatenate true left right) world := by
  cases left with
  | str =>
      cases right with
      | str => exact .inl rfl
      | _ => exact .inr ⟨_, _, _, _, rfl, rfl, rfl⟩
  | bytes | bytearray =>
      cases right with
      | bytes | bytearray => exact .inl rfl
      | _ => exact .inr ⟨_, _, _, _, rfl, rfl, rfl⟩
  | tuple =>
      cases right with
      | tuple => exact .inl rfl
      | _ => exact .inl rfl
  | _ => exact .inr ⟨_, _, _, _, rfl, rfl, rfl⟩

theorem endAlike_repeatSequence (fault cause : Fault)
    (category_eq : cause.category = fault.category) (sequence count : Value) (world : World) :
    EndAlike (repeatSequence fault sequence count) (repeatSequence cause sequence count) world := by
  cases sequence with
  | str | bytes | bytearray | tuple | list => exact .inl rfl
  | _ => exact .inr ⟨_, _, _, _, rfl, rfl, category_eq⟩

theorem endAlike_repetition (left right : Value) (world : World) :
    EndAlike (repetition false left right) (repetition true left right) world := by
  rw [repetition, repetition]
  split
  · exact endAlike_repeatSequence _ _ (by rfl) right left world
  · exact endAlike_repeatSequence _ _ (by rfl) left right world

theorem endAlike_binaryScalar (op : BinaryOperator) (left right : Value) (world : World) :
    EndAlike (binaryScalar op false left right) (binaryScalar op true left right) world := by
  unfold binaryScalar
  split
  · cases Number.Operation.ofOp? op with
    | none => exact .inr ⟨_, _, _, _, rfl, rfl, rfl⟩
    | some operation => exact .inl rfl
  · cases op with
    | add => exact endAlike_concatenate left right world
    | mul => exact endAlike_repetition left right world
    | _ => exact .inr ⟨_, _, _, _, rfl, rfl, rfl⟩

theorem endsInPlace_of_scalar (other : left.kind ∉ Kind.ownInplace) (op : BinaryOperator)
    (right : Value) (world : World) :
    EndsInPlace op left right world (outcome (Value.binary op left right) world)
      (outcome (Value.inplace op left right) world) := by
  have not_list : op.extendsList left right = false := by
    rw [Bool.eq_false_iff]
    intro extends_list
    rw [BinaryOperator.kind_eq_of_extendsList extends_list] at other
    exact absurd (by decide) other
  obtain ⟨binary_eq, inplace_eq⟩ : Value.binary op left right = binaryScalar op false left right ∧
      Value.inplace op left right = binaryScalar op true left right := by
    cases left <;> first | exact ⟨rfl, rfl⟩ | simp [Value.kind, Kind.ownInplace] at other
  rw [binary_eq, inplace_eq]
  rcases endAlike_binaryScalar op left right world with
    same | ⟨_, _, _, _, refuses, refuses_too, alike⟩
  · rw [same]
    exact .same _ other
  · rw [refuses, refuses_too]
    exact .refused _ _ not_list alike

/-! ## Byte arrays and lists -/

section Receivers

variable {ref : Ref}

theorem endsInPlace_bytearray (known : ref.index < world.store.buffers.size) (op : BinaryOperator)
    (right : Value) :
    EndsInPlace op (.bytearray ref) right world
      (outcome (Value.binary op (.bytearray ref) right) world)
      (outcome (Value.inplace op (.bytearray ref) right) world) := by
  have items_eq (bytes : List UInt8) :
      ((world.store.buffers.set ref bytes).get ref).map Value.byte =
        ((world.store.buffers.push bytes).get world.store.buffers.next).map Value.byte := by
    rw [Pool.get_set_self _ _ known, Pool.get_push_next]
  cases op with
  | add =>
      cases right with
      | bytes | bytearray => exact .changed rfl rfl rfl rfl (items_eq _)
      | _ => exact .refused _ _ rfl rfl
  | mul =>
      rw [outcome_binary_mul_bytearray, outcome_inplace_mul_bytearray]
      cases Sequence.times (world.store.replicateBytes (world.store.buffer ref)) right with
      | ok bytes => exact .changed rfl rfl rfl rfl (items_eq bytes)
      | error fault => exact .refused _ _ rfl rfl
  | _ => exact .refused _ _ rfl rfl

theorem endsInPlace_list (known : ref.index < world.store.lists.size) (op : BinaryOperator)
    (right : Value) :
    EndsInPlace op (.list ref) right world
      (outcome (Value.binary op (.list ref) right) world)
      (outcome (Value.inplace op (.list ref) right) world) := by
  have elsewhere : ref ≠ world.store.lists.next := by
    rintro rfl
    exact Nat.lt_irrefl _ known
  have after_set (items : List Value) : (world.store.lists.set ref items).get ref = items :=
    Pool.get_set_self _ _ known
  have after_push (items : List Value) :
      (world.store.lists.push items).get world.store.lists.next = items := Pool.get_push_next _ _
  cases op with
  | add =>
      cases right with
      | list other =>
          exact .changed rfl rfl rfl rfl ((after_set _).trans (after_push _).symm)
      | tuple | str => exact .extended _ _ rfl rfl (after_set _)
      | _ => exact .refused _ _ rfl rfl
  | mul =>
      rw [outcome_binary_mul_list]
      cases counts : Sequence.repeatCount right with
      | error fault =>
          rw [outcome_inplace_mul_list_of_no_count ref counts,
            Sequence.times_of_no_count counts]
          exact .refused _ _ rfl rfl
      | ok count =>
          have yields : BinaryOperator.yieldsReceiver .mul (.list ref) right = (count != 0) :=
            Sequence.integer?_any_of_count counts
          rw [outcome_inplace_mul_list ref counts, Sequence.times_of_count counts]
          by_cases no_count : count = 0
          · subst no_count
            have repeats : world.store.replicateValues (world.store.list ref) 0 = .ok [] := by
              rw [Store.replicateValues, Sequence.replicate, if_pos (by simp)]
            rw [repeats, if_pos rfl]
            exact .renewed yields rfl rfl rfl rfl
              (fun same => elsewhere (Value.list.inj same).symm)
              (.inr (Pool.get_push_of_ne _ _ elsewhere))
          · rw [if_neg no_count]
            cases world.store.replicateValues (world.store.list ref) count with
            | ok items =>
                exact .changed (yields.trans (bne_iff_ne.mpr no_count)) rfl rfl rfl
                  ((after_set items).trans (after_push items).symm)
            | error fault => exact .refused _ _ rfl rfl
  | _ => exact .refused _ _ rfl rfl

end Receivers

end ObjectModel
