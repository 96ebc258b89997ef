import ObjectModel.Builtin
import ObjectModel.Method
import ObjectModel.Proofs.Outcome
import ObjectModel.Store.Membership
import ObjectModel.Store.Order
import ObjectModel.Subscript

/-!
# The end of a sequence as a signal

A fault with the category of an ended sequence is a signal: loops over an iterator consume it.
Nothing that is read off the store and no check of arguments fails with it.
-/

namespace ObjectModel

variable {α β : Type}

/-- The result is anything but the signal that a sequence has ended. -/
def NoSignal (result : Except Fault α) : Prop :=
  ∀ fault, result = .error fault → fault.isEndOfSequence = false

theorem noSignal_ok (result : α) : NoSignal (.ok result) :=
  fun _ fails => nomatch fails

theorem noSignal_error {fault : Fault} (proper : fault.isEndOfSequence = false) :
    NoSignal (.error fault : Except Fault α) := by
  rintro _ ⟨⟩
  exact proper

theorem ne_endless_of_signal {fault : Fault} (signal : fault.isEndOfSequence) :
    fault ≠ .endless := by
  rintro rfl
  contradiction

theorem NoSignal.bind {first : Except Fault α} {next : α → Except Fault β}
    (first_proper : NoSignal first) (next_proper : ∀ result, NoSignal (next result)) :
    NoSignal (first >>= next) := by
  cases first with
  | ok result => exact next_proper result
  | error fault => exact noSignal_error (first_proper fault rfl)

theorem noSignal_mapM {f : α → Except Fault β} (items : List α)
    (proper : ∀ item, NoSignal (f item)) : NoSignal (items.mapM f) := by
  induction items with
  | nil => exact noSignal_ok _
  | cons item items induction =>
      rw [List.mapM_cons]
      exact (proper item).bind fun _ => induction.bind fun _ => noSignal_ok _

theorem noSignal_foldlM {f : β → α → Except Fault β} (items : List α)
    (proper : ∀ state item, NoSignal (f state item)) (state : β) :
    NoSignal (items.foldlM f state) := by
  induction items generalizing state with
  | nil => exact noSignal_ok _
  | cons item items induction =>
      rw [List.foldlM_cons]
      exact (proper state item).bind induction

theorem noSignal_filterM {f : α → Except Fault Bool} (items : List α)
    (proper : ∀ item, NoSignal (f item)) : NoSignal (items.filterM f) := by
  suffices aux : ∀ kept, NoSignal (items.filterAuxM f kept) from
    (aux []).bind fun _ => noSignal_ok _
  induction items with
  | nil => exact fun _ => noSignal_ok _
  | cons item items induction => exact fun _ => (proper item).bind fun _ => induction _

/-! ## Keys and tables -/

namespace Store

variable (store : Store)

theorem noSignal_hashWithin (depth : Nat) (value : Value) :
    NoSignal (store.hashWithin depth value) := by
  induction depth generalizing value with
  | zero => exact noSignal_error rfl
  | succ depth induction =>
      cases value with
      | tuple ref =>
          rw [hashWithin]
          exact (noSignal_mapM _ induction).bind fun _ => noSignal_ok _
      | _ => first | exact noSignal_ok _ | exact noSignal_error rfl

theorem noSignal_hash (value : Value) : NoSignal (store.hash value) :=
  store.noSignal_hashWithin store.depth value

theorem noSignal_lookup? (table : Table Value Value) (key : Value) :
    NoSignal (store.lookup? table key) :=
  ((store.noSignal_hash key).bind fun _ => noSignal_ok _).bind fun _ => noSignal_ok _

theorem noSignal_hasKey (table : Table Value Value) (key : Value) :
    NoSignal (store.hasKey table key) :=
  ((store.noSignal_hash key).bind fun _ => noSignal_ok _).bind fun _ => noSignal_ok _

theorem noSignal_insertKey (table : Table Value Value) (key value : Value) :
    NoSignal (store.insertKey table key value) :=
  (store.noSignal_hash key).bind fun _ => noSignal_ok _

theorem noSignal_eraseKey (table : Table Value Value) (key : Value) :
    NoSignal (store.eraseKey table key) := by
  refine (store.noSignal_hash key).bind fun hash => ?_
  cases table.erase? hash (store.equals · key) with
  | none => exact noSignal_error rfl
  | some _ => exact noSignal_ok _

theorem noSignal_tableOfElements (elements : List Value) :
    NoSignal (store.tableOfElements elements) :=
  noSignal_foldlM elements (fun table element => store.noSignal_insertKey table element element) ∅

theorem noSignal_tableOfPairs (pairs : List (Value × Value)) :
    NoSignal (store.tableOfPairs pairs) :=
  noSignal_foldlM pairs (fun table pair => store.noSignal_insertKey table pair.1 pair.2) ∅

theorem noSignal_elementsWhere (wanted : Bool) (left right : Ref) :
    NoSignal (store.elementsWhere wanted left right) :=
  noSignal_filterM _ fun item =>
    (store.noSignal_hasKey (store.table right) item).bind fun _ => noSignal_ok _

theorem noSignal_combineSets (operation : SetOperation) (left right : Ref) :
    NoSignal (store.combineSets operation left right) := by
  cases operation with
  | difference => exact store.noSignal_elementsWhere false left right
  | intersection => exact store.noSignal_elementsWhere true left right
  | symmetricDifference =>
      exact (store.noSignal_elementsWhere false left right).bind fun _ =>
        (store.noSignal_elementsWhere false right left).bind fun _ => noSignal_ok _
  | union => exact noSignal_ok _

end Store

/-! ## Sequences and subscripts -/

theorem noSignal_repeatCount (count : Value) : NoSignal (Sequence.repeatCount count) := by
  unfold Sequence.repeatCount
  repeat' split
  all_goals first | exact noSignal_ok _ | exact noSignal_error rfl

theorem noSignal_times {replicate : Nat → Except Fault α}
    (replicates : ∀ count, NoSignal (replicate count)) (count : Value) :
    NoSignal (Sequence.times replicate count) :=
  (noSignal_repeatCount count).bind replicates

theorem noSignal_replicate (memory : Memory) (size length : Nat) (items : List α) (count : Nat) :
    NoSignal (Sequence.replicate memory size length items count) := by
  unfold Sequence.replicate
  repeat' split
  all_goals first | exact noSignal_ok _ | exact noSignal_error rfl

theorem noSignal_byte? (item : Value) : NoSignal (Sequence.byte? item) := by
  unfold Sequence.byte?
  repeat' split
  all_goals first | exact noSignal_ok _ | exact noSignal_error rfl

theorem noSignal_itemAt (sequence : String) (items : List α) (index : Int) :
    NoSignal (itemAt sequence items index) := by
  have place : NoSignal (resolveIndex sequence items.length index) := by
    unfold resolveIndex
    dsimp only
    repeat' split
    all_goals first | exact noSignal_ok _ | exact noSignal_error rfl
  refine place.bind fun found => ?_
  split
  · exact noSignal_ok _
  · exact noSignal_error rfl

theorem noSignal_apply (slice : Slice) (items : List α) : NoSignal (slice.apply items) := by
  unfold Slice.apply
  dsimp only
  repeat' split
  all_goals first | exact noSignal_ok _ | exact noSignal_error rfl

/-! ## Membership and order -/

namespace Store

variable (store : Store)

theorem noSignal_bytesContain (bytes : List UInt8) (item : Value) :
    NoSignal (store.bytesContain bytes item) := by
  unfold bytesContain
  split
  · exact (noSignal_byte? _).bind fun _ => noSignal_ok _
  · exact (noSignal_byte? _).bind fun _ => noSignal_ok _
  · split
    · exact noSignal_ok _
    · exact noSignal_error rfl

theorem noSignal_contains (container item : Value) : NoSignal (store.contains container item) := by
  unfold Store.contains
  split
  case h_2 | h_3 | h_4 => exact store.noSignal_hasKey _ item
  case h_7 | h_8 => exact store.noSignal_bytesContain _ item
  case h_6 =>
    split
    · exact noSignal_ok _
    · exact noSignal_error rfl
  all_goals first | exact noSignal_ok _ | exact noSignal_error rfl

theorem noSignal_compareItems {compareItem : Value → Value → Except Fault Bool}
    (proper : ∀ left right, NoSignal (compareItem left right)) (differ : Value → Value → Bool)
    (op : Comparison) (left right : List Value) :
    NoSignal (compareItems compareItem differ op left right) := by
  unfold compareItems
  split
  · exact proper _ _
  · exact noSignal_ok _

theorem noSignal_orderWithin (depth : Nat) (op : Comparison) (left right : Value) :
    NoSignal (store.orderWithin depth op left right) := by
  induction depth generalizing left right with
  | zero => exact noSignal_error rfl
  | succ depth induction =>
      unfold orderWithin
      repeat' split
      all_goals
        first
        | exact noSignal_ok _
        | exact noSignal_error rfl
        | exact noSignal_compareItems induction _ op _ _

theorem noSignal_compare (op : Comparison) (left right : Value) :
    NoSignal (store.compare op left right) := by
  cases op <;> first | exact noSignal_ok _ | exact store.noSignal_orderWithin _ _ left right

end Store

/-! ## Arguments -/

theorem noSignal_onlyArgument (name : String) (arguments : List Value) :
    NoSignal (onlyArgument name arguments) := by
  unfold onlyArgument
  split
  · exact noSignal_ok _
  · exact noSignal_error rfl

theorem noSignal_noArguments (name : String) (arguments : List Value) :
    NoSignal (noArguments name arguments) := by
  unfold noArguments
  split
  · exact noSignal_ok _
  · exact noSignal_error rfl

theorem Frame.noSignal_arguments (frame : Frame) : NoSignal frame.arguments := by
  unfold Frame.arguments
  split
  · exact noSignal_ok _
  · exact noSignal_error rfl

theorem Frame.noSignal_onlyPositional (frame : Frame) (name : String) :
    NoSignal (frame.onlyPositional name) := by
  refine frame.noSignal_arguments.bind fun arguments => ?_
  split
  · exact noSignal_ok _
  · exact noSignal_error rfl

/-! ## Reports of sums and rejections of sets -/

theorem Fault.reportedBy_proper {fault : Fault} (proper : fault.isEndOfSequence = false)
    (report : SumReport) : (fault.reportedBy report).isEndOfSequence = false := by
  unfold reportedBy
  repeat' split
  all_goals first | exact proper | rfl

theorem Fault.reportedBy_eq_endless_iff (fault : Fault) (report : SumReport) :
    fault.reportedBy report = .endless ↔ fault = .endless := by
  cases report with
  | precise => exact Iff.rfl
  | uniform => simp [reportedBy]

theorem SetKind.rejection_proper (sort : SetKind) (op : BinaryOperator) (inplace : Bool)
    (other : Value) : (sort.rejection op inplace other).isEndOfSequence = false := by
  unfold SetKind.rejection
  repeat' split
  all_goals rfl

theorem SetKind.subscriptFault_proper (sort : SetKind) (index : Value) :
    (sort.subscriptFault index).isEndOfSequence = false := by
  unfold SetKind.subscriptFault
  repeat' split
  all_goals rfl

end ObjectModel
