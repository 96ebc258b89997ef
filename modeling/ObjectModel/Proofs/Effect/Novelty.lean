import ObjectModel.Proofs.Effect.Change
import ObjectModel.Proofs.Effect.Sparing

/-!
# New objects

What the operators, subscripts, copies and constructors make is new: the store that they began with
does not know its object. Objects are only ever added, so what is unknown at the end was unknown
from the beginning.
-/

namespace ObjectModel

open Effect

variable {α : Type}

/-- Whether a value is a list, a set of either kind or a byte array, which have storage of their
own. -/
def Value.ownsStorage : Value → Bool
  | .bytearray _ | .list _ | .set _ | .frozenset _ => true
  | _ => false

namespace Effect

/-- If an effect yields a value with storage of its own, that storage is new. -/
def MakesNew (effect : Effect Value) : Prop :=
  ∀ world result later, outcome effect world = (.ok result, later) → result.ownsStorage →
    world.store.knows result = false

theorem makesNew_pure {result : Value} (owns_none : result.ownsStorage = false) :
    MakesNew (pure result) := by
  rintro world _ later ⟨⟩ owns
  simp [owns_none] at owns

theorem makesNew_throw (fault : Fault) : MakesNew (throw fault) := by
  rintro world result later ⟨⟩

theorem MakesNew.bind {effect : Effect α} {next : α → Effect Value}
    (first : Spares (fun _ => False) effect) (rest : ∀ result, MakesNew (next result)) :
    MakesNew (effect >>= next) := by
  intro world result later ends owns
  have first_spares := first world
  rw [outcome_bind] at ends
  generalize outcome effect world = ending at first_spares ends
  obtain ⟨fault | made, between⟩ := ending
  · cases ends
  · have unknown := rest made between result later ends owns
    rw [← Bool.not_eq_true] at unknown ⊢
    exact fun known => unknown (first_spares.knows known)

theorem makesNew_newBytearray (bytes : List UInt8) : MakesNew (newBytearray bytes) := by
  rintro world _ later ⟨⟩ -
  exact decide_eq_false (Nat.lt_irrefl _)

theorem makesNew_newTuple (items : List Value) : MakesNew (newTuple items) := by
  rintro world _ later ⟨⟩ -
  exact decide_eq_false (Nat.lt_irrefl _)

theorem makesNew_newList (items : List Value) : MakesNew (newList items) := by
  rintro world _ later ⟨⟩ -
  exact decide_eq_false (Nat.lt_irrefl _)

/-- A table made for a set is new, and so is the set. -/
theorem makesNew_setOfTable (sort : SetKind) (table : Table Value Value) :
    MakesNew (do return sort.toValue (← newTable table)) := by
  rintro world _ later ⟨⟩ -
  cases sort <;> exact decide_eq_false (Nat.lt_irrefl _)

theorem makesNew_newSet (sort : SetKind) (elements : List Value) :
    MakesNew (newSet sort elements) :=
  .bind (spares_read _) fun table => makesNew_setOfTable sort table

end Effect

/-! ## Operators -/

theorem makesNew_concatenate (inplace : Bool) (left right : Value) :
    MakesNew (concatenate inplace left right) := by
  refine .bind spares_getStore fun store => ?_
  cases left with
  | str a => cases right <;> first | exact makesNew_pure rfl | exact makesNew_throw _
  | bytes a =>
      cases store.bytes? right with
      | some b => exact makesNew_pure rfl
      | none => exact makesNew_throw _
  | bytearray a =>
      cases store.bytes? right with
      | some b => exact makesNew_newBytearray _
      | none => exact makesNew_throw _
  | tuple a => cases right <;> first | exact makesNew_newTuple _ | exact makesNew_throw _
  | _ => exact makesNew_throw _

theorem makesNew_repeatSequence (notSequence : Fault) (sequence count : Value) :
    MakesNew (repeatSequence notSequence sequence count) := by
  refine .bind spares_getStore fun store => ?_
  cases sequence with
  | str text => exact .bind (spares_ofExcept _) fun _ => makesNew_pure rfl
  | bytes bytes => exact .bind (spares_ofExcept _) fun _ => makesNew_pure rfl
  | bytearray ref => exact .bind (spares_ofExcept _) makesNew_newBytearray
  | tuple ref => exact .bind (spares_ofExcept _) makesNew_newTuple
  | list ref => exact .bind (spares_ofExcept _) makesNew_newList
  | _ => exact makesNew_throw _

theorem makesNew_repetition (inplace : Bool) (left right : Value) :
    MakesNew (repetition inplace left right) := by
  unfold repetition
  dsimp only
  split
  · exact makesNew_repeatSequence _ right left
  · exact makesNew_repeatSequence _ left right

theorem makesNew_binaryScalar (op : BinaryOperator) (inplace : Bool) (left right : Value) :
    MakesNew (binaryScalar op inplace left right) := by
  unfold binaryScalar
  dsimp only
  split
  · split
    · refine makesNew_pure ?_
      cases Number.combine _ _ _ <;> rfl
    · exact makesNew_throw _
  · split
    · exact makesNew_concatenate inplace left right
    · exact makesNew_repetition inplace left right
    · exact makesNew_throw _

theorem makesNew_binaryList (ref : Ref) (op : BinaryOperator) (other : Value) :
    MakesNew (binaryList ref op other) := by
  unfold binaryList
  cases op with
  | add =>
      cases other with
      | list right =>
          exact .bind spares_getStore fun _ => .bind spares_getStore fun _ => makesNew_newList _
      | _ => exact makesNew_throw _
  | mul => exact makesNew_repeatSequence _ _ other
  | _ => exact makesNew_throw _

theorem makesNew_binarySet (sort : SetKind) (left : Ref) (op : BinaryOperator) (other : Value) :
    MakesNew (sort.binary left op other) := by
  unfold SetKind.binary
  split
  · exact .bind (spares_read _) (makesNew_newSet sort)
  · exact makesNew_throw _

theorem makesNew_binary (op : BinaryOperator) (left right : Value) :
    MakesNew (left.binary op right) := by
  unfold Value.binary
  split
  · exact makesNew_binaryList _ op right
  · exact makesNew_binarySet .mutable _ op right
  · exact makesNew_binarySet .frozen _ op right
  · exact makesNew_binaryScalar op false _ right

theorem makesNew_inplaceSet (sort : SetKind) (left : Ref) (op : BinaryOperator) (other : Value) :
    MakesNew (sort.inplace left op other) := by
  unfold SetKind.inplace
  split
  · refine .bind (spares_read _) fun elements => ?_
    dsimp only
    split
    · have adds : Routine (SparingAt {} fun _ => False) (fun _ => False) true fun _ =>
          addElements left elements := routine_addElements (fun _ _ => not_false) elements
      exact .bind adds.spares fun _ => makesNew_newSet sort elements
    · exact makesNew_newSet sort elements
  · exact makesNew_throw _

/-! ## Subscripts, copies and functions -/

theorem makesNew_subscript (config : Config) (container : Value) (slice : Slice) :
    MakesNew (container.subscript config (.slice slice)) := by
  refine .bind spares_getStore fun store => ?_
  cases container with
  | list ref => exact .bind (spares_ofExcept _) makesNew_newList
  | tuple ref => exact .bind (spares_ofExcept _) makesNew_newTuple
  | str text => exact .bind (spares_ofExcept _) fun _ => makesNew_pure rfl
  | bytes contents => exact .bind (spares_ofExcept _) fun _ => makesNew_pure rfl
  | bytearray ref => exact .bind (spares_ofExcept _) makesNew_newBytearray
  | dict ref =>
      have unhashable : store.lookup? (store.table ref) (.slice slice) =
          .error (.unhashable .slice) := rfl
      dsimp only
      rw [unhashable]
      exact makesNew_throw _
  | hostObject ref =>
      have missing : (store.record ref).find? (fun field =>
          (Value.slice slice).text? == some field.1) = none := by simp [Value.text?]
      dsimp only
      rw [missing]
      exact makesNew_throw _
  | _ => exact makesNew_throw _

theorem makesNew_callMethod (context : Context) (receiver : Value) (arguments : List Value) :
    MakesNew (receiver.callMethod context "copy" arguments) := by
  cases receiver with
  | list ref =>
      exact .bind (spares_ofExcept _) fun _ => .bind spares_getStore fun _ => makesNew_newList _
  | set ref =>
      exact .bind (spares_ofExcept _) fun _ => .bind spares_getStore fun _ =>
        makesNew_setOfTable .mutable _
  | frozenset ref =>
      exact .bind (spares_ofExcept _) fun _ => .bind spares_getStore fun _ =>
        makesNew_setOfTable .frozen _
  | _ => exact makesNew_throw _

section Functions

variable {next : Value → Effect Value}

theorem spares_collectItems {spared : Value → Prop}
    (steps : ∀ iterator, Effect.Spares spared (next iterator)) (source : Value) :
    Effect.Spares spared (collectItems next source) := by
  have routine : Routine (SparingAt {} spared) spared true fun _ => collectItems next source :=
    routine_collectItems (fun iterator => .foreign (steps iterator)) source
  exact routine.spares

theorem makesNew_listOf (steps : ∀ iterator, Effect.Spares (fun _ => False) (next iterator))
    (arguments : List Value) : MakesNew (listOf next arguments) := by
  refine .bind spares_getStore fun store => ?_
  split
  · exact makesNew_newList _
  · exact makesNew_newList _
  · exact makesNew_newList _
  · exact .bind (spares_collectItems steps _) makesNew_newList
  · exact makesNew_throw _

theorem makesNew_setOf (sort : SetKind)
    (steps : ∀ iterator, Effect.Spares (fun _ => False) (next iterator)) (arguments : List Value) :
    MakesNew (Effect.setOf sort next arguments) := by
  unfold Effect.setOf
  split
  · exact makesNew_newSet sort []
  · refine .bind spares_getStore fun store => ?_
    split
    · exact makesNew_newSet sort _
    · exact .bind (spares_collectItems steps _) (makesNew_newSet sort)
  · exact makesNew_throw _

theorem makesNew_runBytearray (frame : Frame) : MakesNew (Builtin.runBytearray frame) := by
  refine .bind (spares_ofExcept _) fun arguments => ?_
  split
  · refine .bind spares_getStore fun store => ?_
    split
    · exact makesNew_newBytearray _
    · exact makesNew_throw _
  · exact makesNew_throw _

end Functions

end ObjectModel
