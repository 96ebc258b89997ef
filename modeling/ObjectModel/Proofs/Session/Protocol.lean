import ObjectModel.Method
import ObjectModel.Proofs.Effect.Change
import ObjectModel.Proofs.Selection
import ObjectModel.Proofs.Session.Yield
import ObjectModel.Subscript

/-!
# The value protocol at a stage

Every operation of the value protocol on what a stage admits leads to a later stage, which admits
its result. For what an operation takes out of an object this is the soundness of the stage, and
what it puts into one is admitted.
-/

namespace ObjectModel
namespace Stage

open Effect

variable {stage : Stage} {left right source : Value}

/-! ## Operators -/

theorem yields_newSet (sort : SetKind) {elements : List Value} (admits : stage.AdmitsAll elements) :
    stage.Yields (newSet sort elements) Admits :=
  yields_read_bind fun _ table makes =>
    (yields_newTable sort.kind (fitsTable_of_elements admits makes)).bind
      fun _ _ _ admits_table => yields_pure (admits_table _ (by simp) (by simp))

theorem yields_concatenate (inplace : Bool) (left right : Value) :
    stage.Yields (concatenate inplace left right) Admits := by
  refine yields_getStore_bind fun sound => ?_
  cases left with
  | str a => cases right <;>
      first | exact yields_pure (admits_of_plain (fun _ => rfl) rfl) | exact yields_throw _
  | bytes a =>
      cases stage.store.bytes? right with
      | some b => exact yields_pure (admits_of_plain (fun _ => rfl) rfl)
      | none => exact yields_throw _
  | bytearray a =>
      cases stage.store.bytes? right with
      | some b => exact yields_newBytearray _
      | none => exact yields_throw _
  | tuple a =>
      cases right with
      | tuple b => exact yields_newTuple ((sound.tuples a).append (sound.tuples b))
      | _ => exact yields_throw _
  | _ => exact yields_throw _

/-- A repetition of admitted items. -/
theorem yields_replicateValues_bind {items : List Value} {count : Value}
    {next : List Value → Effect Value} (admits : stage.AdmitsAll items)
    (rest : ∀ picked, stage.AdmitsAll picked → stage.Yields (next picked) Admits) :
    stage.Yields (ofExcept (Sequence.times (stage.store.replicateValues items) count) >>= next)
      Admits := by
  refine yields_ofExcept_bind fun picked repeats => rest picked ?_
  obtain ⟨count, -, repeats⟩ := bind_eq_ok_iff.mp repeats
  exact admits.subset (Sequence.replicate_subset repeats)

theorem yields_repeatSequence (notSequence : Fault) (sequence count : Value) :
    stage.Yields (repeatSequence notSequence sequence count) Admits := by
  refine yields_getStore_bind fun sound => ?_
  cases sequence with
  | str text =>
      exact yields_ofExcept_bind fun _ _ => yields_pure (admits_of_plain (fun _ => rfl) rfl)
  | bytes bytes =>
      exact yields_ofExcept_bind fun _ _ => yields_pure (admits_of_plain (fun _ => rfl) rfl)
  | bytearray ref => exact yields_ofExcept_bind fun _ _ => yields_newBytearray _
  | tuple ref => exact yields_replicateValues_bind (sound.tuples ref) fun _ => yields_newTuple
  | list ref => exact yields_replicateValues_bind (sound.lists ref) fun _ => yields_newList
  | _ => exact yields_throw _

theorem yields_binaryScalar (op : BinaryOperator) (inplace : Bool) (left right : Value) :
    stage.Yields (binaryScalar op inplace left right) Admits := by
  unfold binaryScalar
  dsimp only
  split
  · split
    · exact yields_pure (admits_number _)
    · exact yields_throw _
  · split
    · exact yields_concatenate inplace left right
    · unfold repetition
      dsimp only
      split <;> exact yields_repeatSequence _ _ _
    · exact yields_throw _

theorem yields_binaryList (ref : Ref) (op : BinaryOperator) (other : Value) :
    stage.Yields (binaryList ref op other) Admits := by
  unfold binaryList
  cases op with
  | add =>
      cases other with
      | list right =>
          exact yields_getStore_bind fun _ => yields_getStore_bind fun sound =>
            yields_newList ((sound.lists ref).append (sound.lists right))
      | _ => exact yields_throw _
  | mul => exact yields_repeatSequence _ _ other
  | _ => exact yields_throw _

theorem Sound.admitsAll_combineSets (sound : stage.Sound) {operation : SetOperation}
    {left right : Ref} {elements : List Value}
    (combines : stage.store.combineSets operation left right = .ok elements) :
    stage.AdmitsAll elements :=
  ((sound.admitsAll_elements left).append (sound.admitsAll_elements right)).subset
    (Store.combineSets_subset combines)

theorem yields_binarySet (sort : SetKind) (left : Ref) (op : BinaryOperator) (other : Value) :
    stage.Yields (sort.binary left op other) Admits := by
  unfold SetKind.binary
  split
  · exact yields_read_bind fun sound _ combines =>
      yields_newSet sort (sound.admitsAll_combineSets combines)
  · exact yields_throw _

theorem yields_binary (op : BinaryOperator) (left right : Value) :
    stage.Yields (left.binary op right) Admits := by
  unfold Value.binary
  split
  · exact yields_binaryList _ op right
  · exact yields_binarySet .mutable _ op right
  · exact yields_binarySet .frozen _ op right
  · exact yields_binaryScalar op false _ right

theorem yields_unary (op : UnaryOperator) (operand : Value) :
    stage.Yields (operand.unary op) Admits := by
  unfold Value.unary
  dsimp only
  split
  · exact yields_getStore_bind fun _ => yields_pure (admits_of_plain (fun _ => rfl) rfl)
  · exact yields_pure (admits_number _)
  all_goals first | exact yields_pure (admits_of_plain (fun _ => rfl) rfl) | exact yields_throw _

/-! ## Changes -/

theorem yields_extendList (ref : Ref) {items : List Value} (admits : stage.AdmitsAll items) :
    stage.Yields (extendList ref items) fun _ _ => True :=
  yields_getStore_bind fun sound => yields_setList ref ((sound.lists ref).append admits)

theorem yields_inplaceList {ref : Ref} (admits : stage.Admits (.list ref)) (op : BinaryOperator)
    (other : Value) : stage.Yields (inplaceList ref op other) Admits := by
  refine yields_getStore_bind fun sound => ?_
  cases op with
  | add =>
      have extends_by {items : List Value} (admits_items : stage.AdmitsAll items) :
          stage.Yields (extendList ref items >>= fun _ => pure (.list ref)) Admits :=
        (yields_extendList ref admits_items).bind fun _ _ precedes _ =>
          yields_pure (admits.kept precedes)
      cases other with
      | list right => exact extends_by (sound.lists right)
      | tuple right => exact extends_by (sound.tuples right)
      | str text => exact extends_by (admitsAll_chars text)
      | _ => exact yields_throw_bind _
  | mul =>
      have repeats (count : Nat) : stage.Yields
          (if count = 0 then newList []
          else do
            setList ref (← ofExcept (stage.store.replicateValues (stage.store.list ref) count))
            return .list ref) Admits := by
        split
        · exact yields_newList nofun
        · refine yields_ofExcept_bind fun picked repeats => ?_
          have admits_picked := (sound.lists ref).subset (Sequence.replicate_subset repeats)
          exact (yields_setList ref admits_picked).bind fun _ _ precedes _ =>
            yields_pure (admits.kept precedes)
      cases other with
      | bool b =>
          cases b with
          | true => exact yields_pure admits
          | false => exact yields_newList nofun
      | _ => exact yields_ofExcept_bind fun count _ => repeats count
  | _ => exact yields_throw _

theorem yields_inplaceBytearray {ref : Ref} (admits : stage.Admits (.bytearray ref))
    (op : BinaryOperator) (other : Value) :
    stage.Yields (inplaceBytearray ref op other) Admits := by
  refine yields_getStore_bind fun sound => ?_
  have replaces (bytes : List UInt8) :
      stage.Yields (setBuffer ref bytes >>= fun _ => pure (.bytearray ref)) Admits :=
    (yields_setBuffer ref bytes).bind fun _ _ precedes _ => yields_pure (admits.kept precedes)
  split
  · exact replaces _
  · split
    · exact yields_binaryScalar _ _ _ _
    · exact yields_ofExcept_bind fun _ _ => replaces _
  · exact yields_binaryScalar _ _ _ _

theorem yields_setKey (ref : Ref) {key value : Value} (admits_key : stage.Admits key)
    (admits_value : stage.Admits value) :
    stage.Yields (setKey ref key value) fun _ _ => True :=
  yields_read_bind fun sound _ inserts =>
    yields_setTable ref ((sound.tables ref).insertKey inserts admits_key admits_value)

theorem yields_removeElement (ref : Ref) (element : Value) :
    stage.Yields (removeElement ref element) fun _ _ => True :=
  yields_read_bind fun sound _ erases =>
    yields_setTable ref ((sound.tables ref).eraseKey erases)

theorem yields_addElements (ref : Ref) {elements : List Value}
    (admits : stage.AdmitsAll elements) :
    stage.Yields (addElements ref elements) fun _ _ => True := by
  induction elements generalizing stage with
  | nil => exact yields_pure trivial
  | cons element elements induction =>
      rw [AdmitsAll, List.forall_mem_cons] at admits
      rw [addElements_cons]
      exact (yields_setKey ref admits.1 admits.1).bind fun later _ precedes _ =>
        induction (AdmitsAll.kept admits.2 precedes)

theorem Sound.admitsAll_setSource (sound : stage.Sound) {elements : List Value}
    (holds : stage.store.setSource? source = some elements) : stage.AdmitsAll elements := by
  cases source <;> first | contradiction | obtain rfl := Option.some.inj holds
  case set ref | frozenset ref => exact sound.admitsAll_elements ref
  case list ref => exact sound.lists ref
  case tuple ref => exact sound.tuples ref
  case str text => exact admitsAll_chars text

theorem yields_updateSet (ref : Ref) (source : Value) :
    stage.Yields (updateSet ref source) fun _ _ => True := by
  refine yields_getStore_bind fun sound => ?_
  cases holds : stage.store.setSource? source with
  | some elements => exact yields_addElements ref (sound.admitsAll_setSource holds)
  | none => exact yields_throw _

theorem yields_inplaceSet (sort : SetKind) (left : Ref) (op : BinaryOperator) (other : Value) :
    stage.Yields (sort.inplace left op other) Admits := by
  unfold SetKind.inplace
  split
  · refine yields_read_bind fun sound elements combines => ?_
    have admits := sound.admitsAll_combineSets combines
    dsimp only
    split
    · exact (yields_addElements left admits).bind fun _ _ precedes _ =>
        yields_newSet sort (admits.kept precedes)
    · exact yields_newSet sort admits
  · exact yields_throw _

theorem yields_inplace (op : BinaryOperator) (admits : stage.Admits left) (right : Value) :
    stage.Yields (left.inplace op right) Admits := by
  unfold Value.inplace
  split
  · exact yields_inplaceList admits op right
  · exact yields_inplaceSet .mutable _ op right
  · exact yields_inplaceSet .frozen _ op right
  · exact yields_inplaceBytearray admits op right
  · exact yields_binaryScalar op true _ right

/-! ## Subscripts -/

theorem yields_subscriptSequence {α : Type} (edition : Edition) (sequence : String)
    {items : List α} {one : α → Value} {many : List α → Effect Value}
    (admits_one : ∀ item ∈ items, stage.Admits (one item))
    (yields_many : ∀ picked ⊆ items, stage.Yields (many picked) Admits) (index : Value) :
    stage.Yields (subscriptSequence edition sequence items one many index) Admits := by
  unfold subscriptSequence
  split
  · exact yields_ofExcept_bind fun picked selects => yields_many picked (Slice.apply_subset selects)
  · split
    · exact yields_ofExcept_bind fun item finds =>
        yields_pure (admits_one item (mem_of_itemAt finds))
    · exact yields_throw _

theorem yields_subscript (config : Config) (container index : Value) :
    stage.Yields (container.subscript config index) Admits := by
  refine yields_getStore_bind fun sound => ?_
  cases container with
  | list ref =>
      exact yields_subscriptSequence _ _ (sound.lists ref)
        (fun _ subset => yields_newList ((sound.lists ref).subset subset)) index
  | tuple ref =>
      exact yields_subscriptSequence _ _ (sound.tuples ref)
        (fun _ subset => yields_newTuple ((sound.tuples ref).subset subset)) index
  | str text =>
      exact yields_subscriptSequence _ _ (fun _ _ => admits_of_plain (fun _ => rfl) rfl)
        (fun _ _ => yields_pure (admits_of_plain (fun _ => rfl) rfl)) index
  | bytes contents =>
      exact yields_subscriptSequence _ _ (fun _ _ => admits_of_plain (fun _ => rfl) rfl)
        (fun _ _ => yields_pure (admits_of_plain (fun _ => rfl) rfl)) index
  | bytearray ref =>
      exact yields_subscriptSequence _ _ (fun _ _ => admits_of_plain (fun _ => rfl) rfl)
        (fun _ _ => yields_newBytearray _) index
  | dict ref =>
      refine yields_ofExcept_bind fun found looks_up => ?_
      cases found with
      | none => exact yields_throw _
      | some value =>
          obtain ⟨entry, finds, same⟩ := bind_eq_ok_iff.mp looks_up
          obtain ⟨entry, rfl, rfl⟩ := Option.map_eq_some_iff.mp (Except.ok.inj same)
          exact yields_pure ((sound.tables ref).values entry (Store.mem_of_entryFor? finds))
  | hostObject ref =>
      dsimp only
      split
      · rename_i field finds
        exact yields_pure (sound.records ref field (List.mem_of_find?_eq_some finds))
      · exact yields_throw _
  | _ => exact yields_throw _

/-! ## Iteration -/

theorem yields_iter (admits : stage.Admits source) : stage.Yields source.iter Admits := by
  refine yields_getStore_bind fun sound => ?_
  have opens (table : Ref) {make : Ref → Value}
      (admits_all : ∀ (later : Stage) cursor, later.Admits (make cursor)) :
      stage.Yields (newKeyCursor table >>= fun cursor => pure (make cursor)) Admits :=
    (yields_newKeyCursor table).bind fun later cursor _ _ => yields_pure (admits_all later cursor)
  cases source with
  | list ref => exact yields_newListIterator ref
  | set ref => exact opens ref fun _ _ => admits_of_plain (fun _ => rfl) rfl
  | frozenset ref => exact opens ref fun _ _ => admits_of_plain (fun _ => rfl) rfl
  | dict ref => exact opens ref fun _ _ => admits_of_plain (fun _ => rfl) rfl
  | tuple ref => exact yields_newSeqIterator (sound.tuples ref)
  | str text => exact yields_newSeqIterator (admitsAll_chars text)
  | bytes contents => exact yields_newSeqIterator (admitsAll_bytes contents)
  | bytearray ref => exact yields_newSeqIterator (admitsAll_bytes _)
  | _ => first | exact yields_pure admits | exact yields_throw _

theorem yields_nextInList (ref : Ref) : stage.Yields (nextInList ref) Admits := by
  refine yields_getStore_bind fun sound => ?_
  dsimp only
  split
  · rename_i item found
    have admits : stage.Admits item := sound.lists _ item (List.mem_of_getElem? found)
    exact (yields_modifyStore (stage.store.spares_setListCursor _ _) fun precedes sound =>
      { sound.covers_kept precedes with }).bind fun _ _ precedes _ =>
        yields_pure (admits.kept precedes)
  · exact yields_throw _

theorem yields_nextInTable (ref : Ref) : stage.Yields (nextInTable ref) Admits := by
  refine yields_getStore_bind fun sound => ?_
  dsimp only
  split
  · rename_i slot entry found
    have is_entry := Table.mem_entries.mpr ⟨slot, (Table.firstFrom?_spec found).1⟩
    have admits := ((sound.tables _).keys _ (List.mem_map_of_mem is_entry)).1
    exact (yields_modifyStore (stage.store.spares_setKeyCursor _ _) fun precedes sound =>
      { sound.covers_kept precedes with }).bind fun _ _ precedes _ =>
        yields_pure (admits.kept precedes)
  · exact yields_throw _

theorem yields_nextInSequence (ref : Ref) : stage.Yields (nextInSequence ref) Admits := by
  refine yields_getStore_bind fun sound => ?_
  have admits := sound.sequenceCursors ref
  split
  · rename_i item rest ahead
    rw [ahead, AdmitsAll, List.forall_mem_cons] at admits
    refine (yields_modifyStore (stage.store.spares_setSequenceCursor _ _) fun precedes sound => ?_
      ).bind fun _ _ precedes _ => yields_pure (admits.1.kept precedes)
    have covers := sound.covers_kept precedes
    exact { covers with
      sequenceCursors := covers.sequenceCursors.set ref (AdmitsAll.kept admits.2 precedes) }
  · exact yields_throw _

theorem yields_sourceIterator (ref : Ref) : stage.Yields (sourceIterator ref) Admits := by
  refine yields_getStore_bind fun sound => ?_
  have fits := sound.mappings ref
  dsimp only
  split
  · rename_i iterator opened
    exact yields_pure (fits.iterator iterator opened)
  · refine (yields_iter fits.source).bind fun middle iterator precedes admits => ?_
    refine (yields_modifyStore (middle.store.spares_setMapping _ _) fun follows sound => ?_
      ).bind fun _ _ follows _ => yields_pure (admits.kept follows)
    have covers := sound.covers_kept follows
    have resolved : FitsMapping _
        { stage.store.mappings.get ref with iterator := some iterator } :=
      { fits.kept (precedes.trans follows) with
        iterator := by
          rintro _ ⟨⟩
          exact admits.kept follows }
    exact { covers with mappings := covers.mappings.set ref resolved }

end Stage
end ObjectModel
