import ObjectModel.Proofs.Effect.Call
import ObjectModel.Proofs.Operation.Basic

/-!
# Changes are routines

In-place operators, methods and the operations of a host on maps and sets are routines that spare
all but one object. The kind of the receiver and the operator or the name of the method tell whether
it is that object.
-/

namespace ObjectModel

open Effect

variable {admitted : (α : Type) → (Config → Effect α) → Prop} {spared : Value → Prop}
  {signals : Bool} {α : Type}

/-! ## Changes -/

theorem routine_setBuffer {ref : Ref} (not_spared : ¬spared (.bytearray ref))
    (bytes : List UInt8) : Routine admitted spared signals fun _ => setBuffer ref bytes :=
  .modifyStore _ (fun _ => .setBuffer ref bytes) fun store =>
    ⟨store.spares_setBuffer bytes not_spared, Store.opensOver_of_mappings_eq rfl⟩

theorem routine_setList {ref : Ref} (not_spared : ¬spared (.list ref)) (items : List Value) :
    Routine admitted spared signals fun _ => setList ref items :=
  .modifyStore _ (fun _ => .setList ref items) fun store =>
    ⟨store.spares_setList items not_spared, Store.opensOver_of_mappings_eq rfl⟩

theorem routine_extendList {ref : Ref} (not_spared : ¬spared (.list ref)) (items : List Value) :
    Routine admitted spared signals fun _ => extendList ref items :=
  .bind .getStore fun _ => routine_setList not_spared _

theorem routine_inplaceList {ref : Ref} {op : BinaryOperator}
    (not_spared : op ∈ Kind.list.inplaceOperators → ¬spared (.list ref)) (other : Value) :
    Routine admitted spared signals fun _ => inplaceList ref op other := by
  refine .bind .getStore fun store => ?_
  cases op with
  | add =>
      have extends_by (items : List Value) : Routine admitted spared signals fun _ =>
          (extendList ref items >>= fun _ => pure (.list ref) : Effect Value) :=
        .bind (routine_extendList (not_spared (by decide)) items) fun _ => .pure _
      cases other with
      | list right => exact extends_by _
      | tuple right => exact extends_by _
      | str text => exact extends_by _
      | _ => exact .bind (.throw rfl) fun _ => .pure _
  | mul =>
      have repeats (count : Nat) : Routine admitted spared signals fun _ =>
          (if count = 0 then newList []
          else do
            setList ref (← ofExcept (store.replicateValues (store.list ref) count))
            return .list ref : Effect Value) := by
        by_cases zero : count = 0
        · simp only [zero, if_true]
          exact routine_newList []
        · simp only [zero, if_false]
          exact .bind (.ofExcept (noSignal_replicate _ _ _ _ count)) fun _ =>
            .bind (routine_setList (not_spared (by decide)) _) fun _ => .pure _
      cases other with
      | bool b =>
          cases b with
          | true => exact .pure _
          | false => exact routine_newList []
      | _ => exact .bind (.ofExcept (noSignal_repeatCount _)) repeats
  | _ => exact .throw rfl

theorem routine_inplaceBytearray {ref : Ref} {op : BinaryOperator}
    (not_spared : op ∈ Kind.bytearray.inplaceOperators → ¬spared (.bytearray ref))
    (other : Value) :
    Routine admitted spared signals fun _ => inplaceBytearray ref op other := by
  refine .bind .getStore fun store => ?_
  cases op with
  | add =>
      cases store.bytes? other with
      | none => exact routine_binaryScalar _ _ _ _
      | some tail =>
          exact .bind (routine_setBuffer (not_spared (by decide)) _) fun _ => .pure _
  | mul =>
      by_cases is_sequence : other.isOneOf KindSet.sequences = true
      · simp only [is_sequence, if_true]
        exact routine_binaryScalar _ _ _ _
      · simp only [is_sequence, Bool.false_eq_true, if_false]
        exact .bind (.ofExcept (noSignal_times (noSignal_replicate _ _ _ _) other)) fun _ =>
          .bind (routine_setBuffer (not_spared (by decide)) _) fun _ => .pure _
  | _ => exact routine_binaryScalar _ _ _ _

section Tables

variable {ref : Ref}

/-- A table that is read off the store and replaces one is indexed if the tables of the store
are. -/
theorem evolves_setTable (not_spared : ∀ value, value.table? = some ref → ¬spared value)
    {table : Table Value Value} {world : World}
    (indexed : world.store.Indexed → table.Indexed) :
    world.store.Evolves (Store.Conserves spared) (outcome (setTable ref table) world).2.store :=
  (Store.Edits.setTable ref table indexed).evolves
    ⟨world.store.spares_withTable table not_spared, Store.opensOver_of_mappings_eq rfl⟩

theorem routine_setKey (not_spared : ∀ value, value.table? = some ref → ¬spared value)
    (key value : Value) : Routine admitted spared signals fun _ => setKey ref key value := by
  refine .change (fun store => store.noSignal_insertKey _ key value) (fun world table inserts => ?_)
    fun _ _ => noSignal_ok ()
  obtain ⟨hash, -, rfl⟩ := Store.insertKey_eq_ok.mp inserts
  exact evolves_setTable not_spared fun indexed => (indexed ref).insert hash _ key value

theorem routine_removeElement (not_spared : ∀ value, value.table? = some ref → ¬spared value)
    (element : Value) : Routine admitted spared signals fun _ => removeElement ref element := by
  refine .change (fun store => store.noSignal_eraseKey _ element) (fun world result erases => ?_)
    fun _ _ => noSignal_ok ()
  obtain ⟨hash, entry, -, erased, -⟩ := Store.eraseKey_eq_ok.mp erases
  exact evolves_setTable not_spared fun indexed => (indexed ref).erase? erased

theorem routine_addElements (not_spared : ∀ value, value.table? = some ref → ¬spared value)
    (elements : List Value) :
    Routine admitted spared signals fun _ => addElements ref elements := by
  induction elements with
  | nil => exact .pure ()
  | cons element elements induction =>
      exact .bind (routine_setKey not_spared element element) fun _ => induction

theorem routine_updateSet (not_spared : ∀ value, value.table? = some ref → ¬spared value)
    (source : Value) : Routine admitted spared signals fun _ => updateSet ref source := by
  refine .bind .getStore fun store => ?_
  cases store.setSource? source with
  | some elements => exact routine_addElements not_spared elements
  | none => exact .throw rfl

theorem routine_inplaceSet {sort : SetKind} {op : BinaryOperator}
    (not_spared : op ∈ sort.kind.inplaceOperators →
      ∀ value, value.table? = some ref → ¬spared value) (other : Value) :
    Routine admitted spared signals fun _ => sort.inplace ref op other := by
  unfold SetKind.inplace
  cases other.setTable? with
  | none => exact .throw (sort.rejection_proper op true other)
  | some right =>
      cases selects : SetOperation.ofOp? op with
      | none => exact .throw (sort.rejection_proper op true other)
      | some operation =>
          refine .bind (.read fun store => store.noSignal_combineSets operation ref right)
            fun elements => ?_
          by_cases changes : sort = .mutable ∧ operation ≠ .intersection
          · simp only [changes, ne_eq, not_false_eq_true, and_self, if_true]
            refine .bind (routine_addElements (not_spared ?_) elements) fun _ =>
              routine_newSet .mutable elements
            obtain ⟨rfl, not_intersection⟩ := changes
            cases op <;> first | contradiction | decide | skip
            exact absurd (Option.some.inj selects).symm not_intersection
          · simp only [changes, if_false]
            exact routine_newSet sort elements

end Tables

theorem routine_inplace {op : BinaryOperator} {left : Value}
    (not_spared : op ∈ left.kind.inplaceOperators →
      ∀ value, left.SharesObject value → ¬spared value) (right : Value) :
    Routine admitted spared signals fun _ => left.inplace op right := by
  unfold Value.inplace
  cases left with
  | list ref =>
      exact routine_inplaceList (fun changes => not_spared changes _ (.inl rfl)) right
  | set ref =>
      exact routine_inplaceSet (fun changes value of_value => not_spared changes value
        (.inr ⟨ref, rfl, of_value⟩)) right
  | frozenset ref =>
      exact routine_inplaceSet (fun changes => absurd changes List.not_mem_nil) right
  | bytearray ref =>
      exact routine_inplaceBytearray (fun changes => not_spared changes _ (.inl rfl)) right
  | _ => exact routine_binaryScalar op true _ right

/-! ## Methods -/

theorem routine_popList {ref : Ref} (not_spared : ¬spared (.list ref)) :
    Routine admitted spared signals fun _ => popList ref := by
  refine .bind .getStore fun store => ?_
  dsimp only
  cases (store.list ref).getLast? with
  | some item => exact .bind (routine_setList not_spared _) fun _ => .pure item
  | none => exact .throw rfl

theorem routine_removeFromList {ref : Ref} (not_spared : ¬spared (.list ref)) (value : Value) :
    Routine admitted spared signals fun _ => removeFromList ref value := by
  refine .bind .getStore fun store => ?_
  dsimp only
  cases (store.list ref).findIdx? (store.strictEquals · value) with
  | some place => exact routine_setList not_spared _
  | none => exact .throw rfl

theorem eq_of_onlyArgument {name : String} {arguments : List Value} {argument : Value}
    (asks : onlyArgument name arguments = .ok argument) : arguments = [argument] := by
  unfold onlyArgument at asks
  split at asks
  · rw [Except.ok.inj asks]
  · contradiction

theorem callListMethod_of_not_mem (context : Context) (ref : Ref) {name : String}
    (unknown : name ∉ ["append", "extend", "copy", "pop", "remove"]) (arguments : List Value) :
    callListMethod context ref name arguments = throw (.noAttribute .list name) := by
  unfold callListMethod
  split <;> first | rfl | simp at unknown

theorem callSetMethod_of_not_mem (sort : SetKind) (ref : Ref) {name : String}
    (unknown : name ∉ "copy" :: sort.kind.changingMethods) (arguments : List Value) :
    callSetMethod sort ref name arguments = throw (.noAttribute sort.kind name) := by
  unfold callSetMethod
  split <;> first | rfl | simp [SetKind.kind, Kind.changingMethods] at unknown

theorem callDictMethod_of_ne (ref : Ref) {name : String} (unknown : name ≠ "keys")
    (arguments : List Value) :
    callDictMethod ref name arguments = throw (.noAttribute .dict name) := by
  unfold callDictMethod
  split <;> first | rfl | contradiction

theorem callBytearrayMethod_of_ne (ref : Ref) {name : String} (unknown : name ≠ "append")
    (arguments : List Value) :
    callBytearrayMethod ref name arguments = throw (.noAttribute .bytearray name) := by
  unfold callBytearrayMethod
  split <;> first | rfl | contradiction

section Methods

variable {function? : String → Option HostFunction} {ref : Ref} {name : String}

theorem routine_callListMethod (hosts : HostRoutines admitted spared function?)
    (not_spared : name ∈ Kind.list.changingMethods → ¬spared (.list ref))
    (arguments : List Value) :
    Routine admitted spared signals fun config =>
      callListMethod { config, function? } ref name arguments := by
  by_cases known : name ∈ ["append", "extend", "copy", "pop", "remove"]
  · simp only [List.mem_cons, List.not_mem_nil, or_false] at known
    have argument : ∀ name, Routine admitted spared signals fun _ =>
        (ofExcept (onlyArgument name arguments) : Effect Value) :=
      fun name => .ofExcept (noSignal_onlyArgument name arguments)
    have no_arguments : ∀ name, Routine admitted spared signals fun _ =>
        (ofExcept (noArguments name arguments) : Effect Unit) :=
      fun name => .ofExcept (noSignal_noArguments name arguments)
    rcases known with rfl | rfl | rfl | rfl | rfl
    · exact .bind (argument _) fun _ =>
        .bind (routine_extendList (not_spared (by decide)) _) fun _ => .pure _
    · refine .bind (argument _) fun source => ?_
      have extends_by (items : List Value) : Routine admitted spared signals fun _ =>
          (extendList ref items >>= fun _ => pure .none : Effect Value) :=
        .bind (routine_extendList (not_spared (by decide)) items) fun _ => .pure _
      cases source with
      | list other => exact .bind .getStore fun _ => extends_by _
      | _ => exact .bind (routine_collect hosts _) extends_by
    · exact .bind (no_arguments _) fun _ => .bind .getStore fun _ => routine_newList _
    · exact .bind (no_arguments _) fun _ => routine_popList (not_spared (by decide))
    · exact .bind (argument _) fun value =>
        .bind (routine_removeFromList (not_spared (by decide)) value) fun _ => .pure _
  · simp only [callListMethod_of_not_mem _ ref known]
    exact .throw rfl

theorem routine_copyTable (ref : Ref) (make : Ref → Value) :
    Routine admitted spared signals fun _ =>
      (do return make (← newTable ((← getStore).table ref)) : Effect Value) :=
  routine_newTable (fun store => noSignal_ok (store.table ref))
    (fun _ _ copies indexed => Except.ok.inj copies ▸ indexed ref) make

theorem routine_callSetMethod {sort : SetKind}
    (not_spared : name ∈ sort.kind.changingMethods →
      ∀ value, value.table? = some ref → ¬spared value) (arguments : List Value) :
    Routine admitted spared signals fun _ => callSetMethod sort ref name arguments := by
  by_cases known : name ∈ "copy" :: sort.kind.changingMethods
  · have argument : ∀ name, Routine admitted spared signals fun _ =>
        (ofExcept (onlyArgument name arguments) : Effect Value) :=
      fun name => .ofExcept (noSignal_onlyArgument name arguments)
    rcases List.mem_cons.mp known with rfl | changes
    · cases sort <;>
        exact .bind (.ofExcept (noSignal_noArguments _ arguments)) fun _ =>
          routine_copyTable ref _
    · have changeable := not_spared changes
      cases sort with
      | frozen => exact absurd changes List.not_mem_nil
      | mutable =>
          simp only [SetKind.kind, Kind.changingMethods, List.mem_cons, List.not_mem_nil,
            or_false] at changes
          rcases changes with rfl | rfl | rfl
          · exact .bind (argument _) fun element =>
              .bind (routine_setKey changeable element element) fun _ => .pure _
          · exact .bind (argument _) fun element =>
              .bind (routine_removeElement changeable element) fun _ => .pure _
          · exact .bind (argument _) fun source =>
              .bind (routine_updateSet changeable source) fun _ => .pure _
  · simp only [callSetMethod_of_not_mem sort ref known]
    exact .throw (by rfl)

theorem routine_callDictMethod (ref : Ref) (name : String) (arguments : List Value) :
    Routine admitted spared signals fun _ => callDictMethod ref name arguments := by
  by_cases known : name = "keys"
  · subst known
    exact .bind (.ofExcept (noSignal_noArguments _ arguments)) fun _ =>
      .bind .getStore fun _ => routine_newList _
  · simp only [callDictMethod_of_ne ref known]
    exact .throw rfl

theorem routine_callBytearrayMethod
    (not_spared : name ∈ Kind.bytearray.changingMethods → ¬spared (.bytearray ref))
    (arguments : List Value) :
    Routine admitted spared signals fun _ => callBytearrayMethod ref name arguments := by
  by_cases known : name = "append"
  · subst known
    exact .bind (.ofExcept ((noSignal_onlyArgument _ arguments).bind noSignal_byte?)) fun _ =>
      .bind .getStore fun _ => .bind (routine_setBuffer (not_spared (by decide)) _) fun _ => .pure _
  · simp only [callBytearrayMethod_of_ne ref known]
    exact .throw rfl

theorem routine_callMethod (hosts : HostRoutines admitted spared function?) {receiver : Value}
    (not_spared : name ∈ receiver.kind.changingMethods →
      ∀ value, receiver.SharesObject value → ¬spared value) (arguments : List Value) :
    Routine admitted spared signals fun config =>
      receiver.callMethod { config, function? } name arguments := by
  unfold Value.callMethod
  cases receiver with
  | list ref =>
      exact routine_callListMethod hosts (fun changes => not_spared changes _ (.inl rfl)) arguments
  | set ref =>
      exact routine_callSetMethod (fun changes value of_value => not_spared changes value
        (.inr ⟨ref, rfl, of_value⟩)) arguments
  | frozenset ref =>
      exact routine_callSetMethod (fun changes => absurd changes List.not_mem_nil) arguments
  | dict ref => exact routine_callDictMethod ref name arguments
  | bytearray ref =>
      exact routine_callBytearrayMethod (fun changes => not_spared changes _ (.inl rfl)) arguments
  | _ => exact .throw rfl

end Methods

end ObjectModel
