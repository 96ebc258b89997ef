import ObjectModel.Proofs.Session.Protocol

/-!
# Functions, calls and methods at a stage

Loops and functions lead from stage to stage if the step of iterators that they get does, and the
step of a mapping does if functions do. So does every attempt at a step, by induction on how deep
steps may nest, and with these the step itself. Functions of the host are assumed to do no more with
the values that they get than the protocol allows.
-/

namespace ObjectModel

open Effect Stage

variable {stage : Stage} {function : Value}

/-- A step of iterators keeps to stages. -/
def HonestStep (next : Value → Effect Value) : Prop :=
  ∀ (stage : Stage) (iterator : Value), stage.Admits iterator →
    stage.Yields (next iterator) Admits

/-- The functions of the host keep to stages if the step of iterators that they get does. -/
def HonestHosts (function? : String → Option HostFunction) : Prop :=
  ∀ name host, function? name = some host → ∀ next, HonestStep next →
    ∀ (stage : Stage) (arguments : List Value), stage.AdmitsAll arguments →
      stage.Yields (host next arguments) Admits

/-- The positional arguments of a call are admitted. -/
def Stage.AdmitsFrame (stage : Stage) (frame : Frame) : Prop :=
  ∀ arguments, frame.arguments = .ok arguments → stage.AdmitsAll arguments

theorem Frame.positional_of_arguments {frame : Frame} {arguments : List Value}
    (asks : frame.arguments = .ok arguments) : frame.positional = some arguments := by
  unfold Frame.arguments at asks
  split at asks
  · rename_i found
    rw [found, Except.ok.inj asks]
  · contradiction

theorem Frame.arguments_of_onlyPositional {frame : Frame} {name : String}
    {arguments : List Value} (asks : frame.onlyPositional name = .ok arguments) :
    frame.arguments = .ok arguments := by
  obtain ⟨positional, found, rest⟩ := bind_eq_ok_iff.mp asks
  split at rest
  · rwa [← Except.ok.inj rest]
  · contradiction

namespace Stage

/-! ## Loops -/

section Loops

variable {σ : Type} {next : Value → Effect Value} {step : σ → Value → Effect σ}
  {holds : Stage → σ → Prop} {source : Value} {initial : σ}

/-- What holds of the state of a loop holds at the end if each step keeps it, and if it stays true
at later stages. -/
theorem yields_foldLoop (steps : HonestStep next)
    (combines : ∀ (stage : Stage) state item, holds stage state → stage.Admits item →
      stage.Yields (step state item) holds)
    (stays : ∀ stage later state, Precedes stage later → holds stage state → holds later state)
    {iterator : Value} (admits : stage.Admits iterator) {state : σ} (begins : holds stage state) :
    stage.Yields (foldLoop next iterator step state) holds := by
  refine Yields.loop (fun stage state precedes holds_state => ?_) begins
  refine (steps stage iterator (admits.kept precedes)).nextItem.bind
    fun middle found follows admits_found => ?_
  have holds_middle := stays stage middle state follows holds_state
  cases found with
  | none => exact yields_pure holds_middle
  | some item =>
      have admits_item : middle.Admits item := admits_found item (by simp)
      exact (combines middle state item holds_middle admits_item).bind
        fun _ _ _ holds_after => yields_pure holds_after

theorem yields_foldItems (steps : HonestStep next)
    (combines : ∀ (stage : Stage) state item, holds stage state → stage.Admits item →
      stage.Yields (step state item) holds)
    (stays : ∀ stage later state, Precedes stage later → holds stage state → holds later state)
    (admits : stage.Admits source) (begins : holds stage initial) :
    stage.Yields (foldItems next source step initial) holds :=
  (yields_iter admits).bind fun _ _ precedes admits_iterator =>
    yields_foldLoop steps combines stays admits_iterator (stays _ _ _ precedes begins)

theorem yields_collectItems (steps : HonestStep next) (admits : stage.Admits source) :
    stage.Yields (collectItems next source) AdmitsAll := by
  have gathers : stage.Yields
      (foldItems next source (fun items item => return item :: items) []) AdmitsAll := by
    refine yields_foldItems steps (fun _ items item admits_items admits_item => yields_pure ?_)
      (fun _ _ _ precedes admits_items => admits_items.kept precedes) admits nofun
    exact List.forall_mem_cons.mpr ⟨admits_item, admits_items⟩
  exact gathers.bind fun _ items _ admits_items => yields_pure fun item member =>
    admits_items item (List.mem_reverse.mp member)

theorem yields_listOf (steps : HonestStep next) {arguments : List Value}
    (admits : stage.AdmitsAll arguments) : stage.Yields (listOf next arguments) Admits := by
  refine yields_getStore_bind fun sound => ?_
  split
  · exact yields_newList nofun
  · exact yields_newList (sound.lists _)
  · exact yields_newList (sound.tuples _)
  · exact (yields_collectItems steps (admits _ List.mem_cons_self)).bind
      fun _ _ _ admits_items => yields_newList admits_items
  · exact yields_throw _

theorem yields_setOf (sort : SetKind) (steps : HonestStep next) {arguments : List Value}
    (admits : stage.AdmitsAll arguments) :
    stage.Yields (Effect.setOf sort next arguments) Admits := by
  unfold Effect.setOf
  split
  · exact yields_newSet sort nofun
  · refine yields_getStore_bind fun sound => ?_
    split
    · rename_i holds
      exact yields_newSet sort (sound.admitsAll_setSource holds)
    · exact (yields_collectItems steps (admits _ List.mem_cons_self)).bind
        fun _ _ _ admits_items => yields_newSet sort admits_items
  · exact yields_throw _

theorem yields_sumOf (steps : HonestStep next) (admits : stage.Admits source) {start : Value}
    (admits_start : stage.Admits start) : stage.Yields (sumOf next source start) Admits :=
  yields_foldItems steps (fun _ total item _ _ => yields_binary .add total item)
    (fun _ _ _ precedes admits => admits.kept precedes) admits admits_start

end Loops

/-! ## Functions -/

section Functions

variable {frame : Frame}

theorem AdmitsFrame.onlyPositional_bind {name : String} {next : List Value → Effect Value}
    (admits : stage.AdmitsFrame frame)
    (rest : ∀ arguments, stage.AdmitsAll arguments → stage.Yields (next arguments) Admits) :
    stage.Yields (ofExcept (frame.onlyPositional name) >>= next) Admits :=
  yields_ofExcept_bind fun arguments asks =>
    rest arguments (admits arguments (Frame.arguments_of_onlyPositional asks))

theorem yields_dictOfHost {fields : List (String × Value)}
    (admits : ∀ field ∈ fields, stage.Admits field.2) :
    stage.Yields (dictOfHost fields) Admits := by
  refine yields_read_bind fun sound table makes => ?_
  refine (yields_newTable .dict (fitsTable_of_pairs (fun pair member => ?_) makes)).bind
    fun _ _ _ admits_table => yields_pure (admits_table _ rfl rfl)
  obtain ⟨field, is_field, rfl⟩ := List.mem_map.mp member
  exact ⟨admits_of_plain (fun _ => rfl) rfl, admits field is_field⟩

theorem yields_runBytearray (frame : Frame) :
    stage.Yields (Builtin.runBytearray frame) Admits := by
  refine yields_ofExcept_bind fun arguments _ => ?_
  split
  · refine yields_getStore_bind fun _ => ?_
    split
    · exact yields_newBytearray _
    · exact yields_throw _
  · exact yields_throw _

theorem yields_runInput (frame : Frame) : stage.Yields (Builtin.runInput frame) Admits := by
  refine yields_ofExcept_bind fun arguments _ => ?_
  split
  · exact yields_readLine ""
  · exact yields_getStore_bind fun _ => yields_readLine _
  · exact yields_throw _

theorem yields_runIter (admits : stage.AdmitsFrame frame) :
    stage.Yields (Builtin.runIter frame) Admits := by
  refine admits.onlyPositional_bind fun arguments admits_all => ?_
  split
  · exact yields_throw _
  · refine yields_getStore_bind fun sound => ?_
    exact (yields_dictOfHost (sound.records _)).bind fun _ _ _ => yields_iter
  · exact yields_iter (admits_all _ List.mem_cons_self)
  · exact yields_throw _
  · exact yields_throw _

theorem yields_runLen (frame : Frame) : stage.Yields (Builtin.runLen frame) Admits := by
  refine yields_ofExcept_bind fun arguments _ => ?_
  split
  · refine yields_getStore_bind fun _ => ?_
    split
    · exact yields_pure (admits_of_plain (fun _ => rfl) rfl)
    · exact yields_throw _
  · exact yields_throw _

theorem yields_runMap (admits : stage.AdmitsFrame frame) :
    stage.Yields (Builtin.runMap frame) Admits := by
  refine admits.onlyPositional_bind fun arguments admits_all => ?_
  split
  · exact yields_newMap (admits_all _ (by simp)) (admits_all _ (by simp))
  · exact yields_throw _

theorem yields_runRepr (frame : Frame) : stage.Yields (Builtin.runRepr frame) Admits := by
  refine yields_ofExcept_bind fun arguments _ => ?_
  split
  · exact yields_getStore_bind fun _ => yields_pure (admits_of_plain (fun _ => rfl) rfl)
  · exact yields_throw _

theorem yields_runStr (frame : Frame) : stage.Yields (Builtin.runStr frame) Admits := by
  refine yields_ofExcept_bind fun arguments _ => ?_
  split
  · exact yields_pure (admits_of_plain (fun _ => rfl) rfl)
  · exact yields_getStore_bind fun _ => yields_pure (admits_of_plain (fun _ => rfl) rfl)
  · exact yields_throw _

variable {next : Value → Effect Value}

theorem yields_reportedSum (config : Config) (steps : HonestStep next) {source start : Value}
    (admits_source : stage.Admits source) (admits_start : stage.Admits start) :
    stage.Yields (tryCatch (sumOf next source start) fun fault =>
      throw (fault.reportedBy config.sumReport)) Admits :=
  (yields_sumOf steps admits_source admits_start).tryCatch fun _ _ _ => yields_throw _

theorem yields_runSum (config : Config) (steps : HonestStep next)
    (admits : stage.AdmitsFrame frame) :
    stage.Yields (Builtin.runSum config next frame) Admits := by
  refine admits.onlyPositional_bind fun arguments admits_all => ?_
  rcases arguments with - | ⟨source, - | ⟨start, - | ⟨third, further⟩⟩⟩
  · exact yields_throw_bind _
  · simp only [pure_bind]
    exact yields_reportedSum config steps (admits_all _ (by simp))
      (admits_of_plain (fun _ => rfl) rfl)
  · simp only [pure_bind]
    exact yields_reportedSum config steps (admits_all _ (by simp)) (admits_all _ (by simp))
  · exact yields_throw_bind _

theorem yields_run (config : Config) (steps : HonestStep next) (builtin : Builtin)
    (admits : stage.AdmitsFrame frame) :
    stage.Yields (builtin.run config next frame) Admits := by
  cases builtin with
  | bytearray => exact yields_runBytearray frame
  | frozenset => exact admits.onlyPositional_bind fun _ => yields_setOf .frozen steps
  | input => exact yields_runInput frame
  | iter => exact yields_runIter admits
  | len => exact yields_runLen frame
  | list => exact admits.onlyPositional_bind fun _ => yields_listOf steps
  | map => exact yields_runMap admits
  | repr => exact yields_runRepr frame
  | set => exact admits.onlyPositional_bind fun _ => yields_setOf .mutable steps
  | str => exact yields_runStr frame
  | sum => exact yields_runSum config steps admits

end Functions

/-! ## Calls and steps -/

section Calls

variable {context : Context}

theorem yields_callBy (hosts : HonestHosts context.function?) {next : Value → Effect Value}
    (steps : HonestStep next) (function : Value) {frame : Frame}
    (admits : stage.AdmitsFrame frame) :
    stage.Yields (callBy context next function frame) Admits := by
  cases function with
  | builtin name =>
      unfold callBy
      dsimp only
      split
      · exact yields_run context.config steps _ admits
      · rename_i host _ found
        exact yields_ofExcept_bind fun arguments asks =>
          hosts name host found next steps stage arguments (admits arguments asks)
      · exact yields_throw _
  | _ => exact yields_throw _

theorem honestStep_stepBy (hosts : HonestHosts context.function?) {next : Value → Effect Value}
    (steps : HonestStep next) : HonestStep (stepBy context next) := by
  intro stage iterator admits
  cases iterator with
  | listIterator ref => exact yields_nextInList ref
  | setIterator ref | dictKeyIterator ref => exact yields_nextInTable ref
  | seqIterator ref => exact yields_nextInSequence ref
  | map ref =>
      refine (yields_sourceIterator ref).bind fun middle source _ admits_source => ?_
      refine yields_getStore_bind fun _ => ?_
      dsimp only
      split
      · refine (steps middle source admits_source).bind fun _ item _ admits_item => ?_
        refine yields_callBy hosts steps _ fun arguments asks => ?_
        obtain rfl := Except.ok.inj asks
        simpa [AdmitsAll] using admits_item
      · exact yields_throw _
  | _ => exact yields_throw _

theorem honestStep_nextWithin (hosts : HonestHosts context.function?) (depth : Nat) :
    HonestStep (nextWithin context depth) := by
  induction depth with
  | zero => exact fun stage iterator _ => yields_throw _
  | succ depth induction => exact honestStep_stepBy hosts induction

theorem honestStep_next (hosts : HonestHosts context.function?) :
    HonestStep (Value.next context) :=
  fun stage iterator admits =>
    yields_unbounded fun depth => honestStep_nextWithin hosts depth stage iterator admits

theorem yields_collect (hosts : HonestHosts context.function?) {source : Value}
    (admits : stage.Admits source) : stage.Yields (source.collect context) AdmitsAll :=
  yields_collectItems (honestStep_next hosts) admits

end Calls

/-! ## Methods -/

section Methods

variable {context : Context} {ref : Ref} {name : String} {arguments : List Value}

theorem yields_onlyArgument_bind {next : Value → Effect Value}
    (admits : stage.AdmitsAll arguments)
    (rest : ∀ argument, stage.Admits argument → stage.Yields (next argument) Admits) :
    stage.Yields (ofExcept (onlyArgument name arguments) >>= next) Admits := by
  refine yields_ofExcept_bind fun argument asks => rest argument (admits argument ?_)
  rw [eq_of_onlyArgument asks]
  exact List.mem_cons_self

/-- A method without a result. -/
theorem Yields.thenNone {effect : Effect Unit}
    (yields : stage.Yields effect fun _ _ => True) :
    stage.Yields (effect >>= fun _ => pure .none) Admits :=
  yields.bind fun _ _ _ _ => yields_pure (admits_of_plain (fun _ => rfl) rfl)

theorem yields_popList (ref : Ref) : stage.Yields (popList ref) Admits := by
  refine yields_getStore_bind fun sound => ?_
  dsimp only
  split
  · rename_i item last
    have admits := sound.lists ref
    have admits_last := admits item (List.mem_of_getLast? last)
    exact (yields_setList ref (admits.subset (List.dropLast_subset _))).bind fun _ _ precedes _ =>
      yields_pure (admits_last.kept precedes)
  · exact yields_throw _

theorem yields_removeFromList (ref : Ref) (value : Value) :
    stage.Yields (removeFromList ref value) fun _ _ => True := by
  refine yields_getStore_bind fun sound => ?_
  dsimp only
  split
  · exact yields_setList ref (AdmitsAll.subset (sound.lists ref) List.eraseIdx_subset)
  · exact yields_throw _

theorem yields_callListMethod (hosts : HonestHosts context.function?)
    (admits : stage.AdmitsAll arguments) :
    stage.Yields (callListMethod context ref name arguments) Admits := by
  unfold callListMethod
  split
  · refine yields_onlyArgument_bind admits fun item admits_item => ?_
    exact (yields_extendList ref (by simpa [AdmitsAll] using admits_item)).thenNone
  · refine yields_onlyArgument_bind admits fun source admits_source => ?_
    split
    · exact yields_getStore_bind fun sound => (yields_extendList ref (sound.lists _)).thenNone
    · exact (yields_collect hosts admits_source).bind fun _ _ _ admits_items =>
        (yields_extendList ref admits_items).thenNone
  · exact yields_ofExcept_bind fun _ _ => yields_getStore_bind fun sound =>
      yields_newList (sound.lists ref)
  · exact yields_ofExcept_bind fun _ _ => yields_popList ref
  · exact yields_onlyArgument_bind admits fun value _ => (yields_removeFromList ref value).thenNone
  · exact yields_throw _

theorem yields_callSetMethod (sort : SetKind) (admits : stage.AdmitsAll arguments) :
    stage.Yields (callSetMethod sort ref name arguments) Admits := by
  unfold callSetMethod
  split
  · exact yields_onlyArgument_bind admits fun element admits_element =>
      (yields_setKey ref admits_element admits_element).thenNone
  · exact yields_onlyArgument_bind admits fun element _ =>
      (yields_removeElement ref element).thenNone
  · exact yields_onlyArgument_bind admits fun source _ => (yields_updateSet ref source).thenNone
  · exact yields_ofExcept_bind fun _ _ => yields_getStore_bind fun sound =>
      (yields_newTable sort.kind (sound.tables ref)).bind fun _ _ _ admits_table =>
        yields_pure (admits_table _ (by simp) (by simp))
  · exact yields_throw _

theorem yields_callMethod (hosts : HonestHosts context.function?) (receiver : Value)
    (admits : stage.AdmitsAll arguments) :
    stage.Yields (receiver.callMethod context name arguments) Admits := by
  unfold Value.callMethod
  split
  · exact yields_callListMethod hosts admits
  · exact yields_callSetMethod .mutable admits
  · exact yields_callSetMethod .frozen admits
  · unfold callDictMethod
    split
    · exact yields_ofExcept_bind fun _ _ => yields_getStore_bind fun sound =>
        yields_newList (sound.admitsAll_elements _)
    · exact yields_throw _
  · unfold callBytearrayMethod
    split
    · exact yields_ofExcept_bind fun _ _ => yields_getStore_bind fun _ =>
        (yields_setBuffer _ _).thenNone
    · exact yields_throw _
  · exact yields_throw _

end Methods

end Stage
end ObjectModel
