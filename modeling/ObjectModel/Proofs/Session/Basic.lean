import ObjectModel.Proofs.Operation.Basic
import ObjectModel.Proofs.Session.Call

/-!
# Sessions

A session begins with an empty store and performs operations, each on values that earlier ones have
handed out, and on values that can be written down. There is a sound stage for every session, which
admits all that has been handed out: no value refers to an object that has not been made, no table
belongs to values of two kinds, and the keys of every table have hashes.
-/

namespace ObjectModel

open Effect

/-- Whether a value can be written down: it refers to no object. -/
def Value.isLiteral : Value → Bool
  | .none | .bool _ | .int _ | .float _ | .complex .. | .str _ | .bytes _ | .slice _ | .builtin _ =>
    true
  | _ => false

theorem Stage.admits_of_isLiteral {stage : Stage} {value : Value} (literal : value.isLiteral) :
    stage.Admits value := by
  cases value <;> first | contradiction | exact admits_of_plain (fun _ => rfl) rfl

namespace Operation

/-- An operation that may come next once some values have been handed out. What a host reads off the
store and what it does with the elements of a source is up to the host, as long as it keeps to
values that it can have got hold of. -/
structure Allowed (context : Context) (hand : List Value) (operation : Operation) : Prop where
  operands : ∀ operand ∈ operation.operands, operand.isLiteral ∨ operand ∈ hand
  query : ∀ query, operation = .observe query → ∀ stage : Stage, stage.Sound →
    stage.AdmitsAll hand → ∀ values, query stage.store = .ok values → stage.AdmitsAll values
  body : ∀ source body, operation = .forEach source body → ∀ (stage : Stage) (item : Value),
    stage.AdmitsAll hand → stage.Admits item →
      stage.Yields (body context item) fun _ _ => True

end Operation

/-- A world, and the values that have been handed out. -/
structure Session where
  /-- The world. -/
  world : World
  /-- The values that operations have come to. -/
  hand : List Value

namespace Session

/-- The session in which nothing has been done. -/
def start (console : Console) : Session where
  world := { console }
  hand := []

/-- How an operation ends in a session. -/
def ending (context : Context) (session : Session) (operation : Operation) :
    Except Fault (List Value) × World :=
  outcome (operation.perform context) session.world

/-- The session after an operation, which hands out its results unless it fails. -/
def step (context : Context) (session : Session) (operation : Operation) : Session where
  world := (session.ending context operation).2
  hand := session.hand ++ (session.ending context operation).1.toOption.getD []

/-- Allowed operations one after the other lead from one session to another. -/
inductive Run (context : Context) : Session → List Operation → Session → Prop
  | done (session : Session) : Run context session [] session
  | perform {session last : Session} {operation : Operation} {operations : List Operation}
      (allowed : operation.Allowed context session.hand)
      (rest : Run context (session.step context operation) operations last) :
      Run context session (operation :: operations) last

/-- A session that can come about. -/
def Reachable (context : Context) (session : Session) : Prop :=
  ∃ console operations, Run context (start console) operations session

/-- A sound stage with the store of a session, which admits what has been handed out. -/
structure Fits (session : Session) (stage : Stage) : Prop where
  sound : stage.Sound
  store_eq : session.world.store = stage.store
  hand : stage.AdmitsAll session.hand

end Session

/-! ## Operations at a stage -/

section Operations

variable {context : Context} {stage : Stage} {hand : List Value} {operation : Operation}

theorem Operation.Allowed.admitsAll_operands (allowed : operation.Allowed context hand)
    (admits : stage.AdmitsAll hand) : stage.AdmitsAll operation.operands :=
  fun operand member => (allowed.operands operand member).elim Stage.admits_of_isLiteral
    (admits operand)

/-- An operation in which nothing is up to the host. -/
theorem Operation.Allowed.of_operands
    (operands : ∀ operand ∈ operation.operands, operand.isLiteral ∨ operand ∈ hand)
    (no_query : ∀ query, operation ≠ .observe query)
    (no_body : ∀ source body, operation ≠ .forEach source body) :
    operation.Allowed context hand where
  operands := operands
  query query is_query := absurd is_query (no_query query)
  body source body is_loop := absurd is_loop (no_body source body)

namespace Stage

/-- An operation with one result. -/
theorem Yields.single {effect : Effect Value} (yields : stage.Yields effect Admits) :
    stage.Yields (do return [← effect]) AdmitsAll :=
  yields.bind fun _ _ _ admits => yields_pure (by simpa [AdmitsAll] using admits)

/-- An operation without a result. -/
theorem Yields.nothing {effect : Effect Unit} (yields : stage.Yields effect fun _ _ => True) :
    stage.Yields (effect >>= fun _ => pure []) AdmitsAll :=
  yields.bind fun _ _ _ _ => yields_pure nofun

/-- A loop whose body respects what has been handed out keeps to that. -/
theorem yields_forEach (hosts : HonestHosts context.function?) {source : Value}
    {body : Value → Effect Unit}
    (respects : ∀ middle item, AdmitsAll middle hand → middle.Admits item →
      middle.Yields (body item) fun _ _ => True)
    (admits_source : stage.Admits source) (admits : stage.AdmitsAll hand) :
    stage.Yields (source.forEach context body) fun later _ => later.AdmitsAll hand := by
  refine yields_foldItems (honestStep_next hosts)
    (fun middle _ item admits_hand admits_item => ?_)
    (fun _ _ _ precedes admits_hand => admits_hand.kept precedes) admits_source admits
  exact (respects middle item admits_hand admits_item).mono
    fun _ _ precedes _ => admits_hand.kept precedes

theorem yields_newDict {pairs : List (Value × Value)}
    (admits : stage.AdmitsAll (Operation.newDict pairs).operands) :
    stage.Yields ((Operation.newDict pairs).perform context) AdmitsAll := by
  refine yields_read_bind fun _ table makes => ?_
  refine (yields_newTable .dict (fitsTable_of_pairs (fun pair member => ?_) makes)).bind
    fun _ _ _ admits_table =>
      yields_pure (List.forall_mem_singleton.mpr (admits_table _ rfl rfl))
  have operand (value : Value) (part : value ∈ [pair.1, pair.2]) : stage.Admits value :=
    admits value (List.mem_flatMap.mpr ⟨pair, member, part⟩)
  exact ⟨operand _ (by simp), operand _ (by simp)⟩

theorem yields_perform (hosts : HonestHosts context.function?)
    (allowed : operation.Allowed context hand) (admits : stage.AdmitsAll hand) :
    stage.Yields (operation.perform context) AdmitsAll := by
  have admits_operands := allowed.admitsAll_operands admits
  cases operation with
  | compare op left right =>
      exact yields_read_bind fun _ _ _ =>
        yields_pure (List.forall_mem_singleton.mpr (admits_of_isLiteral rfl))
  | contains container item =>
      exact yields_read_bind fun _ _ _ =>
        yields_pure (List.forall_mem_singleton.mpr (admits_of_isLiteral rfl))
  | observe query =>
      rw [Operation.perform, ← bind_pure (Effect.read query)]
      exact yields_read_bind fun sound values reads =>
        yields_pure (allowed.query query rfl stage sound admits values reads)
  | binary op left right => exact (yields_binary op left right).single
  | inplace op left right =>
      exact (yields_inplace op (admits_operands left (by simp)) right).single
  | unary op operand => exact (yields_unary op operand).single
  | subscript container index => exact (yields_subscript context.config container index).single
  | iter source => exact (yields_iter (admits_operands source (by simp))).single
  | next iterator =>
      exact (honestStep_next hosts stage iterator (admits_operands iterator (by simp))).single
  | nextItem iterator =>
      have steps := honestStep_next hosts stage iterator (admits_operands iterator (by simp))
      exact steps.nextItem.bind fun _ _ _ admits_found => yields_pure admits_found
  | collect source => exact yields_collect hosts (admits_operands source (by simp))
  | forEach source body =>
      have loops : stage.Yields (source.forEach context (body context))
          fun later _ => later.AdmitsAll hand :=
        yields_forEach hosts (allowed.body source body rfl) (admits_operands source (by simp))
          admits
      exact loops.bind fun _ _ _ _ => yields_pure nofun
  | call function frame =>
      refine (yields_callBy hosts (honestStep_next hosts) function fun arguments asks => ?_).single
      refine admits_operands.subset fun argument member => ?_
      simp [Frame.positional_of_arguments asks, member]
  | callMethod receiver name arguments =>
      exact (yields_callMethod hosts receiver
        fun argument member => admits_operands argument (by simp [member])).single
  | newBytearray bytes => exact (yields_newBytearray bytes).single
  | newTuple items => exact (yields_newTuple admits_operands).single
  | newList items => exact (yields_newList admits_operands).single
  | newSet sort elements => exact (yields_newSet sort admits_operands).single
  | newDict pairs => exact yields_newDict admits_operands
  | newHostObject fields =>
      exact (yields_newHostObject
        fun field member => admits_operands _ (List.mem_map_of_mem member)).single
  | newMap function source =>
      exact (yields_newMap (admits_operands function (by simp))
        (admits_operands source (by simp))).single
  | dictOfHost fields =>
      exact (yields_dictOfHost
        fun field member => admits_operands _ (List.mem_map_of_mem member)).single
  | listFrom arguments =>
      exact (yields_listOf (honestStep_next hosts) admits_operands).single
  | setFrom sort arguments =>
      exact (yields_setOf sort (honestStep_next hosts) admits_operands).single
  | setKey table key value =>
      exact (yields_setKey table (admits_operands key (by simp))
        (admits_operands value (by simp))).nothing
  | addElement sort table element =>
      have admits_element := admits_operands element (by simp)
      exact (yields_setKey table admits_element admits_element).nothing
  | removeElement sort table element => exact (yields_removeElement table element).nothing
  | updateSet sort table source => exact (yields_updateSet table source).nothing

end Stage

/-! ## Every session has a stage -/

namespace Session

variable {session last : Session} {operations : List Operation}

theorem Fits.step (fits : session.Fits stage) (hosts : HonestHosts context.function?)
    (allowed : operation.Allowed context session.hand) :
    ∃ later, stage.Precedes later ∧ (session.step context operation).Fits later := by
  obtain ⟨later, precedes, sound, store_eq, admits⟩ :=
    Stage.yields_perform hosts allowed fits.hand fits.sound session.world fits.store_eq
  refine ⟨later, precedes, sound, store_eq, (fits.hand.kept precedes).append ?_⟩
  rw [Session.ending]
  generalize outcome (operation.perform context) session.world = ending at admits ⊢
  obtain ⟨fault | results, world⟩ := ending
  · exact nofun
  · exact admits results rfl

theorem Run.fits (run : Run context session operations last) (hosts : HonestHosts context.function?)
    (fits : session.Fits stage) : ∃ later, stage.Precedes later ∧ last.Fits later := by
  induction run generalizing stage with
  | done session => exact ⟨stage, .refl stage, fits⟩
  | perform allowed rest induction =>
      obtain ⟨middle, precedes, fits_middle⟩ := fits.step hosts allowed
      obtain ⟨later, follows, fits_later⟩ := induction fits_middle
      exact ⟨later, precedes.trans follows, fits_later⟩

theorem fits_start (console : Console) (kinds : Ref → Kind) : (start console).Fits ⟨{}, kinds⟩ where
  sound := Stage.sound_empty kinds
  store_eq := rfl
  hand := nofun

/-- Every session that can come about has a stage. -/
theorem Reachable.exists_stage (reachable : session.Reachable context)
    (hosts : HonestHosts context.function?) : ∃ stage, session.Fits stage := by
  obtain ⟨console, operations, run⟩ := reachable
  obtain ⟨stage, -, fits⟩ := run.fits hosts (fits_start console fun _ => .none)
  exact ⟨stage, fits⟩

end Session
end Operations
end ObjectModel
