import ObjectModel.Proofs.Operation.Configuration
import ObjectModel.Proofs.Operation.Frame
import ObjectModel.Proofs.Session.Basic

/-!
# What a session leaves alone

In a session no two values share an object, so an operation changes its target and nothing else. A
value therefore keeps its contents over a run in which it is no target. No operation of the protocol
has a frozenset as its target. What an operation makes anew is not among the values before, and no
later operation on it changes one of these.
-/

namespace ObjectModel

open Effect

variable {context : Context} {stage : Stage} {value left right : Value}

/-- A value that an object of the store holds. -/
inductive Store.Holds (store : Store) : Value → Prop
  | tuple (ref : Ref) {value : Value} (member : value ∈ store.tuple ref) : Holds store value
  | list (ref : Ref) {value : Value} (member : value ∈ store.list ref) : Holds store value
  | key (ref : Ref) {key : Value} (member : key ∈ store.elements ref) : Holds store key
  | entry (ref : Ref) {entry : Entry Value Value} (member : entry ∈ (store.table ref).entries) :
      Holds store entry.value
  | field (ref : Ref) {field : String × Value} (member : field ∈ store.record ref) :
      Holds store field.2
  | ahead (ref : Ref) {value : Value} (member : value ∈ store.sequenceCursors.get ref) :
      Holds store value
  | function (ref : Ref) : Holds store (store.mappings.get ref).function
  | source (ref : Ref) : Holds store (store.mappings.get ref).source
  | iterator (ref : Ref) {iterator : Value}
      (opened : (store.mappings.get ref).iterator = some iterator) : Holds store iterator

theorem Stage.Sound.admits_of_holds (sound : stage.Sound) (holds : stage.store.Holds value) :
    stage.Admits value := by
  cases holds with
  | tuple ref member => exact sound.tuples ref _ member
  | list ref member => exact sound.lists ref _ member
  | key ref member => exact sound.admitsAll_elements ref _ member
  | entry ref member => exact (sound.tables ref).values _ member
  | field ref member => exact sound.records ref _ member
  | ahead ref member => exact sound.sequenceCursors ref _ member
  | function ref => exact (sound.mappings ref).function
  | source ref => exact (sound.mappings ref).source
  | iterator ref opened => exact (sound.mappings ref).iterator _ opened

/-- Values that a stage admits share an object only if they are the same. -/
theorem Stage.Admits.eq_of_sharesObject (admits_left : stage.Admits left)
    (admits_right : stage.Admits right) (shares : left.SharesObject right) : left = right := by
  obtain same | ⟨ref, of_left, of_right⟩ := shares
  · exact same
  · have same_kind : left.kind = right.kind :=
      (admits_left.kind_eq ref of_left).trans (admits_right.kind_eq ref of_right).symm
    cases left <;> cases right <;> simp_all [Value.table?, Value.kind]

namespace Session

variable {session last : Session} {operation : Operation} {operations : List Operation}

/-- A value that a session has handed out or that one of its objects holds. -/
def Has (session : Session) (value : Value) : Prop :=
  value ∈ session.hand ∨ session.world.store.Holds value

theorem Fits.admits (fits : session.Fits stage) (has : session.Has value) : stage.Admits value :=
  has.elim (fits.hand value) fun holds => fits.sound.admits_of_holds (fits.store_eq ▸ holds)

/-- What the operations of a run do that is not in the protocol leaves a value alone: the functions
of the host do, and so does what is done with the elements of a source. -/
structure LeavesAlone (context : Context) (operations : List Operation) (value : Value) : Prop where
  hosts : HostsSpare (· = value) context.function?
  bodies : ∀ operation ∈ operations, operation.BodySpares context (· = value)

/-- An operation changes only its target. -/
theorem Fits.spares_step (fits : session.Fits stage)
    (allowed : operation.Allowed context session.hand) (admits : stage.Admits value)
    (hosts : HostsSpare (· = value) context.function?)
    (body_spares : operation.BodySpares context (· = value))
    (not_target : operation.target? ≠ some value) :
    session.world.store.Spares (· = value) (session.step context operation).world.store := by
  refine Operation.spares_perform hosts body_spares (fun target targets other shares => ?_) _
  rintro rfl
  have admits_target : stage.Admits target :=
    allowed.admitsAll_operands fits.hand target (Operation.target_mem_operands targets)
  exact not_target (admits_target.eq_of_sharesObject admits shares ▸ targets)

/-- A run changes only the targets of its operations. -/
theorem Run.spares (run : Run context session operations last)
    (honest : HonestHosts context.function?) (fits : session.Fits stage)
    (admits : stage.Admits value) (alone : LeavesAlone context operations value)
    (not_target : ∀ operation ∈ operations, operation.target? ≠ some value) :
    session.world.store.Spares (· = value) last.world.store := by
  induction run generalizing stage with
  | done session => exact .refl session.world.store
  | perform allowed rest induction =>
      obtain ⟨hosts, bodies⟩ := alone
      rw [List.forall_mem_cons] at bodies not_target
      obtain ⟨later, precedes, fits_later⟩ := fits.step honest allowed
      exact (fits.spares_step allowed admits hosts bodies.1 not_target.1).trans
        (induction fits_later (admits.kept precedes) ⟨hosts, bodies.2⟩ not_target.2)

theorem Run.keeps (run : Run context session operations last)
    (honest : HonestHosts context.function?) (fits : session.Fits stage)
    (admits : stage.Admits value) (alone : LeavesAlone context operations value)
    (not_target : ∀ operation ∈ operations, operation.target? ≠ some value) :
    session.world.store.Keeps last.world.store value :=
  (run.spares honest fits admits alone not_target).keeps
    (fits.store_eq ▸ admits.known) rfl

end Session

namespace Operation

/-- Whether an operation is one that a host has on the elements of a set of either kind. -/
def isHostUpdate : Operation → Bool
  | addElement .. | removeElement .. | updateSet .. => true
  | _ => false

/-- No operator, in-place operator or method has a frozenset as its target. -/
theorem isHostUpdate_of_target? {operation : Operation} {table : Ref}
    (targets : operation.target? = some (.frozenset table)) : operation.isHostUpdate := by
  cases operation with
  | inplace op left right =>
      obtain ⟨changes, same⟩ := Option.ite_none_right_eq_some.mp targets
      rw [Option.some.inj same] at changes
      exact absurd changes List.not_mem_nil
  | callMethod receiver name arguments =>
      obtain ⟨changes, same⟩ := Option.ite_none_right_eq_some.mp targets
      rw [Option.some.inj same] at changes
      exact absurd changes List.not_mem_nil
  | addElement | removeElement | updateSet => rfl
  | setKey table key value => exact nomatch Option.some.inj targets
  | _ => contradiction

end Operation

namespace Session

/-- In every session that can come about: what is not the target of an operation in a run keeps its
contents over the run. Over a run without updates by the host every frozenset keeps its elements.
What an operation makes anew has an object that there was not before, and over a run of operations
that have no other target, all that there was before keeps its contents. -/
theorem frame (honest : HonestHosts context.function?)
    (lossless : HostsSpare (fun _ => False) context.function?)
    (reachable : session.Reachable context) :
    (∀ operations last, Run context session operations last → ∀ value, session.Has value →
      LeavesAlone context operations value →
        (∀ operation ∈ operations, operation.target? ≠ some value) →
          session.world.store.Keeps last.world.store value) ∧
    (∀ operations last, Run context session operations last → ∀ table,
      session.Has (.frozenset table) → LeavesAlone context operations (.frozenset table) →
        (∀ operation ∈ operations, ¬operation.isHostUpdate) →
          last.world.store.table table = session.world.store.table table) ∧
    (∀ operation, operation.Allowed context session.hand → operation.makesAnew →
      ∀ results, (session.ending context operation).1 = .ok results →
        ∀ result ∈ results, result.ownsStorage →
          session.world.store.knows result = false ∧
          ∀ operations last, Run context (session.step context operation) operations last →
            (∀ later ∈ operations, ∀ target, later.target? = some target → target = result) →
              ∀ value, session.Has value → LeavesAlone context operations value →
                (session.step context operation).world.store.Keeps last.world.store value) := by
  obtain ⟨stage, fits⟩ := reachable.exists_stage honest
  refine ⟨?keeps, ?frozen, ?anew⟩
  case keeps =>
    intro operations last run value has alone not_target
    exact run.keeps honest fits (fits.admits has) alone not_target
  case frozen =>
    intro operations last run table has alone no_update
    refine run.keeps honest fits (fits.admits has) alone fun operation member targets => ?_
    exact no_update operation member (Operation.isHostUpdate_of_target? targets)
  case anew =>
    intro operation allowed anew results ends result is_result owns
    have unknown := Operation.knows_result_eq_false lossless anew (Prod.ext ends rfl) result
      is_result owns
    refine ⟨unknown, fun operations last run only_target value has alone => ?_⟩
    obtain ⟨later, precedes, fits_later⟩ := fits.step honest allowed
    have admits := fits.admits has
    refine run.keeps honest fits_later (admits.kept precedes) alone fun next member targets => ?_
    have known : session.world.store.knows value := fits.store_eq ▸ admits.known
    rw [only_target next member value targets, unknown] at known
    contradiction

/-- A host with a function that advances iterators. -/
def hosted : Context where
  function? := Program.advancing

theorem honestHosts_hosted : HonestHosts hosted.function? := by
  intro name host found next steps stage arguments admits
  obtain ⟨-, same⟩ := Option.ite_none_right_eq_some.mp found
  obtain rfl := Option.some.inj same
  rcases arguments with - | ⟨iterator, - | ⟨second, further⟩⟩
  · exact Stage.yields_throw _
  · exact steps stage iterator (admits iterator (by simp))
  · exact Stage.yields_throw _

theorem hostsSpare_hosted (spared : Value → Prop) : HostsSpare spared hosted.function? := by
  intro name host found next steps arguments
  obtain ⟨-, same⟩ := Option.ite_none_right_eq_some.mp found
  obtain rfl := Option.some.inj same
  rcases arguments with - | ⟨iterator, - | ⟨second, further⟩⟩
  · exact spares_throw _
  · exact steps iterator
  · exact spares_throw _

/-- The session that has made a list and a frozenset. -/
def stocked : Session :=
  ((start {}).step hosted (.newList [.int 1])).step hosted (.newSet .frozen [.int 1])

theorem reachable_stocked : stocked.Reachable hosted := by
  refine ⟨{}, [.newList [.int 1], .newSet .frozen [.int 1]], .perform ?_ (.perform ?_ (.done _))⟩
  · exact ⟨by simp [Value.isLiteral], nofun, nofun⟩
  · exact ⟨by simp [Value.isLiteral], nofun, nofun⟩

/-- A frozenset takes up its own elements, the list is copied, and the copy grows. -/
theorem frame_stocked :
    let mixing : Operation := .inplace .or (.frozenset ⟨0⟩) (.frozenset ⟨0⟩)
    let copying : Operation := .callMethod (.list ⟨0⟩) "copy" []
    let growing : Operation := .callMethod (.list ⟨1⟩) "append" [.int 2]
    let mixed := stocked.step hosted mixing
    let copied := stocked.step hosted copying
    stocked.Reachable hosted ∧
      stocked.world.store.Keeps mixed.world.store (.list ⟨0⟩) ∧
      mixed.world.store.table ⟨0⟩ = stocked.world.store.table ⟨0⟩ ∧
      stocked.world.store.knows (.list ⟨1⟩) = false ∧
      copied.world.store.Keeps (copied.step hosted growing).world.store (.list ⟨0⟩) := by
  intro mixing copying growing mixed copied
  have hand_stocked : stocked.hand = [.list ⟨0⟩, .frozenset ⟨0⟩] := by rfl
  have hand_copied : copied.hand = [.list ⟨0⟩, .frozenset ⟨0⟩, .list ⟨1⟩] := by rfl
  have mixing_allowed : mixing.Allowed hosted stocked.hand :=
    .of_operands (by simp [mixing, hand_stocked]) (by simp [mixing]) (by simp [mixing])
  have copying_allowed : copying.Allowed hosted stocked.hand :=
    .of_operands (by simp [copying, hand_stocked]) (by simp [copying]) (by simp [copying])
  have growing_allowed : growing.Allowed hosted copied.hand :=
    .of_operands (by simp [growing, hand_copied, Value.isLiteral]) (by simp [growing])
      (by simp [growing])
  have has_list : stocked.Has (.list ⟨0⟩) := .inl (by simp [hand_stocked])
  have has_frozenset : stocked.Has (.frozenset ⟨0⟩) := .inl (by simp [hand_stocked])
  have alone (operation : Operation) (no_body : ∀ source body, operation ≠ .forEach source body)
      (value : Value) : LeavesAlone hosted [operation] value :=
    ⟨hostsSpare_hosted _, fun other member source body is_loop =>
      absurd (List.mem_singleton.mp member ▸ is_loop) (no_body source body)⟩
  obtain ⟨keeps, frozen, anew⟩ :=
    frame honestHosts_hosted (hostsSpare_hosted _) reachable_stocked
  obtain ⟨unknown, kept⟩ := anew copying copying_allowed rfl [.list ⟨1⟩] rfl (.list ⟨1⟩)
    (by simp) rfl
  refine ⟨reachable_stocked, ?_, ?_, unknown, ?_⟩
  · refine keeps [mixing] mixed (.perform mixing_allowed (.done _)) _ has_list
      (alone mixing (by simp [mixing]) _) ?_
    simp [mixing, Operation.target?, Value.kind, Kind.inplaceOperators]
  · refine frozen [mixing] mixed (.perform mixing_allowed (.done _)) _ has_frozenset
      (alone mixing (by simp [mixing]) _) ?_
    simp [mixing, Operation.isHostUpdate]
  · refine kept [growing] _ (.perform growing_allowed (.done _)) ?_ _ has_list
      (alone growing (by simp [growing]) _)
    simp [growing, Operation.target?, Value.kind, Kind.changingMethods]

end Session
end ObjectModel
