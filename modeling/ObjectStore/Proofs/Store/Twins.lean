import ObjectStore.Proofs.Engine.OpenTransaction
import ObjectStore.Proofs.Store.Alike
import ObjectStore.Proofs.Store.Reads

/-! # Two stores on the same machine

A store that reads arrays of records and one that hands records to a visitor are followed side by
side on hosts of the same machine (`Session.Twins`). The calls they make to read records differ,
but these leave both machines the same, error slots included; so every later call of both is
answered alike. What is read is the same, also where some record cannot be read: the visit ends at
the record that is the first an array fails at.
-/

namespace ObjectStore

variable {model : Model} {txn : Txn} {α β : Type}

/-! ## What the engine is able to do -/

namespace Engine

variable {e e' : Engine}

/-- An engine with arrays and the entity types of a model. -/
structure Knows (model : Model) (e : Engine) : Prop where
  arrays : e.arrays = true
  entities : ∀ entity ∈ model.entities, e.entities.contains entity.id = true

/-- Such an engine with a transaction open. -/
structure Serves (model : Model) (txn : Txn) (e : Engine) : Prop extends e.Knows model where
  opened : e.txns.contains txn.handle = true

theorem Serves.view (h : e.Serves model txn) : ∃ s, e.view (some txn.handle) = .ok s := by
  have opened := h.opened
  rw [Std.ExtTreeMap.contains_eq_isSome_getElem?] at opened
  obtain ⟨⟨mode, s⟩, found⟩ := Option.isSome_iff_exists.mp opened
  exact ⟨s, view_eq_ok.mpr ⟨mode, found⟩⟩

theorem Serves.perform {call : Call} {answer : call.Answer} (h : e.Serves model txn)
    (data : call.onData = true) (done : e.perform callerThread call = .ok (answer, e')) :
    e'.Serves model txn := by
  have moved : e.Moved callerThread ⟨call, answer⟩ e' := moved_of_perform done
  obtain ⟨quiet, part⟩ := @Served.part_of_onData ⟨call, answer⟩ data
  cases moved with
  | defined defines => simp [quiet] at defines
  | read => exact h
  | numbered => exact ⟨⟨h.arrays, h.entities⟩, h.opened⟩
  | wrote plays wrote turns covers grows =>
      cases wrote with
      | alone => exact ⟨⟨h.arrays, h.entities⟩, h.opened⟩
      | inTxn =>
          refine ⟨⟨h.arrays, h.entities⟩, ?_⟩
          change (e.txns.insert _ _).contains txn.handle = true
          rw [Std.ExtTreeMap.contains_insert, h.opened, Bool.or_true]
  | began plays | committed plays | aborted plays =>
      rcases part with none | ⟨write, writes⟩
      · cases plays.symm.trans none
      · cases plays.symm.trans writes
  | closed plays =>
      rcases part with none | ⟨write, writes⟩
      · rcases plays with plays | plays <;> cases plays.symm.trans none
      · rcases plays with plays | plays <;> cases plays.symm.trans writes

theorem Knows.begin {mode : TxnMode} {handle : Handle} (h : e.Knows model)
    (begun : e.begin callerThread mode = .ok (handle, e')) : e'.Serves model ⟨handle, mode⟩ := by
  obtain ⟨-, rfl, rfl⟩ := begin_eq_ok.mp begun
  exact ⟨⟨h.arrays, h.entities⟩, Std.ExtTreeMap.contains_insert_self⟩

end Engine

/-! ## Twins -/

/-- Hosts of the same machine, without planned faults. -/
structure Host.Twins (P : Engine → Prop) (h h' : Host) : Prop where
  plain : h.faults = []
  plain' : h'.faults = []
  machine : h'.machine = h.machine
  holds : P h.machine.engine

/-- Stores of the same model, one of which reads arrays while the other visits. -/
structure Store.Twins (model : Model) (store store' : Store) : Prop where
  model_eq : store.model = model
  model_eq' : store'.model = model
  closed : store'.closed = store.closed
  arrays : store.strategy = .resultArray
  visits : store'.strategy = .visitor

/-- Sessions of such stores on such hosts. -/
def Session.Twins (P : Engine → Prop) (model : Model) (s s' : Session) : Prop :=
  s.host.Twins P s'.host ∧ s.store.Twins model s'.store

theorem Host.Twins.weaken {P Q : Engine → Prop} {h h' : Host} (twins : h.Twins P h')
    (weaker : P h.machine.engine → Q h.machine.engine) : h.Twins Q h' :=
  ⟨twins.plain, twins.plain', twins.machine, weaker twins.holds⟩

namespace HostM

variable {P : Engine → Prop} {call : Call} {operation : String}

/-- What holds of the engine after a call: `Q` of its answer, or still `P` if it has none. -/
def After (P : Engine → Prop) (Q : α → Engine → Prop) : Except StoreError α → Engine → Prop
  | .ok a => Q a
  | .error _ => P

/-- What holds of the engine after a call was made: `Q` of its answer, or still `P` if it has
    none. -/
def Replied (P : Engine → Prop) (Q : α → Engine → Prop) : Reply α → Engine → Prop
  | .done answer => Q answer
  | .failed .. => P

theorem perform_alike {Q : Reply call.Answer → Engine → Prop}
    (served : ∀ e answer e', P e → e.perform callerThread call = .ok (answer, e') →
      Q (.done answer) e')
    (unserved : ∀ e status, P e → Q (.failed status none) e) :
    Alike (Host.Twins P) (perform call) (perform call) fun r => Host.Twins (After P Q r) := by
  intro h h' twins
  cases ended : h.machine.engine.perform callerThread call with
  | ok done =>
      obtain ⟨answer, e⟩ := done
      have ended' : h'.machine.engine.perform callerThread call = .ok (answer, e) := by
        rw [twins.machine, ended]
      have ran := perform_run.trans (by rw [Host.call_served twins.plain ended])
      have ran' := perform_run.trans (by rw [Host.call_served twins.plain' ended'])
      rw [show Runs.run (perform call).run h = _ from ran,
        show Runs.run (perform call).run h' = _ from ran']
      exact ⟨rfl, Host.faults_note.trans twins.plain, Host.faults_note.trans twins.plain',
        by rw [twins.machine], served _ _ _ twins.holds ended⟩
  | error halt =>
      have ended' : h'.machine.engine.perform callerThread call = .error halt := by
        rw [twins.machine, ended]
      cases halt with
      | refused why =>
          have ran := perform_run.trans (by rw [Host.call_refused twins.plain ended])
          have ran' := perform_run.trans (by rw [Host.call_refused twins.plain' ended'])
          rw [show Runs.run (perform call).run h = _ from ran,
            show Runs.run (perform call).run h' = _ from ran']
          exact ⟨rfl, Host.faults_note.trans twins.plain, Host.faults_note.trans twins.plain',
            by rw [twins.machine], unserved _ _ twins.holds⟩
      | waits =>
          have ran := perform_run.trans (by rw [Host.call_waits twins.plain ended])
          have ran' := perform_run.trans (by rw [Host.call_waits twins.plain' ended'])
          rw [show Runs.run (perform call).run h = _ from ran,
            show Runs.run (perform call).run h' = _ from ran']
          exact ⟨rfl, twins.plain, twins.plain', twins.machine, twins.holds⟩

theorem failure_alike {status : Status} :
    Alike (Host.Twins P) (failure operation status) (failure operation status)
      fun _ => Host.Twins P := by
  intro h h' twins
  refine ⟨?_, twins.plain, twins.plain', ?_, twins.holds⟩
  · change Except.ok (StoreError.takeFrom (h'.machine.slot callerThread) operation status).1 =
      Except.ok (StoreError.takeFrom (h.machine.slot callerThread) operation status).1
    rw [twins.machine]
  · change h'.machine.onSlot callerThread
        (fun _ => (StoreError.takeFrom (h'.machine.slot callerThread) operation status).2) =
      h.machine.onSlot callerThread
        (fun _ => (StoreError.takeFrom (h.machine.slot callerThread) operation status).2)
    rw [twins.machine]

theorem request_alike {Q : call.Answer → Engine → Prop}
    (served : ∀ e answer e', P e → e.perform callerThread call = .ok (answer, e') → Q answer e') :
    Alike (Host.Twins P) (request operation call) (request operation call)
      fun r => Host.Twins (After P Q r) := by
  unfold request
  refine Alike.bind (perform_alike (Q := Replied P Q) served fun _ _ holds => holds) ?_ ?_
  · intro reply
    cases reply with
    | done answer => exact Alike.pure fun _ _ twins => twins
    | failed status answer =>
        exact failure_alike.bind (fun _ => Alike.throw fun _ _ twins => twins)
          fun _ _ _ twins => twins
  · exact fun _ _ _ twins => twins

theorem perform_kept {h : Host} {answer : call.Answer} (plain : h.faults = [])
    (done : h.machine.engine.perform callerThread call = .ok (answer, h.machine.engine)) :
    perform call h = (.ok (.done answer), h.note callerThread call) := by
  rw [perform_run, Host.call_served plain done]
  simp only [Host.note]
  split <;> rfl

theorem request_kept {h : Host} {answer : call.Answer} (plain : h.faults = [])
    (done : h.machine.engine.perform callerThread call = .ok (answer, h.machine.engine)) :
    request operation call h = (.ok answer, h.note callerThread call) :=
  bind_run (perform_kept plain done)

end HostM

namespace StoreM

variable {P : Engine → Prop}

theorem ofHost_run {program : HostM α} {s : Session} {r : Except StoreError α} {host : Host}
    (ran : program s.host = (r, host)) :
    Runs.run (ofHost program).run s = (r, { s with host }) := by
  change ((program s.host).1, { s with host := (program s.host).2 }) = _
  rw [ran]

theorem ofHost_alike {p p' : HostM α} {S : Except StoreError α → Engine → Prop}
    (h : Alike (Host.Twins P) p p' fun r => Host.Twins (S r)) :
    Alike (Session.Twins P model) (ofHost p) (ofHost p') fun r => Session.Twins (S r) model :=
  Alike.ofHost h

theorem store_alike {f f' : Store → StoreM α}
    {S : Except StoreError α → Session → Session → Prop}
    (next : ∀ store store', store.Twins model store' →
      Alike (Session.Twins P model) (f store) (f' store') S) :
    Alike (Session.Twins P model) (store >>= f) (store >>= f') S := by
  intro s s' twins
  have ran (f : Store → StoreM α) (s : Session) :
      Runs.run (store >>= f).run s = Runs.run (f s.store).run s := Alike.run_bind rfl
  rw [ran, ran]
  exact next s.store s'.store twins.2 s s' twins

theorem ensureOpen_alike :
    Alike (Session.Twins P model) ensureOpen ensureOpen fun _ => Session.Twins P model := by
  refine store_alike fun store store' twins => ?_
  rw [twins.closed]
  split
  · exact Alike.throw fun _ _ twins => twins
  · exact Alike.pure fun _ _ twins => twins

end StoreM

theorem Store.boxFor_alike {P : Engine → Prop} {T : Type} {binding : Binding T}
    {f f' : Box T → StoreM α} (next : ∀ b : Box T, b.binding = binding →
      b.descriptor ∈ model.entities →
        Alike (Session.Twins P model) (f b) (f' b) fun _ => Session.Twins P model) :
    Alike (Session.Twins P model) (boxFor binding >>= f) (boxFor binding >>= f')
      fun _ => Session.Twins P model := by
  let Boxed : Except StoreError (Box T) → Session → Session → Prop
    | .ok b => fun s s' =>
      Session.Twins P model s s' ∧ b.binding = binding ∧ b.descriptor ∈ model.entities
    | .error _ => Session.Twins P model
  have boxed : Alike (Session.Twins P model) (boxFor binding) (boxFor binding) Boxed := by
    refine StoreM.ensureOpen_alike.bind (fun _ => ?_) fun _ _ _ twins => twins
    refine StoreM.store_alike fun store store' twins => ?_
    rw [twins.model_eq, twins.model_eq']
    cases bound : model.bound? binding.name with
    | none => exact Alike.throw fun _ _ twins => twins
    | some descriptor =>
        exact Alike.pure fun _ _ twins => ⟨twins, rfl, List.mem_of_find?_eq_some bound⟩
  refine boxed.bind (fun b => ?_) fun _ _ _ twins => twins
  rintro s s' ⟨twins, same, member⟩
  exact next b same member s s' twins

/-! ## Reading records -/

namespace Box

variable {T : Type} {b : Box T} {selection : Selection} {existingOnly : Bool}

/-- Records after one that cannot be read are of no account. -/
theorem decodeAll_failed {record : Bytes} {why : CodecError} {before after : List (Option Bytes)}
    (failed : b.binding.decode record = .error why) :
    b.decodeAll existingOnly (before ++ some record :: after) =
      b.decodeAll existingOnly (before ++ [some record]) := by
  induction before with
  | nil => simp only [List.nil_append, decodeAll, failed, bind, Except.bind]
  | cons first before ih =>
      cases first with
      | none => rw [List.cons_append, List.cons_append, decodeAll, decodeAll, ih]
      | some bytes => rw [List.cons_append, List.cons_append, decodeAll, decodeAll, ih]

theorem decodeAll_visit {seen records : List (Option Bytes)} :
    b.decodeAll existingOnly (b.visitor.visit seen records).reverse =
      b.decodeAll existingOnly (seen.reverse ++ records) := by
  induction records generalizing seen with
  | nil => rw [Visitor.visit, List.append_nil]
  | cons record records ih =>
      have goesOn : b.decodeAll existingOnly (b.visitor.visit (record :: seen) records).reverse =
          b.decodeAll existingOnly (seen.reverse ++ record :: records) := by
        rw [ih, List.reverse_cons, List.append_assoc, List.singleton_append]
      cases record with
      | none => rwa [Visitor.visit, if_pos (by simp [visitor])]
      | some bytes =>
          cases read : b.binding.decode bytes with
          | ok object => rwa [Visitor.visit, if_pos (by rw [visitor, read]; rfl)]
          | error why =>
              rw [Visitor.visit, if_neg (by rw [visitor, read]; simp [Except.isOk, Except.toBool])]
              rw [List.reverse_cons, ← decodeAll_failed read]

theorem decoded_alike {P : Engine → Prop} {records records' : List (Option Bytes)}
    (same : b.decodeAll existingOnly records' = b.decodeAll existingOnly records) :
    Alike (Session.Twins P model) (b.decoded existingOnly records)
      (b.decoded existingOnly records') fun _ => Session.Twins P model := by
  unfold decoded
  rw [same]
  cases b.decodeAll existingOnly records with
  | ok objects => exact Alike.pure fun _ _ twins => twins
  | error why => exact Alike.throw fun _ _ twins => twins

section Run

variable (b selection existingOnly)
variable {s : Session} {snapshot : Snapshot} (plain : s.host.faults = [])
  (known : s.host.machine.engine.entities.contains b.entity = true)
  (view : s.host.machine.engine.view (some txn.handle) = .ok snapshot)
include plain known view

theorem readArray_run (arrays : s.host.machine.engine.arrays = true) :
    ∃ call, Runs.run (b.readArray txn selection existingOnly).run s =
      Runs.run (b.decoded existingOnly (b.selected snapshot selection)).run
        { s with host := s.host.note callerThread call } := by
  cases selection with
  | ids ids =>
      have served : s.host.machine.engine.perform callerThread
          (.getMany (some txn.handle) b.entity ids) =
            .ok (ids.map (snapshot.record? b.entity), s.host.machine.engine) := by
        rw [Engine.perform, Engine.reading, Engine.getMany_eq arrays known view]
        rfl
      exact ⟨_, Alike.run_bind (StoreM.ofHost_run (HostM.request_kept plain served))⟩
  | all =>
      have served : s.host.machine.engine.perform callerThread
          (.getAll (some txn.handle) b.entity) =
            .ok (snapshot.recordList b.entity, s.host.machine.engine) := by
        rw [Engine.perform, Engine.reading, Engine.getAll_eq arrays known view]
        rfl
      exact ⟨_, Alike.run_bind (StoreM.ofHost_run (HostM.request_kept plain served))⟩

theorem readVisit_run :
    ∃ call, Runs.run (b.readVisit txn selection existingOnly).run s =
      Runs.run (b.decoded existingOnly
        (b.visitor.visit [] (b.selected snapshot selection)).reverse).run
        { s with host := s.host.note callerThread call } := by
  cases selection with
  | ids ids =>
      have served : s.host.machine.engine.perform callerThread
          (.visitMany (some txn.handle) b.entity ids b.visitor) =
            .ok ((b.visitor.visit [] (ids.map (snapshot.record? b.entity))).reverse,
              s.host.machine.engine) := by
        rw [Engine.perform, Engine.reading, Engine.visitMany_eq known view]
        rfl
      exact ⟨_, Alike.run_bind (StoreM.ofHost_run (HostM.perform_kept plain served))⟩
  | all =>
      have served : s.host.machine.engine.perform callerThread
          (.visitAll (some txn.handle) b.entity b.visitor) =
            .ok ((b.visitor.visit [] ((snapshot.recordList b.entity).map some)).reverse,
              s.host.machine.engine) := by
        rw [Engine.perform, Engine.reading, Engine.visitAll_eq known view]
        rfl
      exact ⟨_, Alike.run_bind (StoreM.ofHost_run (HostM.perform_kept plain served))⟩

end Run

theorem readArray_readVisit_alike (member : b.descriptor ∈ model.entities) :
    Alike (Session.Twins (Engine.Serves model txn) model)
      (b.readArray txn selection existingOnly) (b.readVisit txn selection existingOnly)
      fun _ => Session.Twins (Engine.Serves model txn) model := by
  rintro s s' ⟨twins, stores⟩
  obtain ⟨snapshot, view⟩ := twins.holds.view
  have known : s.host.machine.engine.entities.contains b.entity = true :=
    twins.holds.entities b.descriptor member
  obtain ⟨call, ran⟩ := readArray_run b selection existingOnly twins.plain known view
    twins.holds.arrays
  obtain ⟨call', ran'⟩ := readVisit_run b selection existingOnly twins.plain'
    (by rw [twins.machine]; exact known) (by rw [twins.machine]; exact view)
  rw [ran, ran']
  -- the calls that were kept differ, but the machines do not
  refine decoded_alike decodeAll_visit _ _ ⟨⟨?_, ?_, ?_, ?_⟩, stores⟩
  · exact Host.faults_note.trans twins.plain
  · exact Host.faults_note.trans twins.plain'
  · rw [Host.machine_note, Host.machine_note, twins.machine]
  · rw [Host.machine_note]
    exact twins.holds

/-- Both strategies read alike, if what goes with the objects is loaded alike. -/
theorem readMany_alike (member : b.descriptor ∈ model.entities)
    (loads : b.descriptor.hasRelations = true → ∀ object,
      Alike (Session.Twins (Engine.Serves model txn) model) (b.binding.loadRelated txn object)
        (b.binding.loadRelated txn object)
        fun _ => Session.Twins (Engine.Serves model txn) model) :
    Alike (Session.Twins (Engine.Serves model txn) model)
      (b.readMany txn selection existingOnly) (b.readMany txn selection existingOnly)
      fun _ => Session.Twins (Engine.Serves model txn) model := by
  unfold readMany
  refine StoreM.ensureOpen_alike.andThen fun _ => ?_
  split
  · exact Alike.pure fun _ _ twins => twins
  · refine StoreM.store_alike fun store store' twins => ?_
    simp only [twins.arrays, twins.visits]
    refine (readArray_readVisit_alike member).andThen fun objects => ?_
    split
    · rename_i related
      refine Alike.mapM (fun object => ?_) objects
      cases object with
      | none => exact Alike.pure fun _ _ twins => twins
      | some object =>
          simp only [loadRelated, related, if_true]
          exact (loads related object).andThen fun _ => Alike.pure fun _ _ twins => twins
    · exact Alike.pure fun _ _ twins => twins

end Box

end ObjectStore
