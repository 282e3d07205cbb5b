import ObjectStore.Proofs.Engine.Holdings
import ObjectStore.Proofs.Store.Atomicity
import ObjectStore.Proofs.Store.WriteCalls

/-! # What lasts whatever boxes do

The calls a box makes define nothing, and the records they store are made from objects of the box.
A property that all such calls keep, and all writes of such records that are queued, therefore
lasts whatever is done with the boxes of a store, in a transaction or not, and however it ends
(`Store.Lasting`). Of a box it is asked that its records have the property `W`, and that storing and
loading related objects keeps what lasts (`Box.Lawful`).
-/

namespace ObjectStore

variable {model : Model} {W : EntityId → ObjectId → Bytes → Prop} {P : Store × Engine → Prop}

/-- A property of a store and its engine that is kept by calls which define nothing and store only
records of `W`, and by queueing such writes. -/
structure Store.Lasting (model : Model) (W : EntityId → ObjectId → Bytes → Prop)
    (P : Store × Engine → Prop) : Prop where
  model {v : Store × Engine} : P v → v.1.model = model
  served {store : Store} {e e' : Engine} {served : Served} : P (store, e) →
    served.call.defines = false → served.call.Stores W →
    e.perform callerThread served.call = .ok (served.answer, e') → P (store, e')
  queued {store : Store} {e : Engine} {write : QueuedWrite} : P (store, e) →
    write.call.Stores W →
    P ({ store with queue := { store.queue with pending := store.queue.pending ++ [write] } }, e)

/-- What lasts where calls store records of a property lasts where they store fewer. -/
theorem Store.Lasting.mono {W' : EntityId → ObjectId → Bytes → Prop}
    (h : Store.Lasting model W' P)
    (fewer : ∀ entity id record, W entity id record → W' entity id record) :
    Store.Lasting model W P where
  model := h.model
  served holds quiet stores := h.served holds quiet fun entity id record member =>
    fewer entity id record (stores entity id record member)
  queued holds stores := h.queued holds fun entity id record member =>
    fewer entity id record (stores entity id record member)

/-- Whatever the program makes of the objects, it keeps a property of the store and its engine. -/
abbrev Editing.Lasts {σ α : Type} (P : Store × Engine → Prop) (p : Editing σ α) : Prop :=
  Editing.Keeps (fun _ => ()) P p

theorem Editing.Keeps.lasts {σ γ α : Type} {f : σ → γ} {p : Editing σ α}
    (h : Editing.Keeps f P p) : Editing.Lasts P p :=
  fun objects v holds => (h objects v holds).mono fun _ _ kept => ⟨rfl, kept.2⟩

/-- A box whose records have the property `W`, which keeps what lasts where it stores the objects
that go with its own, and only reads where it loads them. -/
structure Box.Lawful {T : Type} (model : Model) (W : EntityId → ObjectId → Bytes → Prop)
    (b : Box T) : Prop where
  record {object : T} {id : ObjectId} {record : Bytes} :
    Record.made id (b.binding.body object) = .ok record → W b.entity id record
  putRelated {P : Store × Engine → Prop} (lasting : Store.Lasting model W P) (txn : Txn)
    (id : ObjectId) : Editing.Lasts P (b.binding.putRelated txn id)
  loadRelated {P : Store × Engine → Prop} (txn : Txn) (object : T) :
    Maintains P (b.binding.loadRelated txn object)

/-- Whatever a model registers a binding for is lawful. -/
def Binding.Lawful {T : Type} (model : Model) (W : EntityId → ObjectId → Bytes → Prop)
    (binding : Binding T) : Prop :=
  ∀ descriptor, model.bound? binding.name = some descriptor →
    Box.Lawful model W ⟨descriptor, binding⟩

/-! ## Calls -/

/-- A queue that is shut takes no write. -/
theorem Store.submit_shut {store : Store} {e : Engine} {write : QueuedWrite}
    (shut : store.queue.shut = true) :
    Ends (submit write) (store, e) (.error .queueShut) (store, e) := by
  rintro s ⟨shows, same⟩
  have refused : s.store.queue.submit write = .error .queueShut := by
    rw [same]
    simp only [Queue.submit, shut, if_true]
  have ran : submit write s = (.error .queueShut, s) := by
    simp only [submit, getThe, bind, ExceptT.bind, ExceptT.bindCont, ExceptT.mk, StateT.bind,
      MonadStateOf.get, liftM, monadLift, MonadLift.monadLift, ExceptT.lift, Functor.map,
      StateT.map, StateT.get, pure, refused]
    rfl
  refine ⟨(store, e), ?_, ?_, rfl⟩ <;> rw [show Runs.run (submit write).run s = _ from ran]
  exact ⟨shows, same⟩

namespace Store.Lasting

variable {call : Call} {operation : String} {txn : Option Handle} {entity : EntityId}
  (lasting : Store.Lasting model W P)
include lasting

/-- What a call that is served makes of an engine, to be used for the call at hand. -/
theorem kept (quiet : call.defines = false) (stores : call.Stores W) (store : Store)
    (e : Engine) (answer : call.Answer) (e' : Engine) (holds : P (store, e))
    (done : e.perform callerThread call = .ok (answer, e')) : P (store, e') :=
  @Store.Lasting.served _ _ _ lasting _ _ _ ⟨call, answer⟩ holds quiet stores done

theorem request (quiet : call.defines = false) (stores : call.Stores W) :
    Maintains P (StoreM.ofHost (HostM.request operation call)) :=
  .ofHost fun store => HostM.request_maintains (lasting.kept quiet stores store)

/-- A call that stores no record. -/
theorem ask (quiet : call.defines = false) (none : call.stores = []) :
    Maintains P (StoreM.ofHost (HostM.request operation call)) :=
  lasting.request quiet (Call.stores_of_nil none)

theorem perform (quiet : call.defines = false) (none : call.stores = []) :
    Maintains P (StoreM.ofHost (HostM.perform call)) :=
  .ofHost fun store => HostM.perform_maintains
    (lasting.kept quiet (Call.stores_of_nil none) store)

theorem allocateOne {candidate : ObjectId} :
    Maintains P (StoreM.ofHost (Store.allocateOne txn entity candidate)) :=
  .ofHost fun store => Store.allocateOne_maintains
    (lasting.kept rfl (Call.stores_of_nil rfl) store)

theorem allocateBlock {count : Nat} :
    Maintains P (StoreM.ofHost (Store.allocateBlock txn entity count)) :=
  .ofHost fun store => Store.allocateBlock_maintains
    (lasting.kept rfl (Call.stores_of_nil rfl) store)

theorem submit {write : QueuedWrite} (stores : write.call.Stores W) :
    Maintains P (Store.submit write) := by
  rintro ⟨store, e⟩ holds
  cases shut : store.queue.shut with
  | false => exact (submit_ends shut).leads (lasting.queued holds stores)
  | true => exact (submit_shut shut).leads holds

end Store.Lasting

/-! ## Storing -/

namespace Editing.Lasts

variable {σ τ α β : Type} {as : List α}

theorem forEach {step : α → Editing σ β} (each : ∀ a, Lasts P (step a)) :
    Lasts P (forEach step as) :=
  (Keeps.forEach each).lasts

/-- What is done with every object of a list, its answers having a property if it succeeds. -/
theorem forEach_answers {A : α → β → Prop} {step : α → Editing σ β}
    (each : ∀ a object v, P v → Leads (step a) (object, v) fun r w =>
      P w.2 ∧ ∀ b, r = .ok b → A a b) (objects : List σ) (v : Store × Engine) (holds : P v) :
    Leads (Editing.forEach step as) (objects, v) fun r w =>
      P w.2 ∧ ∀ bs, r = .ok bs → ∀ entry ∈ as.zip bs, A entry.1 entry.2 := by
  induction as generalizing objects v with
  | nil => exact forEach_nil ⟨holds, fun bs _ entry member => by simp at member⟩
  | cons a as ih =>
      cases objects with
      | nil => exact forEach_empty ⟨holds, by rintro _ ⟨⟩ entry member; simp at member⟩
      | cons object objects =>
          refine forEach_cons ((each a object v holds).mono ?_)
          rintro (why | b) ⟨object', v'⟩ ⟨kept, answered⟩
          · exact ⟨kept, by rintro _ ⟨⟩⟩
          · simp only [Rest]
            refine (ih objects v' kept).mono ?_
            rintro (why | bs) w ⟨kept, all⟩
            · exact ⟨kept, by rintro _ ⟨⟩⟩
            · refine ⟨kept, ?_⟩
              rintro _ ⟨⟩ entry member
              rcases List.mem_cons.mp member with rfl | member
              · exact answered b rfl
              · exact all bs rfl entry member

theorem forChunks {size : Nat} {chunk : Editing (List σ) β} (each : Lasts P chunk) :
    Lasts P (forChunks size chunk) := by
  intro objects v holds
  refine forChunks_leads rfl ((forEach (fun _ => each) _ v holds).mono ?_)
  rintro r w ⟨-, kept⟩
  exact ⟨rfl, kept⟩

end Editing.Lasts

/-- A step that is left out under some condition. -/
theorem Editing.Keeps.when {σ γ α : Type} {f : σ → γ} {c : Prop} [Decidable c]
    {step : Editing σ Unit} {next : Unit → Editing σ α} (first : c → Keeps f P step)
    (rest : ∀ u, Keeps f P (next u)) : Keeps f P (if c then step >>= next else next ()) := by
  split
  · exact .bind (first ‹_›) rest
  · exact rest ()

theorem Editing.Keeps.outcome {σ γ α : Type} {f : σ → γ} {program : Editing σ α}
    (h : Keeps f P program) : Keeps f P (Editing.outcome program) :=
  fun objects v holds => outcome_leads ((h objects v holds).mono fun _ _ kept => kept)

section Transactions

variable {σ α : Type} {mode : TxnMode} (lasting : Store.Lasting model W P)
include lasting

theorem Txn.begin_lasts : Maintains P (StoreM.ofHost (Txn.begin mode)) :=
  .ofHost fun store => .bind (HostM.request_maintains
    (lasting.kept rfl (Call.stores_of_nil rfl) store)) fun _ => .pure

theorem Txn.commit_lasts {txn : Txn} : Maintains P (StoreM.ofHost txn.commit) :=
  lasting.ask rfl rfl

theorem Txn.abort_lasts {txn : Txn} : Maintains P (StoreM.ofHost txn.abort) :=
  lasting.ask rfl rfl

theorem Txn.drop_lasts {txn : Txn} : Maintains P (StoreM.ofHost txn.drop) :=
  .ofHost fun store => .bind (HostM.perform_maintains
    (lasting.kept rfl (Call.stores_of_nil rfl) store)) fun _ => .pure

theorem Store.beginTxn_lasts : Maintains P (Store.beginTxn mode) :=
  .bind .ensureOpen fun _ => Txn.begin_lasts lasting

/-- What every program in its transaction keeps, it keeps in a transaction of its own. -/
theorem Store.runIn_lasts {program : Txn → Editing σ α}
    (lasts : ∀ txn, Editing.Lasts P (program txn)) : Editing.Lasts P (runIn mode program) := by
  refine .bind (.ofStore (beginTxn_lasts lasting)) fun txn => ?_
  refine .bind (.outcome (lasts txn)) fun ended => ?_
  split
  · exact .bind (.ofStore (Txn.commit_lasts lasting)) fun _ => .pure
  · exact .bind (.ofStore (Txn.drop_lasts lasting)) fun _ => .ofStore .throw

theorem Box.reading_lasts {txn : Option Txn} {program : Txn → StoreM α}
    (lasts : ∀ txn, Maintains P (program txn)) : Maintains P (reading txn program) := by
  cases txn with
  | some txn => exact lasts txn
  | none =>
      intro v holds
      have own : Editing.Lasts P (Store.runIn .read fun txn => (program txn : Editing Unit α)) :=
        Store.runIn_lasts lasting fun txn => .ofStore (lasts txn)
      exact Store.runInTxn_leads ((own () v holds).mono fun _ _ kept => kept.2)

end Transactions

namespace Box

variable {T : Type} {b : Box T} {id current : ObjectId} {how : PutMode} {txn : Option Txn}

theorem currentId_lasts : Editing.Lasts P b.currentId :=
  currentId_keeps.lasts

theorem assignId_lasts : Editing.Lasts P (b.assignId id) := by
  intro object v holds
  refine Ends.bind Editing.current_ends ?_
  split
  · exact Editing.replace_ends.leads ⟨rfl, holds⟩
  · exact Leads.throw ⟨rfl, holds⟩

theorem writeBack_lasts {assigned : List Assigned} : Editing.Lasts P (b.writeBack assigned) := by
  refine .bind (Editing.Lasts.forEach fun a => ?_) fun _ => .pure
  split
  · exact assignId_lasts
  · exact .pure

variable (lasting : Store.Lasting model W P) (lawful : b.Lawful model W)
include lasting lawful

/-- What becomes of the record of the object at hand may rely on the property of records. -/
theorem encode_bind_lasts {α : Type} {next : Bytes → Editing T α}
    (rest : ∀ record, W b.entity id record → Editing.Lasts P (next record)) :
    Editing.Lasts P (do let record ← b.encode id (← Editing.current); next record) := by
  have := lasting
  intro object v holds
  refine Ends.bind Editing.current_ends ?_
  have made : Ends (b.encode id object) v (Record.made id (b.binding.body object)) v := encode_makes
  cases written : Record.made id (b.binding.body object) <;> rw [written] at made
  · exact Ends.bind_error (Ends.ofStore made) ⟨rfl, holds⟩
  · exact Ends.bind (Ends.ofStore made) (rest _ (lawful.record written) object v holds)

theorem storeUnder_lasts : Editing.Lasts P (b.storeUnder txn id how) := by
  have stored : Editing.Lasts P (do
      let record ← b.encode id (← Editing.current)
      HostM.request "put" (.put (txn.map Txn.handle) b.entity id record how)
      return id : Editing T ObjectId) :=
    encode_bind_lasts lasting lawful fun record allowed =>
      .bind (.ofStore (lasting.request rfl (Call.stores_put.mpr allowed))) fun _ => .pure
  unfold storeUnder
  split
  · cases txn with
    | some txn => exact .bind (lawful.putRelated lasting txn id) fun _ => stored
    | none => exact stored
  · exact stored

theorem write_lasts : Editing.Lasts P (b.write txn current how) := by
  by_cases update : how = .update
  · subst update
    rw [write_update_eq]
    exact storeUnder_lasts lasting lawful
  · rw [write_eq update]
    exact .bind (.ofStore lasting.allocateOne) fun _ => storeUnder_lasts lasting lawful

theorem putObject_lasts : Editing.Lasts P (b.putObject txn how) := by
  have finished {program : Editing T ObjectId} (current : ObjectId)
      (stored : Editing.Lasts P program) : Editing.Lasts P (do
        let id ← program
        if id ≠ current then b.assignId id
        return id : Editing T ObjectId) :=
    .bind stored fun id => .when (fun _ => assignId_lasts) fun _ => .pure
  refine .bind (.ofStore .ensureOpen) fun _ => .bind currentId_lasts fun current => ?_
  refine .when (fun _ => .ofStore .throw) fun _ => ?_
  by_cases own : txn.isNone ∧ b.descriptor.hasRelations
  · rw [if_pos own]
    exact finished current (Store.runIn_lasts lasting fun txn => write_lasts lasting lawful)
  · rw [if_neg own]
    exact finished current (write_lasts lasting lawful)

theorem update_lasts : Editing.Lasts P (b.update txn) :=
  .bind (putObject_lasts lasting lawful) fun _ => .pure

theorem writeOne_lasts {txn : Txn} : Editing.Lasts P (b.writeOne txn) :=
  .bind currentId_lasts fun _ => .bind (write_lasts lasting lawful) fun _ => .pure

theorem writeChunk_lasts {txn : Txn} : Editing.Lasts P (b.writeChunk txn) := by
  have := lawful
  refine .bind .current fun objects => .bind (.ofStore (.mapM fun _ => .idOf)) fun currents => ?_
  refine .bind (.ofStore lasting.allocateBlock) fun first => ?_
  have encoded (id : ObjectId) : ∀ object v, P v →
      Leads (b.encodeUnder txn id) (object, v) fun r w =>
        P w.2 ∧ ∀ record, r = .ok record → W b.entity id record := by
    have made (object : T) (v : Store × Engine) (holds : P v) :
        Leads (do b.encode id (← Editing.current) : Editing T Bytes) (object, v) fun r w =>
          P w.2 ∧ ∀ record, r = .ok record → W b.entity id record :=
      Ends.bind Editing.current_ends
        ((Ends.ofStore encode_makes).leads ⟨holds, fun record written => lawful.record written⟩)
    intro object v holds
    unfold encodeUnder
    split
    · refine (lawful.putRelated lasting txn id object v holds).onward
        (fun _ w kept => made w.1 w.2 kept.2) fun why w kept => ⟨kept.2, ?_⟩
      rintro _ ⟨⟩
    · exact made object v holds
  intro objects v holds
  refine (Editing.Lasts.forEach_answers encoded objects v holds).onward ?_ ?_
  · rintro records w ⟨kept, allowed⟩
    exact Editing.Keeps.bind (f := fun _ => ()) (.ofStore (lasting.request rfl
      (Call.stores_putMany.mpr (allowed records rfl)))) (fun _ => .pure) w.1 w.2 kept
  · exact fun why w kept => ⟨rfl, kept.1⟩

theorem writeMany_lasts {txn : Txn} : Editing.Lasts P (b.writeMany txn) := by
  refine .bind (.ofStore .store) fun store => ?_
  split
  · exact .bind (Editing.Lasts.forChunks (writeChunk_lasts lasting lawful)) fun _ => .pure
  · exact .bind .current fun _ => Editing.Lasts.forEach fun _ => writeOne_lasts lasting lawful

theorem putMany_lasts : Editing.Lasts P (b.putMany txn) := by
  have finished {program : Editing (List T) (List Assigned)} (stored : Editing.Lasts P program) :
      Editing.Lasts P (do
        let assigned ← program
        b.writeBack assigned
        return assigned.map Assigned.id : Editing (List T) (List ObjectId)) :=
    .bind stored fun assigned => .bind writeBack_lasts fun _ => .pure
  refine .bind (.ofStore .ensureOpen) fun _ => .bind .current fun objects => ?_
  split
  · exact .pure
  · cases txn with
    | some txn => exact finished (writeMany_lasts lasting lawful)
    | none =>
        exact finished (Store.runIn_lasts lasting fun txn => writeMany_lasts lasting lawful)

/-- A put that is deferred stores the objects that go with its own, and queues their record. -/
theorem putLater_lasts : Editing.Lasts P (b.putLater how) := by
  have queued (current id : ObjectId) : Editing.Lasts P (do
      if b.descriptor.hasRelations then
        Store.runIn .write fun txn => b.binding.putRelated txn id
      let record ← b.encode id (← Editing.current)
      Store.submit (.put b.entity id record how)
      if id ≠ current then b.assignId id
      return id : Editing T ObjectId) := by
    refine .when (fun _ => Store.runIn_lasts lasting fun txn => lawful.putRelated lasting txn id)
      fun _ => encode_bind_lasts lasting lawful fun record allowed => ?_
    refine .bind (.ofStore (lasting.submit (Call.stores_put.mpr allowed))) fun _ => ?_
    exact .when (fun _ => assignId_lasts) fun _ => .pure
  refine .bind (.ofStore .ensureOpen) fun _ => .bind currentId_lasts fun current => ?_
  refine .when (fun _ => .ofStore .throw) fun _ => ?_
  cases how with
  | update => exact queued current current
  | put | insert | putNew =>
      exact .bind (.ofStore lasting.allocateOne) fun id => queued current id

end Box

/-! ## Reading -/

namespace Box

variable {T : Type} (b : Box T) (lasting : Store.Lasting model W P) (lawful : b.Lawful model W)
  (txn : Option Txn)
include lasting lawful

theorem get_lasts (id : ObjectId) : Maintains P (b.get txn id) :=
  reading_lasts lasting fun txn => getIn_maintains (lawful.loadRelated txn)

theorem getMany_lasts (ids : List ObjectId) : Maintains P (b.getMany txn ids) :=
  reading_lasts lasting fun txn => readMany_maintains (lawful.loadRelated txn)

theorem getManyExisting_lasts (ids : List ObjectId) : Maintains P (b.getManyExisting txn ids) :=
  reading_lasts lasting fun txn => getManyExistingIn_maintains (lawful.loadRelated txn)

theorem getAll_lasts : Maintains P (b.getAll txn) :=
  reading_lasts lasting fun txn =>
    .bind (readMany_maintains (lawful.loadRelated txn)) fun _ => .pure

end Box

/-! ## Links -/

namespace Store

variable {T : Type} {binding : Binding T} {txn : Txn} {relation : Relation}
  {source stored : ObjectId} (lasting : Store.Lasting model W P)
include lasting

theorem linkTarget_lasts {b : Box T} (lawful : b.Lawful model W) {linked : IdSet} :
    Editing.Lasts P (linkTarget b txn relation source linked) := by
  have linking (target : ObjectId) : Editing.Lasts P (do
      if linked.contains target then return linked.erase target
      HostM.request "rel_put" (.relPut (some txn.handle) relation.id source target)
      return linked : Editing T IdSet) := by
    split
    · exact .pure
    · exact .bind (.ofStore (lasting.ask rfl rfl)) fun _ => .pure
  refine .bind Box.currentId_lasts fun current => ?_
  split
  · exact .bind (Box.putObject_lasts lasting lawful) linking
  · exact .bind .pure linking

theorem linkTargets_lasts {b : Box T} (lawful : b.Lawful model W) {linked : IdSet} :
    Editing.Lasts P (linkTargets b txn relation source linked) := by
  intro objects
  induction objects generalizing linked with
  | nil => exact fun v holds => linkTargets_nil ⟨rfl, holds⟩
  | cons object objects ih =>
      intro v holds
      refine linkTargets_cons ((linkTarget_lasts lasting lawful object v holds).mono ?_)
      rintro (why | linked) ⟨object', v⟩ ⟨-, kept⟩
      · exact ⟨rfl, kept⟩
      · rw [Further]
        exact (ih v kept).mono fun r w later => ⟨rfl, later.2⟩

/-- What is done with a box that is found is done with one the model registers. -/
theorem boxFor_lasts {σ α : Type} {program : Box T → Editing σ α}
    (each : ∀ descriptor, model.bound? binding.name = some descriptor →
      Editing.Lasts P (program ⟨descriptor, binding⟩)) :
    Editing.Lasts P (Editing.ofStore (boxFor binding) >>= program) := by
  rintro objects ⟨store, e⟩ holds
  have finds := @StoreM.boxFor_finds _ store e binding
  cases found : store.registered binding.name <;> rw [found] at finds
  case error why => exact Ends.bind_error (Ends.ofStore finds) ⟨rfl, holds⟩
  case ok descriptor =>
    refine Ends.bind (Ends.ofStore finds) (each descriptor ?_ _ _ holds)
    rw [← lasting.model holds]
    unfold registered at found
    grind

theorem replaceLinks_lasts (lawful : binding.Lawful model W) :
    Editing.Lasts P (replaceLinks binding txn relation source stored) := by
  have linking (linked : List ObjectId) : Editing.Lasts P (do
        let b ← boxFor binding
        let unwanted ← Editing.focus (fun targets => targets.getD [])
          (fun _ targets => some targets) (linkTargets b txn relation source (.ofList linked))
        unwanted.toList.forM fun target =>
          HostM.request "rel_remove" (.relRemove (some txn.handle) relation.id source target) :
        Editing (Option (List T)) Unit) := by
    refine boxFor_lasts lasting fun descriptor bound => .bind ?_ fun unwanted => ?_
    · exact .focus (fun _ _ => rfl) (linkTargets_lasts lasting (lawful descriptor bound))
    · exact .forM fun target => .ofStore (lasting.ask rfl rfl)
  refine .bind .current fun targets => ?_
  split
  · split
    · exact .ofStore .throw
    · exact .pure
  · split
    · exact .bind .pure linking
    · exact .bind (.ofStore (lasting.ask rfl rfl)) linking

theorem relationReplace_lasts {S : Type} {b : Box S} {object : S} {txn : Option Txn}
    (lawful : binding.Lawful model W) :
    Editing.Lasts P (b.relationReplace binding txn relation source object) := by
  refine .bind (.ofStore .ensureOpen) fun _ => .bind (.ofStore Box.checkSource_maintains) fun _ => ?_
  refine .bind (.ofStore .idOf) fun stored => .bind .current fun targets => ?_
  split
  · exact replaceLinks_lasts lasting lawful
  · exact runIn_lasts lasting fun txn => replaceLinks_lasts lasting lawful
  · split
    · exact .ofStore .throw
    · exact .pure

end Store

/-! ## Removing -/

namespace Box

variable {T : Type} {b : Box T} {id : ObjectId} {ids : List ObjectId} {txn : Option Txn}
  (lasting : Store.Lasting model W P)
include lasting

theorem removeId_lasts : Maintains P (b.removeId txn id) := by
  refine .bind .ensureOpen fun _ => .bind (lasting.perform rfl rfl) fun reply => ?_
  split
  · exact .pure
  · exact .throw
  · exact .bind .failure fun _ => .throw

theorem removeIds_lasts : Maintains P (b.removeIds txn ids) := by
  refine .bind .ensureOpen fun _ => ?_
  split
  · exact .pure
  · exact lasting.ask rfl rfl

theorem remove_lasts {object : T} : Maintains P (b.remove object) :=
  .bind .idOf fun _ => removeId_lasts lasting

theorem removeMany_lasts {objects : List T} : Maintains P (b.removeMany objects) :=
  .bind (.mapM fun _ => .idOf) fun _ => removeIds_lasts lasting

theorem removeIdLater_lasts : Maintains P (b.removeIdLater id) :=
  .bind .ensureOpen fun _ => lasting.submit (Call.stores_of_nil rfl)

/-- Only engine calls that read follow when the source of a relation is checked. -/
theorem linking_lasts {relation : Relation} {operation : String} {call : Call}
    (quiet : call.defines = false) (none : call.stores = []) : Maintains P (do
      StoreM.ensureOpen
      b.checkSource relation
      HostM.request operation call : StoreM call.Answer) :=
  .bind .ensureOpen fun _ => .bind checkSource_maintains fun _ => lasting.ask quiet none

theorem asking_lasts {operation : String} {call : Call} (quiet : call.defines = false)
    (none : call.stores = []) : Maintains P (do
      StoreM.ensureOpen
      HostM.request operation call : StoreM call.Answer) :=
  .bind .ensureOpen fun _ => lasting.ask quiet none

end Box

/-! ## Calls of every kind -/

section Calls

variable {T : Type} {b : Box T} (lasting : Store.Lasting model W P) (lawful : b.Lawful model W)
include lasting lawful

/-- The bindings of objects of another type that a call is given have a property. -/
def BoxCall.Binds {T : Type} (Q : {S : Type} → Binding S → Prop) : BoxCall T → Prop
  | relationReplace binding .. => Q binding
  | _ => True

/-- What lasts is kept by every call on a box that is given no transaction. -/
theorem BoxCall.lasts {call : BoxCall T} (others : call.Binds (Binding.Lawful model W)) :
    Editing.Lasts P (call.perform b) := by
  -- a call that is given no objects to change
  have plain {α : Type} {program : StoreM α} (kept : Maintains P program) :
      Editing.Lasts P (Editing.ofStore program : Editing Unit α) := .ofStore kept
  cases call with
  | put object | insert object => exact Box.putObject_lasts lasting lawful
  | update object => exact Box.update_lasts lasting lawful
  | putMany objects =>
      change Editing.Lasts P (b.putMany none)
      exact Box.putMany_lasts lasting lawful
  | remove object => exact plain (Box.remove_lasts lasting)
  | removeId id => exact plain (Box.removeId_lasts lasting)
  | removeIds ids => exact plain (Box.removeIds_lasts lasting)
  | removeMany objects => exact plain (Box.removeMany_lasts lasting)
  | removeAll => exact plain (Box.asking_lasts lasting rfl rfl)
  | relationPut relation source target => exact plain (Box.linking_lasts lasting rfl rfl)
  | relationRemove relation source target => exact plain (Box.linking_lasts lasting rfl rfl)
  | relationReplace binding relation source object targets =>
      exact Store.relationReplace_lasts lasting others
  | relationIds relation source => exact plain (Box.linking_lasts lasting rfl rfl)
  | get id => exact plain (b.get_lasts lasting lawful none id)
  | getMany ids => exact plain (b.getMany_lasts lasting lawful none ids)
  | getManyExisting ids => exact plain (b.getManyExisting_lasts lasting lawful none ids)
  | getAll => exact plain (b.getAll_lasts lasting lawful none)
  | count | countMax | isEmpty | contains | containsIds =>
      exact plain (Box.asking_lasts lasting rfl rfl)

end Calls

end ObjectStore
