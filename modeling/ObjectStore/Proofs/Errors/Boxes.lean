import ObjectStore.Proofs.Errors.Programs
import ObjectStore.Proofs.Reads.Pointwise
import ObjectStore.Proofs.Store.BoxRuns

/-! # Errors of a store are its engine's own

Every synchronous call on a store makes its engine calls one after another and stops at the first
that is refused. Whatever was in the caller's error slot before, also a detail of the same status,
the error is about that refusal (`Session.errors_reported`).

Of a binding it is asked that it blames no engine call itself, and that what it does for related
objects reports too (`Binding.Candid`). All example bindings are such.
-/

namespace ObjectStore

open Catalog

/-- The binding blames no engine call, and its programs for related objects report. -/
structure Binding.Candid {T : Type} (extra : Call → Refusal → String → Prop)
    (binding : Binding T) : Prop where
  id {object : T} {why : StoreError} : binding.id object = .error why → why.Own
  setId {object : T} {id : ObjectId} {why : StoreError} :
    binding.setId object id = .error why → why.Own
  putRelated (txn : Txn) (id : ObjectId) : Reports extra (binding.putRelated txn id)
  loadRelated (txn : Txn) (object : T) : Reports extra (binding.loadRelated txn object)

/-- The message for an object of one of these entity types that is not stored. -/
def Unstored (entities : List EntityDescriptor) (call : Call) (why : Refusal) (message : String) :
    Prop :=
  why = .missing ∧ ∃ entity ∈ entities, ∃ txn id, call = .remove txn entity.id id ∧
    message = s!"object {id} of {entity.name} does not exist"

variable {extra : Call → Refusal → String → Prop}

/-! ## Storing -/

namespace Box

variable {T : Type} {b : Box T} {txn : Txn} {given : Option Txn} {id current : ObjectId}
  {mode : PutMode}

section Candid

variable (candid : b.binding.Candid extra)
include candid

theorem idOf_reports {object : T} : Reports extra (b.idOf object) := by
  unfold idOf
  cases carried : b.binding.id object with
  | ok id => exact .pure
  | error why => exact .throw (candid.id carried)

theorem currentId_reports : Reports extra b.currentId :=
  .bind Editing.current_reports fun _ => .ofStore (idOf_reports candid)

theorem assignId_reports : Reports extra (b.assignId id) := by
  refine .bind Editing.current_reports fun object => ?_
  cases given : b.binding.setId object id with
  | ok changed => exact Editing.replace_reports
  | error why => exact .throw (candid.setId given)

theorem encodeUnder_reports : Reports extra (b.encodeUnder txn id) := by
  have encoded : Reports extra (do b.encode id (← Editing.current) : Editing T Bytes) :=
    .bind Editing.current_reports fun _ => .ofStore StoreM.encodeRecord_reports
  unfold encodeUnder
  split
  · exact .bind (candid.putRelated txn id) fun _ => encoded
  · exact encoded

theorem storeUnder_reports : Reports extra (b.storeUnder given id mode) := by
  have encoded : Reports extra (do
      let record ← b.encode id (← Editing.current)
      HostM.request "put" (.put (given.map Txn.handle) b.entity id record mode)
      return id : Editing T ObjectId) :=
    .bind Editing.current_reports fun _ => .bind (.ofStore StoreM.encodeRecord_reports) fun _ =>
      .bind (.ofStore (.ofHost (HostM.request_reports rfl rfl))) fun _ => .pure
  unfold storeUnder
  split
  · split
    · exact .bind (candid.putRelated _ id) fun _ => encoded
    · exact encoded
  · exact encoded

theorem write_reports : Reports extra (b.write given current mode) := by
  by_cases update : mode = .update
  · subst update
    rw [write_update_eq]
    exact storeUnder_reports candid
  · rw [write_eq update]
    exact .bind (.ofStore (.ofHost Store.allocateOne_reports)) fun _ => storeUnder_reports candid

theorem putObject_reports : Reports extra (b.putObject given mode) := by
  have assigned (current id : ObjectId) : Reports extra (do
      if id ≠ current then b.assignId id
      return id : Editing T ObjectId) := by
    dsimp only
    split
    · exact .bind (assignId_reports candid) fun _ => .pure
    · exact .pure
  have stored (current : ObjectId) : Reports extra (do
      let id ←
        if given.isNone ∧ b.descriptor.hasRelations then
          Store.runIn .write fun txn => b.write (some txn) current mode
        else b.write given current mode
      if id ≠ current then b.assignId id
      return id : Editing T ObjectId) := by
    dsimp only
    split
    · exact .bind (Store.runIn_reports fun _ => write_reports candid) (assigned current)
    · exact .bind (write_reports candid) (assigned current)
  refine .bind (.ofStore StoreM.ensureOpen_reports) fun _ =>
    .bind (currentId_reports candid) fun current => ?_
  dsimp only
  by_cases unsaved : mode = .update ∧ current = 0
  · rw [if_pos unsaved]
    exact .bind (.ofStore StoreM.misuse_reports) fun _ => stored current
  · rw [if_neg unsaved]
    exact stored current

theorem put_reports : Reports extra (b.put given) :=
  putObject_reports candid

theorem insert_reports : Reports extra (b.insert given) :=
  putObject_reports candid

theorem update_reports : Reports extra (b.update given) :=
  .bind (putObject_reports candid) fun _ => .pure

theorem writeOne_reports : Reports extra (b.writeOne txn) :=
  .bind (currentId_reports candid) fun _ => .bind (write_reports candid) fun _ => .pure

theorem writeChunk_reports : Reports extra (b.writeChunk txn) := by
  refine .bind Editing.current_reports fun objects => ?_
  refine .bind (.ofStore (.mapM fun _ => idOf_reports candid)) fun currents => ?_
  refine .bind (.ofStore (.ofHost Store.allocateBlock_reports)) fun first => ?_
  refine .bind (Editing.forEach_reports fun _ => encodeUnder_reports candid) fun records => ?_
  exact .bind (.ofStore (.ofHost (HostM.request_reports rfl rfl))) fun _ => .pure

theorem writeMany_reports : Reports extra (b.writeMany txn) := by
  refine .bind (.ofStore StoreM.store_reports) fun store => ?_
  split
  · exact .bind (Editing.forChunks_reports (writeChunk_reports candid)) fun _ => .pure
  · exact .bind Editing.current_reports fun _ =>
      Editing.forEach_reports fun _ => writeOne_reports candid

theorem writeBack_reports {assigned : List Assigned} : Reports extra (b.writeBack assigned) := by
  refine .bind (Editing.forEach_reports fun a => ?_) fun _ => .pure
  split
  · exact assignId_reports candid
  · exact .pure

theorem putMany_reports (given : Option Txn) : Reports extra (b.putMany given) := by
  refine .bind (.ofStore StoreM.ensureOpen_reports) fun _ =>
    .bind Editing.current_reports fun objects => ?_
  split
  · exact .pure
  · have carried (assigned : List Assigned) : Reports extra (do
        b.writeBack assigned
        return assigned.map Assigned.id : Editing (List T) (List ObjectId)) :=
      .bind (writeBack_reports candid) fun _ => .pure
    cases given with
    | some txn => exact .bind (writeMany_reports candid) carried
    | none => exact .bind (Store.runIn_reports fun _ => writeMany_reports candid) carried

/-! ## Reading -/

theorem get_reports (given : Option Txn) : Reports extra (b.get given id) :=
  reading_reports fun txn => getIn_reports (candid.loadRelated txn)

theorem getMany_reports (given : Option Txn) {ids : List ObjectId} :
    Reports extra (b.getMany given ids) :=
  reading_reports fun txn => readMany_reports (candid.loadRelated txn)

theorem getManyExisting_reports (given : Option Txn) {ids : List ObjectId} :
    Reports extra (b.getManyExisting given ids) :=
  reading_reports fun txn => getManyExistingIn_reports (candid.loadRelated txn)

theorem getAll_reports (given : Option Txn) : Reports extra (b.getAll given) :=
  reading_reports fun txn => getAllIn_reports (candid.loadRelated txn)

end Candid

/-! ## Removing and counting -/

/-- A call on an open store. -/
theorem asked_reports {call : Call} (object : call.needsObject = false)
    (id : Host.isIdForPut call = false) : Reports extra (do
      StoreM.ensureOpen
      HostM.request call.name call : StoreM call.Answer) :=
  .bind StoreM.ensureOpen_reports fun _ => .ofHost (HostM.request_reports object id)

variable {entities : List EntityDescriptor}

/-- Only the engine knows that an object is missing, but the box says so. -/
theorem removeId_reports (member : b.descriptor ∈ entities) :
    Reports (Unstored entities) (b.removeId given id) := by
  refine .bind StoreM.ensureOpen_reports fun _ =>
    .performing StoreM.perform_performs rfl (fun _ => .pure) fun why _ => ?_
  cases why with
  | missing =>
      refine .throw fun operation status message same => ?_
      cases same
      exact ⟨rfl, rfl, .inr ⟨rfl, b.descriptor, member, _, id, rfl, rfl⟩⟩
  | _ => exact .fetched (by simp) StoreM.failure_fetches

theorem removeIds_reports {ids : List ObjectId} : Reports extra (b.removeIds given ids) := by
  refine .bind StoreM.ensureOpen_reports fun _ => ?_
  split
  · exact .pure
  · exact .ofHost (HostM.request_reports rfl rfl)

/-! ## Links -/

theorem checkSource_reports {relation : Relation} : Reports extra (b.checkSource relation) := by
  unfold checkSource
  split
  · exact StoreM.misuse_reports
  · exact .pure

theorem linked_reports {relation : Relation} {call : Call} (object : call.needsObject = false)
    (id : Host.isIdForPut call = false) : Reports extra (do
      StoreM.ensureOpen
      b.checkSource relation
      HostM.request call.name call : StoreM call.Answer) :=
  .bind StoreM.ensureOpen_reports fun _ => .bind checkSource_reports fun _ =>
    .ofHost (HostM.request_reports object id)

end Box

namespace Store

variable {P : Type} {binding : Binding P} {txn : Txn} {relation : Relation}
  {source stored : ObjectId} {linked : IdSet} (candid : binding.Candid extra)
include candid

theorem linkTarget_reports {descriptor : EntityDescriptor} :
    Reports extra (linkTarget ⟨descriptor, binding⟩ txn relation source linked) := by
  refine .bind (Box.currentId_reports candid) fun current => ?_
  have linking (target : ObjectId) : Reports extra (do
      if linked.contains target then return linked.erase target
      HostM.request "rel_put" (.relPut (some txn.handle) relation.id source target)
      return linked : Editing P IdSet) := by
    split
    · exact .pure
    · exact .bind (.ofStore (.ofHost (HostM.request_reports rfl rfl))) fun _ => .pure
  split
  · exact .bind (Box.putObject_reports candid) linking
  · exact .bind .pure linking

theorem linkTargets_reports {descriptor : EntityDescriptor} :
    Reports extra (linkTargets ⟨descriptor, binding⟩ txn relation source linked) := by
  rintro ⟨objects, s⟩ plain
  induction objects generalizing linked s with
  | nil => exact .ok plain
  | cons object objects ih =>
      have first := @linkTarget_reports _ _ _ txn relation source linked candid descriptor
        (object, s) plain
      simp only [Runs.run, linkTargets, linkTargets.go, ExceptT.run, ExceptT.mk, bind,
        StateT.bind] at first ih ⊢
      generalize linkTarget ⟨descriptor, binding⟩ txn relation source linked object s = ran
        at first
      rcases ran with ⟨⟨why | linked, object'⟩, s'⟩
      · exact first.error
      · exact first.andThen (ih s' first.plain)

theorem replaceLinks_reports :
    Reports extra (replaceLinks binding txn relation source stored) := by
  have linking (linked : List ObjectId) : Reports extra (do
      let b ← boxFor binding
      let unwanted ← Editing.focus (fun targets => targets.getD [])
        (fun _ targets => some targets) (linkTargets b txn relation source (.ofList linked))
      unwanted.toList.forM fun target =>
        HostM.request "rel_remove" (.relRemove (some txn.handle) relation.id source target) :
      Editing (Option (List P)) Unit) := by
    refine .boxForEditing fun descriptor =>
      .bind (Editing.focus_reports (linkTargets_reports candid)) fun unwanted => ?_
    exact .forM fun target => .ofStore (.ofHost (HostM.request_reports rfl rfl))
  refine .bind Editing.current_reports fun targets => ?_
  split
  · split
    · exact .ofStore StoreM.misuse_reports
    · exact .pure
  · split
    · exact .bind .pure linking
    · exact .bind (.ofStore (.ofHost (HostM.request_reports rfl rfl))) linking

end Store

theorem Box.relationReplace_reports {T P : Type} {b : Box T} {targets : Binding P}
    {relation : Relation} {source : ObjectId} {object : T} (candid : b.binding.Candid extra)
    (others : targets.Candid extra) (given : Option Txn) :
    Reports extra (b.relationReplace targets given relation source object) := by
  refine .bind (.ofStore StoreM.ensureOpen_reports) fun _ =>
    .bind (.ofStore checkSource_reports) fun _ =>
      .bind (.ofStore (idOf_reports candid)) fun stored =>
        .bind Editing.current_reports fun objects => ?_
  cases given with
  | some txn => exact Store.replaceLinks_reports others
  | none =>
      cases objects with
      | some objects => exact Store.runIn_reports fun _ => Store.replaceLinks_reports others
      | none =>
          dsimp only
          split
          · exact .ofStore StoreM.misuse_reports
          · exact .pure

/-! ## The example bindings -/

theorem ExampleBinding.candid {T : Type} {binding : Binding T} (shown : ExampleBinding binding) :
    binding.Candid extra := by
  have tag : tagBinding.Candid extra :=
    ⟨(by rintro _ _ ⟨⟩), (by rintro _ _ _ ⟨⟩), fun _ _ => .pure, fun _ _ => .pure⟩
  have event : eventBinding.Candid extra :=
    ⟨(by rintro _ _ ⟨⟩), (by rintro _ _ _ ⟨⟩), fun _ _ => .pure, fun _ _ => .pure⟩
  have note : noteBinding.Candid extra := by
    refine ⟨(by rintro _ _ ⟨⟩), (by rintro _ _ _ ⟨⟩), fun txn id => ?_, fun txn note => ?_⟩
    · refine .bind Editing.current_reports fun note => ?_
      split
      · exact Editing.focus_reports (Store.replaceLinks_reports tag)
      · exact .pure
    · exact .bind (Store.relatedObjects_reports (tag.loadRelated txn)) fun _ => .pure
  cases shown with
  | event => exact event
  | tag => exact tag
  | note => exact note
  | marker =>
      exact ⟨(by rintro _ _ ⟨⟩), (by rintro _ _ _ ⟨⟩), fun _ _ => .pure,
        fun _ _ => .pure⟩
  | label =>
      refine ⟨fun same => ?_, fun same => ?_, fun _ _ => .pure, fun _ _ => .pure⟩
      all_goals
        simp only [labelBinding] at same
        split at same <;> cases same
        exact fun _ _ _ same => by cases same
  | folder =>
      refine ⟨(by rintro _ _ ⟨⟩), (by rintro _ _ _ ⟨⟩), fun txn id => ?_, fun txn folder => ?_⟩
      · refine .bind Editing.current_reports fun folder =>
          .bind (Editing.focus_reports (Store.replaceLinks_reports note)) fun _ =>
            .boxForEditing fun descriptor => ?_
        exact .bind (Editing.focus_reports (Box.putObject_reports event)) fun _ => .pure
      · exact .bind (Store.relatedObjects_reports (note.loadRelated txn)) fun _ => .pure

/-! ## Calls on a store -/

section Calls

variable {entities : List EntityDescriptor} {T : Type} {b : Box T}
  (member : b.descriptor ∈ entities) (candid : b.binding.Candid (Unstored entities))
include member candid

theorem BoxCall.reports {call : BoxCall T}
    (others : call.Binds (Binding.Candid (Unstored entities))) :
    Reports (Unstored entities) (call.perform b) := by
  cases call with
  | put => exact Box.put_reports candid
  | insert => exact Box.insert_reports candid
  | update => exact Box.update_reports candid
  | putMany => exact Box.putMany_reports candid none
  | remove => exact .ofStore (.bind (Box.idOf_reports candid) fun _ => Box.removeId_reports member)
  | removeId => exact .ofStore (Box.removeId_reports member)
  | removeIds => exact .ofStore Box.removeIds_reports
  | removeMany =>
      exact .ofStore (.bind (.mapM fun _ => Box.idOf_reports candid) fun _ => Box.removeIds_reports)
  | relationPut | relationRemove | relationIds => exact .ofStore (Box.linked_reports rfl rfl)
  | relationReplace => exact Box.relationReplace_reports candid others none
  | get => exact .ofStore (Box.get_reports candid none)
  | getMany => exact .ofStore (Box.getMany_reports candid none)
  | getManyExisting => exact .ofStore (Box.getManyExisting_reports candid none)
  | getAll => exact .ofStore (Box.getAll_reports candid none)
  | removeAll | count | countMax | isEmpty | contains | containsIds =>
      exact .ofStore (Box.asked_reports rfl rfl)

theorem TxnRequest.reports {txn : Txn} {call : TxnRequest} :
    Reports (Unstored entities) (call.perform b txn) := by
  cases call with
  | removeId => exact Box.removeId_reports member
  | removeIds => exact Box.removeIds_reports
  | relationIds => exact Box.linked_reports rfl rfl
  | get => exact Box.get_reports candid (some txn)
  | getMany => exact Box.getMany_reports candid (some txn)
  | getManyExisting => exact Box.getManyExisting_reports candid (some txn)
  | getAll => exact Box.getAll_reports candid (some txn)
  | count | countMax => exact Box.asked_reports rfl rfl

omit member in
theorem TxnCall.reports {txn : Txn} {call : TxnCall T}
    (others : call.Binds (Binding.Candid (Unstored entities))) :
    Reports (Unstored entities) (call.perform b txn) := by
  cases call with
  | put => exact Box.put_reports candid
  | insert => exact Box.insert_reports candid
  | update => exact Box.update_reports candid
  | putMany => exact Box.putMany_reports candid (some txn)
  | relationReplace => exact Box.relationReplace_reports candid others (some txn)

end Calls

/-- A synchronous call on a store. -/
inductive StoreCall : Type 1 where
  /-- A call on a box that is given no transaction. -/
  | box {T : Type} (b : Box T) (call : BoxCall T)
  /-- A call on a box that stores objects or links in a transaction. -/
  | store {T : Type} (b : Box T) (txn : Txn) (call : TxnCall T)
  /-- Another call on a box in a transaction. -/
  | request {T : Type} (b : Box T) (txn : Txn) (call : TxnRequest)
  | begin (mode : TxnMode)
  | commit (txn : Txn)
  | abort (txn : Txn)
  /-- A program of the caller in a transaction of its own. -/
  | run {σ α : Type} (mode : TxnMode) (objects : σ) (program : Txn → Editing σ α)

namespace StoreCall

/-- The type of a call's answer. -/
@[reducible] def Answer : StoreCall → Type
  | box _ call => call.Answer
  | store _ _ call => call.Answer
  | @request T _ _ call => call.Answer T
  | begin _ => Txn
  | commit _ | abort _ => Unit
  | @run _ α .. => α

/-- Perform a call on a session: how it ends, and the session afterwards. -/
def step : (call : StoreCall) → Session → Except StoreError call.Answer × Session
  | box b call, s => ((call.step b s).1, (call.step b s).2.2)
  | store b txn call, s => ((call.step b txn s).1, (call.step b txn s).2.2)
  | request b txn call, s => (call.perform b txn).run s
  | begin mode, s => (Store.beginTxn mode).run s
  | commit txn, s => (StoreM.ofHost txn.commit).run s
  | abort txn, s => (StoreM.ofHost txn.abort).run s
  | run mode objects program, s =>
    let ((r, _), s') := (Store.runIn mode program).run objects s
    (r, s')

/-- The boxes are of these entity types, and their bindings and the caller's programs report. -/
def Candid (entities : List EntityDescriptor) : StoreCall → Prop
  | box b call => b.descriptor ∈ entities ∧ b.binding.Candid (Unstored entities) ∧
    call.Binds (Binding.Candid (Unstored entities))
  | store b _ call => b.descriptor ∈ entities ∧ b.binding.Candid (Unstored entities) ∧
    call.Binds (Binding.Candid (Unstored entities))
  | request b _ _ => b.descriptor ∈ entities ∧ b.binding.Candid (Unstored entities)
  | run _ _ program => ∀ txn, Reports (Unstored entities) (program txn)
  | _ => True

theorem accounted {entities : List EntityDescriptor} {call : StoreCall} {s : Session}
    (plain : s.host.faults = []) (candid : call.Candid entities) :
    Accounted (Unstored entities) s.host (call.step s).1 (call.step s).2.host := by
  cases call with
  | box b call =>
      obtain ⟨member, candid, others⟩ := candid
      exact BoxCall.reports member candid others (call.objects, s) plain
  | store b txn call =>
      obtain ⟨member, candid, others⟩ := candid
      exact TxnCall.reports candid others (call.objects, s) plain
  | request b txn call => exact TxnRequest.reports candid.1 candid.2 s plain
  | begin mode => exact Store.beginTxn_reports s plain
  | commit txn => exact Reports.ofHost Txn.commit_reports s plain
  | abort txn => exact Reports.ofHost Txn.abort_reports s plain
  | run mode objects program => exact Store.runIn_reports candid (objects, s) plain

end StoreCall

namespace Session

/-- If a call on a store ends with an engine error, whatever was in the caller's error slot before,
    the error has the status and the detail of the refusal of the last call it made, but for aborts,
    or the message for an object that is not stored. -/
theorem engine_error_reported {entities : List EntityDescriptor} {call : StoreCall}
    {s s' : Session} {operation message : String} {status : Status} (plain : s.host.faults = [])
    (candid : call.Candid entities)
    (failed : call.step s = (.error (.engine operation status message), s')) :
    ∃ made, s.host.Made made s'.host ∧
      Reported (Unstored entities) s.host.machine.engine made operation status message := by
  obtain ⟨made, left, about⟩ := StoreCall.accounted plain candid
  rw [failed] at left about
  exact ⟨made, left, about operation status message rfl⟩

/-- An event is inserted under the id of another one, while a detail of the status that this fails
    with is in the caller's slot. -/
theorem stale_detail_passed_over : ∃ s s' : Session, ∃ made,
    (s.host.machine.slot callerThread).last = some ⟨.idAlreadyExists, "stale"⟩ ∧
    (StoreCall.box eventBox (.insert { id := 5 })).step s =
      (.error (.engine "put" .idAlreadyExists "object 5 of entity type 10 already exists"), s') ∧
    s.host.Made made s'.host ∧
    Reported (Unstored [eventBox.descriptor]) s.host.machine.engine made "put" .idAlreadyExists
      "object 5 of entity type 10 already exists" := by
  let stale (s : Session) : Session :=
    { s with host.machine := s.host.machine.onSlot callerThread fun slot =>
        slot.record .idAlreadyExists "stale" }
  let used (s : Session) : Session := stale (BoxCall.step eventBox (.put { id := 5 }) s).2.2
  have eval : (fresh true {}).toOption.map (fun s =>
      (((used s).host.machine.slot callerThread).last, (used s).host.faults,
        ((StoreCall.box eventBox (.insert { id := 5 })).step (used s)).1)) =
      some (some ⟨.idAlreadyExists, "stale"⟩, [],
        .error (.engine "put" .idAlreadyExists "object 5 of entity type 10 already exists")) := by
    decide +kernel
  obtain ⟨s, -, looked⟩ := of_eval eval
  obtain ⟨recorded, plain, failed⟩ := by simpa only [Prod.mk.injEq] using looked
  have ended := Prod.ext (y := (_, _)) failed rfl
  have candid : (StoreCall.box eventBox (.insert { id := 5 })).Candid [eventBox.descriptor] :=
    ⟨List.mem_singleton_self _, ExampleBinding.event.candid, trivial⟩
  obtain ⟨made, left, reported⟩ := engine_error_reported plain candid ended
  exact ⟨used s, _, made, recorded, ended, left, reported⟩

end Session

end ObjectStore
