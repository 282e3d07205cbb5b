import ObjectStore.Proofs.Store.Deferral
import ObjectStore.Proofs.Store.Lasting
import ObjectStore.Proofs.Store.Reachable
import ObjectStore.Proofs.Store.Retained

/-! # Runs of a store through its boxes

A run is whatever is done with a store through its boxes: calls alone and in transactions, writes
that are queued, transactions that begin and end, and the worker. Where every box that is used
stores only records of `W`, the engine holds only such records after every run, and so does the
queue (`Session.use_tended`). The worker is no exception: what it writes was queued by a box.
-/

namespace ObjectStore

/-- A call on a box in a transaction that is given no objects to store. -/
inductive TxnRequest where
  | removeId (id : ObjectId)
  | removeIds (ids : List ObjectId)
  | relationIds (relation : Relation) (source : ObjectId)
  | get (id : ObjectId)
  | getMany (ids : List ObjectId)
  | getManyExisting (ids : List ObjectId)
  | getAll
  | count
  | countMax (limit : Nat)

namespace TxnRequest

/-- The type of a call's answer, on a box of objects of type `T`. -/
@[reducible] def Answer (T : Type) : TxnRequest → Type
  | removeId _ => Unit
  | removeIds _ | count | countMax _ => Nat
  | relationIds .. => List ObjectId
  | get _ => Option T
  | getMany _ => List (Option T)
  | getManyExisting _ | getAll => List T

/-- Perform a call on a box in a transaction. -/
def perform {T : Type} (b : Box T) (txn : Txn) : (call : TxnRequest) → StoreM (call.Answer T)
  | removeId id => b.removeId (some txn) id
  | removeIds ids => b.removeIds (some txn) ids
  | relationIds relation source => b.relationIds (some txn) relation source
  | get id => b.get (some txn) id
  | getMany ids => b.getMany (some txn) ids
  | getManyExisting ids => b.getManyExisting (some txn) ids
  | getAll => b.getAll (some txn)
  | count => b.count (some txn)
  | countMax limit => b.countMax (some txn) limit

end TxnRequest

/-- What is done with a store through its boxes. -/
inductive BoxAction : Type 1 where
  /-- A call that is given no transaction. -/
  | call {T : Type} (b : Box T) (call : BoxCall T)
  /-- A call that stores objects or links in a transaction. -/
  | store {T : Type} (b : Box T) (txn : Txn) (call : TxnCall T)
  /-- Another call in a transaction. -/
  | request {T : Type} (b : Box T) (txn : Txn) (call : TxnRequest)
  /-- A call whose write is queued. -/
  | later (call : WriteCall)
  | begin (mode : TxnMode)
  | commit (txn : Txn)
  | abort (txn : Txn)
  | drop (txn : Txn)
  /-- The worker performs the oldest of the queued writes, if there is one and it need not wait. -/
  | work
  | awaitCompletion
  | takeFailures
  | close

/-- The session after an action. -/
def BoxAction.step : BoxAction → Session → Session
  | call b c, s => (c.step b s).2.2
  | store b txn c, s => (c.step b txn s).2.2
  | request b txn c, s => ((c.perform b txn).run s).2
  | later c, s => (c.on c.later s).2.2
  | begin mode, s => ((Store.beginTxn mode).run s).2
  | commit txn, s => ((StoreM.ofHost txn.commit).run s).2
  | abort txn, s => ((StoreM.ofHost txn.abort).run s).2
  | drop txn, s => ((StoreM.ofHost txn.drop).run s).2
  | work, s => s.work
  | awaitCompletion, s => s.awaitCompletion
  | takeFailures, s => s.takeFailures.2
  | close, s => s.close

/-- The session after some actions. -/
def Session.use (s : Session) (actions : List BoxAction) : Session :=
  actions.foldl (fun s action => action.step s) s

/-! ## Boxes that are lawful -/

section Lawful

variable {model : Model} {W : EntityId → ObjectId → Bytes → Prop} {P : Store × Engine → Prop}
  {T : Type} {b : Box T} {txn : Txn}

/-- The bindings of objects of another type that a call is given have a property. -/
def TxnCall.Binds (Q : {S : Type} → Binding S → Prop) : TxnCall T → Prop
  | relationReplace binding .. => Q binding
  | _ => True

/-- The box of a call has a property. -/
def WriteCall.Uses (B : {S : Type} → Box S → Prop) : WriteCall → Prop
  | put b .. | remove b _ | removeId b _ => B b

/-- The boxes that are used have a property, and so have bindings that are used without their box. -/
def BoxAction.Uses (B : {S : Type} → Box S → Prop) (Q : {S : Type} → Binding S → Prop) :
    BoxAction → Prop
  | call b c => B b ∧ c.Binds Q
  | store b _ c => B b ∧ c.Binds Q
  | request b _ _ => B b
  | later c => c.Uses B
  | _ => True

theorem BoxAction.Uses.mono {B B' : {S : Type} → Box S → Prop}
    {Q Q' : {S : Type} → Binding S → Prop} {action : BoxAction}
    (boxes : ∀ {S : Type} {b : Box S}, B b → B' b)
    (bindings : ∀ {S : Type} {binding : Binding S}, Q binding → Q' binding)
    (uses : action.Uses B Q) : action.Uses B' Q' := by
  cases action with
  | call b c =>
      refine ⟨boxes uses.1, ?_⟩
      cases c <;> first | exact bindings uses.2 | trivial
  | store b txn c =>
      refine ⟨boxes uses.1, ?_⟩
      cases c <;> first | exact bindings uses.2 | trivial
  | request b txn c => exact boxes uses
  | later c => cases c <;> exact boxes uses
  | _ => trivial

/-- The boxes and bindings that are used are lawful. -/
def BoxAction.Lawful (model : Model) (W : EntityId → ObjectId → Bytes → Prop) : BoxAction → Prop :=
  Uses (Box.Lawful model W) (Binding.Lawful model W)

variable (lasting : Store.Lasting model W P)
include lasting

theorem TxnCall.lasts {call : TxnCall T} (lawful : b.Lawful model W)
    (others : call.Binds (Binding.Lawful model W)) : Editing.Lasts P (call.perform b txn) := by
  cases call with
  | put object | insert object => exact Box.putObject_lasts lasting lawful
  | update object => exact Box.update_lasts lasting lawful
  | putMany objects =>
      change Editing.Lasts P (b.putMany (some txn))
      exact Box.putMany_lasts lasting lawful
  | relationReplace binding relation source object targets =>
      change Editing.Lasts P (b.relationReplace binding (some txn) relation source object)
      exact Store.relationReplace_lasts lasting others

theorem TxnRequest.lasts {call : TxnRequest} (lawful : b.Lawful model W) :
    Maintains P (call.perform b txn) := by
  cases call with
  | removeId id => exact Box.removeId_lasts lasting
  | removeIds ids => exact Box.removeIds_lasts lasting
  | relationIds relation source => exact Box.linking_lasts lasting rfl rfl
  | get id => exact b.get_lasts lasting lawful (some txn) id
  | getMany ids => exact b.getMany_lasts lasting lawful (some txn) ids
  | getManyExisting ids => exact b.getManyExisting_lasts lasting lawful (some txn) ids
  | getAll => exact b.getAll_lasts lasting lawful (some txn)
  | count | countMax limit => exact Box.asking_lasts lasting rfl rfl

theorem WriteCall.lasts {call : WriteCall} (lawful : call.Uses (Box.Lawful model W)) :
    Editing.Lasts P call.later := by
  cases call with
  | put b mode object => exact Box.putLater_lasts lasting lawful
  | remove b object =>
      have later : Maintains P (b.removeLater object) :=
        .bind .idOf fun _ => Box.removeIdLater_lasts lasting
      exact .ofStore later
  | removeId b id =>
      have later : Maintains P (b.removeIdLater id) := Box.removeIdLater_lasts lasting
      exact .ofStore later

end Lawful

/-! ## What lasts of a store -/

/-- What lasts of the store of a session and its engine: its settings and definitions, the ids
handed out, the invariants of the engine, and that all records have the property `W`, those of
queued writes included. -/
structure Store.Tended (W : EntityId → ObjectId → Bytes → Prop) (base : Session)
    (v : Store × Engine) : Prop where
  config : v.1.config = base.store.config
  model : v.1.model = base.store.model
  strategy : v.1.strategy = base.store.strategy
  arrays : v.1.arrays = base.store.arrays
  schema : base.host.machine.engine.SameSchema v.2
  grown (entity : EntityId) : base.host.machine.engine.lastId entity ≤ v.2.lastId entity
  exclusive : v.2.Exclusive
  numbered : v.2.Numbered
  all : v.2.All W
  queued : ∀ write ∈ v.1.queue.pending, write.call.Stores W

/-- What is seen of a session has a property. -/
def Session.Shows (P : Store × Engine → Prop) (s : Session) : Prop :=
  ∃ v, Viewed.Shows s v ∧ P v

section Shows

variable {P : Store × Engine → Prop} {s : Session} {σ α : Type}

theorem Maintains.shows {program : StoreM α} (kept : Maintains P program) (h : s.Shows P) :
    (program.run s).2.Shows P := by
  obtain ⟨v, shows, holds⟩ := h
  exact kept v holds s shows

theorem Editing.Lasts.shows {program : Editing σ α} {objects : σ} (lasts : Editing.Lasts P program)
    (h : s.Shows P) : Session.Shows P (Runs.run program.run (objects, s)).2.2 := by
  obtain ⟨v, shows, holds⟩ := h
  obtain ⟨w, shown, -, kept⟩ := lasts objects v holds (objects, s) ⟨rfl, shows⟩
  exact ⟨w.2, shown.2, kept⟩

end Shows

section Tended

variable {W : EntityId → ObjectId → Bytes → Prop} {base s : Session} {store : Store}
  {e e' : Engine} {thread : ThreadId}

namespace Store.Tended

theorem perform {served : Served} (h : Tended W base (store, e))
    (quiet : served.call.defines = false) (stores : served.call.Stores W)
    (done : e.perform thread served.call = .ok (served.answer, e')) :
    Tended W base (store, e') where
  config := h.config
  model := h.model
  strategy := h.strategy
  arrays := h.arrays
  schema := h.schema.moved quiet (Engine.moved_of_perform done)
  grown entity := Std.le_trans (h.grown entity) (Engine.lastId_le_of_perform done)
  exclusive := h.exclusive.perform done
  numbered := h.numbered.perform done
  all := h.all.perform stores done
  queued := h.queued

/-- The writes that are queued may change to others of the property, and whatever else of the store
is no setting. -/
theorem requeue {queue : Queue} {closed : Bool} {pool : EncoderPool} (h : Tended W base (store, e))
    (queued : ∀ write ∈ queue.pending, write.call.Stores W) :
    Tended W base ({ store with queue, closed, pool }, e) :=
  ⟨h.config, h.model, h.strategy, h.arrays, h.schema, h.grown, h.exclusive, h.numbered, h.all,
    queued⟩

theorem lasting : Store.Lasting base.store.model W (Tended W base) where
  model h := h.model
  served h quiet stores done := h.perform quiet stores done
  queued {store e write} h stores := by
    refine h.requeue fun later member => ?_
    rcases List.mem_append.mp member with earlier | new
    · exact h.queued later earlier
    · exact List.mem_singleton.mp new ▸ stores

end Store.Tended

namespace Session

open Store

theorem shows_tended : s.Shows (Tended W base) ↔
    s.host.faults = [] ∧ Tended W base (s.store, s.host.machine.engine) := by
  constructor
  · rintro ⟨⟨store, e⟩, ⟨⟨plain, rfl⟩, same⟩, tended⟩
    rw [same]
    exact ⟨plain, tended.requeue tended.queued⟩
  · rintro ⟨plain, tended⟩
    exact ⟨_, ⟨⟨plain, rfl⟩, rfl⟩, tended⟩

theorem Sound.tended (h : s.Sound) : s.Shows (Tended (fun _ _ _ => True) s) :=
  shows_tended.mpr ⟨h.faults, rfl, rfl, rfl, rfl, ⟨rfl, rfl, rfl⟩, fun _ => Std.le_refl _,
    h.exclusive, h.numbered, ⟨fun _ _ _ _ => trivial, fun _ _ _ _ _ => trivial⟩,
    fun _ _ _ _ _ _ => trivial⟩

theorem Sound.of_tended (sound : base.Sound) (h : s.Shows (Tended W base)) : s.Sound := by
  obtain ⟨plain, tended⟩ := shows_tended.mp h
  exact sound.of_same plain tended.exclusive tended.numbered tended.schema tended.config
    tended.model tended.strategy tended.arrays

theorem work_tended (h : s.Shows (Tended W base)) : s.work.Shows (Tended W base) := by
  obtain ⟨plain, tended⟩ := shows_tended.mp h
  unfold Session.work
  cases worked : s.store.queue.work s.host with
  | none => exact h
  | some done =>
      obtain ⟨queue, host⟩ := done
      obtain ⟨write, first, -, still, wrote⟩ := Queue.work_eq_some plain worked
      have queued := tended.queued
      rw [first] at queued
      have rest : ∀ later ∈ queue.pending, later.call.Stores W :=
        fun later member => queued later (.tail _ member)
      refine shows_tended.mpr ⟨still, ?_⟩
      rcases wrote with same | ⟨answer, done⟩
      · rw [same]
        exact tended.requeue rest
      · have quiet : write.call.defines = false := by cases write <;> rfl
        have written : Tended W base (s.store, host.machine.engine) :=
          @Tended.perform _ _ _ _ _ _ ⟨write.call, answer⟩ tended quiet
            (queued write List.mem_cons_self) done
        exact written.requeue rest

theorem awaitCompletion_tended (h : s.Shows (Tended W base)) :
    s.awaitCompletion.Shows (Tended W base) :=
  awaitCompletion_keeps work_tended h

theorem close_tended (h : s.Shows (Tended W base)) : s.close.Shows (Tended W base) := by
  unfold close
  split
  · exact h
  · obtain ⟨plain, tended⟩ := shows_tended.mp h
    have closing : Session.Shows (Tended W base)
        { s with store := { s.store with closed := true } } :=
      shows_tended.mpr ⟨plain, tended.requeue tended.queued⟩
    obtain ⟨plain, tended⟩ := shows_tended.mp (awaitCompletion_tended closing)
    exact shows_tended.mpr ⟨plain, tended.requeue tended.queued⟩

/-- Whatever is done through lawful boxes, all records have the property afterwards. -/
theorem step_tended {action : BoxAction} (lawful : action.Lawful base.store.model W)
    (h : s.Shows (Tended W base)) : (action.step s).Shows (Tended W base) := by
  have lasting : Store.Lasting base.store.model W (Tended W base) := Tended.lasting
  cases action with
  | call b c => exact (BoxCall.lasts lasting lawful.1 lawful.2).shows h
  | store b txn c => exact (TxnCall.lasts lasting lawful.1 lawful.2).shows h
  | request b txn c => exact (TxnRequest.lasts lasting lawful).shows h
  | later c => exact (WriteCall.lasts lasting lawful).shows h
  | begin mode => exact (Store.beginTxn_lasts lasting).shows h
  | commit txn => exact (Txn.commit_lasts lasting).shows h
  | abort txn => exact (Txn.abort_lasts lasting).shows h
  | drop txn => exact (Txn.drop_lasts lasting).shows h
  | work => exact work_tended h
  | awaitCompletion => exact awaitCompletion_tended h
  | takeFailures =>
      obtain ⟨plain, tended⟩ := shows_tended.mp h
      exact shows_tended.mpr ⟨plain, tended.requeue tended.queued⟩
  | close => exact close_tended h

theorem use_tended {actions : List BoxAction}
    (lawful : ∀ action ∈ actions, action.Lawful base.store.model W)
    (h : s.Shows (Tended W base)) : (s.use actions).Shows (Tended W base) := by
  induction actions generalizing s with
  | nil => exact h
  | cons action actions ih =>
      exact ih (fun action member => lawful action (.tail _ member))
        (step_tended (lawful action (.head _)) h)

end Session

end Tended

end ObjectStore
