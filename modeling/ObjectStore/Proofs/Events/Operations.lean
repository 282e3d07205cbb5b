import ObjectStore.Proofs.Events.Map
import ObjectStore.Proofs.Store.BulkPut
import ObjectStore.Proofs.Store.Reads
import ObjectStore.Store.Removal

/-! # Operations on events

The calls on the box of events as data, each with what it does to a map and which answers are the
right ones. `EventOp.after` goes by the ids the call answers with: the entries of a batch are set in
the order of the batch, so that of two with one id the later stays. Which new ids are given, and
when there are none left, depends on the last id the sequence of events gave.
-/

namespace ObjectStore

open Catalog

/-- A call on the box of events. -/
inductive EventOp where
  | put (event : Event)
  | insert (event : Event)
  | update (event : Event)
  | putMany (events : List Event)
  | removeId (id : ObjectId)
  | removeIds (ids : List ObjectId)
  | removeAll
  | count
  | get (id : ObjectId)
  | getMany (ids : List ObjectId)
  | getManyExisting (ids : List ObjectId)
  | getAll

namespace EventOp

/-- The type of a call's answer. -/
@[reducible] def Answer : EventOp → Type
  | put _ | insert _ => ObjectId
  | update _ | removeId _ => Unit
  | putMany _ => List ObjectId
  | removeIds _ | removeAll | count => Nat
  | get _ => Option Event
  | getMany _ => List (Option Event)
  | getManyExisting _ | getAll => List Event

/-- Perform a call on the box that a store has for events. -/
def perform : (op : EventOp) → StoreM op.Answer
  | put event => do Editing.answer event ((← Store.boxFor eventBinding).put none)
  | insert event => do Editing.answer event ((← Store.boxFor eventBinding).insert none)
  | update event => do Editing.answer event ((← Store.boxFor eventBinding).update none)
  | putMany events => do Editing.answer events ((← Store.boxFor eventBinding).putMany none)
  | removeId id => do (← Store.boxFor eventBinding).removeId none id
  | removeIds ids => do (← Store.boxFor eventBinding).removeIds none ids
  | removeAll => do (← Store.boxFor eventBinding).removeAll
  | count => do (← Store.boxFor eventBinding).count none
  | get id => do (← Store.boxFor eventBinding).get none id
  | getMany ids => do (← Store.boxFor eventBinding).getMany none ids
  | getManyExisting ids => do (← Store.boxFor eventBinding).getManyExisting none ids
  | getAll => do (← Store.boxFor eventBinding).getAll none

/-- The events of a call fit into memory. -/
def Fits : EventOp → Prop
  | put event | insert event | update event => event.Fits
  | putMany events => ∀ event ∈ events, event.Fits
  | _ => True

/-- What a call that ends so does to a map. A failed call leaves it as it is. -/
def after (m : EventMap) : (op : EventOp) → Except StoreError op.Answer → EventMap
  | put event, .ok id | insert event, .ok id => m.set id event
  | update event, .ok () => m.set event.id event
  | putMany events, .ok ids => m.setAll ids events
  | removeId id, .ok () => m.erase id
  | removeIds ids, .ok _ => m.without ids
  | removeAll, .ok _ => ∅
  | _, _ => m

/-- An event that carries an id is stored under it, and one that carries none under the id after
    the last one, which is none of the map's. A put fails exactly if there is no such id. -/
def RightPut (last : ObjectId) (m : EventMap) (event : Event) : Except StoreError ObjectId → Prop
  | .ok id => Box.HasRoom last [event.id] ∧ id ≠ 0 ∧
    if event.id = 0 then id = last + 1 ∧ id ∉ m else id = event.id
  | .error why => ¬ Box.HasRoom last [event.id] ∧ event.id = 0 ∧
    why = .exhausted "id_for_put" eventBox.entity

/-- A batch takes the ids that its chunks get one after another, of which those that are carried
    stay. It fails exactly if there are not as many as it needs. -/
def RightPutMany (store : Store) (last : ObjectId) (events : List Event) :
    Except StoreError (List ObjectId) → Prop
  | .ok ids => Box.HasRoomForAll last (store.cut (events.map Event.id)) ∧
    ids = Box.bulkIds last (store.cut (events.map Event.id)) ∧
    ids.length = events.length ∧ (∀ id ∈ ids, id ≠ 0) ∧
      ∀ (i : Nat) event, events[i]? = some event → event.id ≠ 0 → ids[i]? = some event.id
  | .error why => ¬ Box.HasRoomForAll last (store.cut (events.map Event.id)) ∧
    (∃ event ∈ events, event.id = 0) ∧ why = .exhausted store.numberingCall eventBox.entity

/-- The call ends as the map demands, where `last` is the last id that the sequence gave. -/
def Right (store : Store) (last : ObjectId) (m : EventMap) :
    (op : EventOp) → Except StoreError op.Answer → Prop
  | put event, r => RightPut last m event r
  | insert event, r =>
    if event.id ∈ m then r = .error (.engine "put" .idAlreadyExists
      s!"object {event.id} of entity type {eventBox.entity} already exists")
    else RightPut last m event r
  | update event, r =>
    if event.id = 0 then r = .error (.misuse (.updateUnsaved "Event"))
    else if event.id ∈ m then r = .ok ()
    else r = .error (.engine "put" .idNotFound
      s!"object {event.id} of entity type {eventBox.entity} does not exist")
  | putMany events, r => RightPutMany store last events r
  | removeId id, r =>
    if id ∈ m then r = .ok ()
    else r = .error (.engine "remove" .notFound (eventBox.missingMessage id))
  | removeIds ids, r => ∃ dropped, r = .ok dropped ∧ dropped + (m.without ids).size = m.size
  | removeAll, r => r = .ok m.size
  | count, r => r = .ok m.size
  | get id, r => r = .ok m[id]?
  | getMany ids, r => r = .ok (ids.map fun id => m[id]?)
  | getManyExisting ids, r => r = .ok (ids.filterMap fun id => m[id]?)
  | getAll, r => r = .ok m.values

/-- Perform a call on a session: how it ends, and the session afterwards. -/
def step (op : EventOp) (s : Session) : Except StoreError op.Answer × Session :=
  op.perform.run s

end EventOp

/-- Whatever is read of a session is what the map says. -/
structure Session.Agrees (s : Session) (m : EventMap) : Prop where
  count : (EventOp.count.step s).1 = .ok m.size
  get (id : ObjectId) : ((EventOp.get id).step s).1 = .ok m[id]?
  getMany (ids : List ObjectId) :
    ((EventOp.getMany ids).step s).1 = .ok (ids.map fun id => m[id]?)
  getManyExisting (ids : List ObjectId) :
    ((EventOp.getManyExisting ids).step s).1 = .ok (ids.filterMap fun id => m[id]?)
  getAll : (EventOp.getAll.step s).1 = .ok m.values

/-- The session agrees with the map now and after each of the calls, which all end as the map
    demands and do to the map what `EventOp.after` says. -/
def Session.Refines (s : Session) (m : EventMap) : List EventOp → Prop
  | [] => s.Agrees m
  | op :: ops => s.Agrees m ∧
    op.Right s.store (s.host.machine.engine.lastId eventBox.entity) m (op.step s).1 ∧
    (op.step s).2.Refines (op.after m (op.step s).1) ops

end ObjectStore
