import ObjectStore.Workload.Scenario

/-! # A store and what it should hold

A store together with a map of the events it is expected to hold. Writes go to both; a check
compares what the store answers with the map and names the first difference.
-/

namespace ObjectStore.Workload

open Catalog

/-- What sets a store apart from the map kept of it. -/
inductive Discrepancy where
  /-- A call that should have succeeded failed. -/
  | callFailed (why : StoreError)
  /-- Removing this event went otherwise than the map says. -/
  | removal (id : ObjectId)
  /-- The store does not count as many events. -/
  | count
  /-- Reading all events does not give the expected ones in order. -/
  | all
  /-- Reading this event does not give the expected one. -/
  | event (id : ObjectId)
  /-- Looking events up does not give the expected ones in their places. -/
  | lookup
  /-- Looking up the stored ones of events does not give the expected ones in order. -/
  | existing
  deriving DecidableEq, Repr

/-- A store and the events it is expected to hold. -/
structure Tracked where
  session : Session
  events : Box Event
  expected : Std.ExtTreeMap ObjectId Event := ∅

/-- Programs on a tracked store. What a failed one did stays done. -/
abbrev TrackedM := ExceptT Discrepancy (StateM Tracked)

namespace Tracked

/-- Track an empty store. -/
def ofSession (session : Session) : Except StoreError Tracked :=
  let (result, session) := (Store.boxFor eventBinding : StoreM (Box Event)).run session
  result.map fun events => { session, events }

/-- The ids the store is expected to hold, ascending. -/
def expectedIds (t : Tracked) : List ObjectId :=
  t.expected.keys

/-- Use the store, past the map. -/
def call {α : Type} (program : Box Event → StoreM α) : TrackedM (Except StoreError α) :=
  ExceptT.mk fun t =>
    let (result, session) := (program t.events).run t.session
    (.ok result, { t with session })

/-- Use the store for a call that should succeed. -/
def request {α : Type} (program : Box Event → StoreM α) : TrackedM α := do
  match ← call program with
  | .ok a => return a
  | .error why => throw (.callFailed why)

def expect (id : ObjectId) (event : Event) : TrackedM Unit :=
  modify fun t => { t with expected := t.expected.insert id event }

def assert (condition : Bool) (otherwise : Discrepancy) : TrackedM Unit :=
  if condition then pure () else throw otherwise

def put (event : Event) : TrackedM ObjectId := do
  let (result, event) ← request fun b => Editing.runOn event (b.put none)
  match result with
  | .ok id =>
    expect id event
    return id
  | .error why => throw (.callFailed why)

def putMany (events : List Event) : TrackedM (List ObjectId) := do
  let (result, events) ← request fun b => Editing.runOn events (b.putMany none)
  match result with
  | .ok ids =>
    events.forM fun event => expect event.id event
    return ids
  | .error why => throw (.callFailed why)

/-- Remove an event, and answer whether it was expected. -/
def remove (id : ObjectId) : TrackedM Bool := do
  let tracked := (← get).expected.contains id
  modify fun t => { t with expected := t.expected.erase id }
  let result ← call fun b => b.removeId none id
  assert (result.isOk == tracked) (.removal id)
  return tracked

/-- Compare everything the store holds with the map. -/
def verify : TrackedM Unit := do
  let expected := (← get).expected
  assert ((← request fun b => b.count none) == expected.size) .count
  assert ((← request fun b => b.getAll none) == expected.values) .all
  expected.toList.forM fun (id, event) => do
    assert ((← request fun b => b.get none id) == some event) (.event id)

/-- Compare looking ids up with the map. -/
def verifyLookup (ids : List ObjectId) : TrackedM Unit := do
  let tracked := (← get).expected
  let expected := ids.map fun id => tracked[id]?
  assert ((← request fun b => b.getMany none ids) == expected) .lookup
  assert ((← request fun b => b.getManyExisting none ids) == expected.reduceOption) .existing

end Tracked

end ObjectStore.Workload
