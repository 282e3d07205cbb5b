import ObjectStore.Record.Encoder
import ObjectStore.Store.Config
import ObjectStore.Store.Model
import ObjectStore.Store.Queue

/-! # Stores and sessions

A store is what the caller has open over an engine; a session is a store with its host. Calls on a
store are programs in one of three monads, each of which embeds in the next:

* `HostM` makes engine calls;
* `StoreM` also uses the store's pool and queue;
* `Editing σ` also changes the caller's objects `σ`.

What a failed call did before it failed stays done. A program that comes to an engine call which
waits for another thread does not go on: it ends in `StoreError.waits`.
-/

namespace ObjectStore

/-- An open or closed store. -/
structure Store where
  config : Config
  model : Model
  /-- How many records are read at once. -/
  strategy : ReadStrategy
  /-- Whether the engine has calls on arrays. -/
  arrays : Bool
  closed : Bool := false
  pool : EncoderPool
  queue : Queue := {}

/-- A store with its host. -/
structure Session where
  host : Host
  store : Store

/-- Programs that make engine calls. -/
abbrev HostM := ExceptT StoreError (StateM Host)

/-- Programs that use a store. -/
abbrev StoreM := ExceptT StoreError (StateM Session)

/-- Programs that use a store and change objects of the caller. -/
abbrev Editing (σ : Type) := ExceptT StoreError (StateT σ (StateM Session))

namespace HostM

/-- Make an engine call for the caller. A call that waits is not made; the caller's own
transactions are never in each other's way. -/
def perform (call : Call) : HostM (Reply call.Answer) := do
  match (← get).call callerThread call with
  | some (reply, host) =>
    set host
    return reply
  | none => throw .waits

/-- The error of an engine call that ended in `status`; it takes the caller's slot. -/
def failure (operation : String) (status : Status) : HostM StoreError := do
  let host ← get
  let (error, slot) := StoreError.takeFrom (host.machine.slot callerThread) operation status
  set { host with machine := host.machine.onSlot callerThread fun _ => slot }
  return error

/-- Make an engine call that has to succeed. -/
def request (operation : String) (call : Call) : HostM call.Answer := do
  match ← perform call with
  | .done answer => return answer
  | .failed status _ => throw (← failure operation status)

end HostM

namespace StoreM

/-- A program that only makes engine calls. -/
def ofHost {α : Type} (program : HostM α) : StoreM α :=
  ExceptT.mk fun session =>
    let (result, host) := program.run session.host
    (result, { session with host })

instance : MonadLift HostM StoreM := ⟨ofHost⟩

def store : StoreM Store := do return (← getThe Session).store

/-- Only go on if the store is open. -/
def ensureOpen : StoreM Unit := do
  if (← store).closed then throw .closed

def misuse {α : Type} (why : Misuse) : StoreM α :=
  throw (.misuse why)

/-- Write a record with an encoder of the pool. -/
def encodeRecord (id : ObjectId) (body : Except CodecError Cbor.Value) : StoreM Bytes := do
  let session ← getThe Session
  let (result, pool) := session.store.pool.encode id body
  set { session with store := { session.store with pool } }
  match result with
  | .ok record => return record
  | .error why => throw (.codec why)

end StoreM

namespace Editing

/-- A program that changes no object. -/
def ofStore {σ α : Type} (program : StoreM α) : Editing σ α :=
  ExceptT.mk fun objects => do
    let result ← program.run
    return (result, objects)

instance {σ : Type} : MonadLift StoreM (Editing σ) := ⟨ofStore⟩

def current {σ : Type} : Editing σ σ :=
  ExceptT.mk fun objects => return (.ok objects, objects)

def replace {σ : Type} (objects : σ) : Editing σ Unit :=
  ExceptT.mk fun _ => return (.ok (), objects)

/-- What a program ends in, its error included. -/
def outcome {σ α : Type} (program : Editing σ α) : Editing σ (Except StoreError α) :=
  ExceptT.mk do return .ok (← program.run)

/-- Run a program on objects: what it ends in, and the objects afterwards. -/
def runOn {σ α : Type} (objects : σ) (program : Editing σ α) : StoreM (Except StoreError α × σ) :=
  ExceptT.mk do return .ok (← program.run objects)

/-- Change a part of the caller's objects. -/
def focus {σ τ α : Type} (part : σ → τ) (fill : σ → τ → σ) (program : Editing τ α) : Editing σ α :=
  ExceptT.mk fun objects => do
    let (result, changed) ← program.run (part objects)
    return (result, fill objects changed)

/-- Change the objects of a list one after another, up to the first error, each with its own
argument. -/
def forEach {τ α β : Type} (step : α → Editing τ β) (arguments : List α) :
    Editing (List τ) (List β) :=
  ExceptT.mk fun objects => go arguments objects []
where
  /-- The answers so far come newest first. -/
  go : List α → List τ → List β → StateM Session (Except StoreError (List β) × List τ)
    | a :: as, object :: objects, done => do
      match ← (step a).run object with
      | (.ok b, object) =>
        let (result, objects) ← go as objects (b :: done)
        return (result, object :: objects)
      | (.error why, object) => return (.error why, object :: objects)
    | _, objects, done => return (.ok done.reverse, objects)

/-- Cut a list into chunks of `size`, of which the last may be smaller. Every chunk has an item, so
that the list is `budget` enough. -/
def chunked {τ : Type} (size : Nat) : (budget : List τ) → List τ → List (List τ)
  | _ :: budget, object :: objects =>
    (object :: objects.take (size - 1)) :: chunked size budget (objects.drop (size - 1))
  | _, _ => []

/-- Change a list of objects in chunks of `size`, up to the first error. -/
def forChunks {τ β : Type} (size : Nat) (step : Editing (List τ) β) : Editing (List τ) (List β) :=
  ExceptT.mk fun objects => do
    let chunks := chunked size objects objects
    let (result, chunks) ← (forEach (fun _ => step) chunks).run chunks
    return (result, chunks.flatten)

end Editing

end ObjectStore
