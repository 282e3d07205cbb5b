import ObjectStore.Store.Allocation
import ObjectStore.Store.Binding

/-! # Deferred writes

The deferred counterparts of putting and removing: the id is allocated and the related objects are
stored at once, in a transaction of their own; the record is written, or removed, by the worker
later. What the worker finds wrong is reported when its failures are taken.
-/

namespace ObjectStore

namespace Store

/-- Hand a write to the worker. -/
def submit (write : QueuedWrite) : StoreM Unit := do
  let session ← getThe Session
  match session.store.queue.submit write with
  | .ok queue => set { session with store := { session.store with queue } }
  | .error why => throw why

end Store

namespace Box

variable {T : Type}

/-- Put the object at hand later, and answer its id, which it carries afterwards. -/
def putLater (b : Box T) (mode : PutMode) : Editing T ObjectId := do
  StoreM.ensureOpen
  let current ← b.currentId
  if mode = .update ∧ current = 0 then
    StoreM.misuse (.updateUnsaved b.name)
  let id ← match mode with
    | .update => pure current
    | _ => (Store.allocateOne none b.entity current : HostM ObjectId)
  if b.descriptor.hasRelations then
    Store.runIn .write fun txn => b.binding.putRelated txn id
  let record ← b.encode id (← Editing.current)
  Store.submit (.put b.entity id record mode)
  if id ≠ current then b.assignId id
  return id

def removeIdLater (b : Box T) (id : ObjectId) : StoreM Unit := do
  StoreM.ensureOpen
  Store.submit (.remove b.entity id)

/-- Remove an object by the id it carries later. -/
def removeLater (b : Box T) (object : T) : StoreM Unit := do
  b.removeIdLater (← b.idOf object)

end Box

namespace Session

/-- Let the worker perform what is pending, as far as it can. -/
def awaitCompletion (s : Session) : Session :=
  let (queue, host) := s.store.queue.drain s.host
  { host, store := { s.store with queue } }

/-- The errors of deferred writes, taken off the list. -/
def takeFailures (s : Session) : List StoreError × Session :=
  (s.store.queue.failures,
    { s with store := { s.store with queue := { s.store.queue with failures := [] } } })

end Session

end ObjectStore
