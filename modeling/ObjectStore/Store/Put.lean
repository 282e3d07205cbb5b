import ObjectStore.Store.Allocation
import ObjectStore.Store.Binding

/-! # Storing objects

Putting an object stores the objects that go with it, and then its record, under the id it carries
or, if that is 0, under a new one, which it carries afterwards.

A put of several objects is one transaction. Engines with arrays are given chunks: the ids of a
chunk's new objects are taken from one block, in order, and its records are stored by one call.
Other engines are given one object after another.
-/

namespace ObjectStore.Box

variable {T : Type}

/-- Store the object at hand and answer its id. It does not carry the id yet. -/
def write (b : Box T) (txn : Option Txn) (current : ObjectId) (mode : PutMode) :
    Editing T ObjectId := do
  let handle := txn.map Txn.handle
  let id ← match mode with
    | .update => pure current
    | _ => (Store.allocateOne handle b.entity current : HostM ObjectId)
  if b.descriptor.hasRelations then
    match txn with
    | some txn => b.binding.putRelated txn id
    | none => pure ()
  let record ← b.encode id (← Editing.current)
  HostM.request "put" (.put handle b.entity id record mode)
  return id

/-- Store the object at hand, in a transaction if one is given, and answer its id, which it carries
afterwards. Without a transaction one is begun if the object has related ones. -/
def putObject (b : Box T) (txn : Option Txn) (mode : PutMode) : Editing T ObjectId := do
  StoreM.ensureOpen
  let current ← b.currentId
  if mode = .update ∧ current = 0 then
    StoreM.misuse (.updateUnsaved b.name)
  let id ←
    if txn.isNone ∧ b.descriptor.hasRelations then
      Store.runIn .write fun txn => b.write (some txn) current mode
    else b.write txn current mode
  if id ≠ current then b.assignId id
  return id

/-- Store the object at hand, whether or not it was stored before. -/
def put (b : Box T) (txn : Option Txn) : Editing T ObjectId :=
  b.putObject txn .put

/-- Store the object at hand, which must not be stored yet. -/
def insert (b : Box T) (txn : Option Txn) : Editing T ObjectId :=
  b.putObject txn .insert

/-- Store the object at hand, which must be stored already. -/
def update (b : Box T) (txn : Option Txn) : Editing T Unit := do
  let _ ← b.putObject txn .update

/-- An id of a bulk put, and whether it is new to the object. -/
structure Assigned where
  id : ObjectId
  fresh : Bool
  deriving DecidableEq, Repr

/-- Give the objects without an id consecutive ones. -/
def assign : (next : ObjectId) → List ObjectId → List Assigned
  | _, [] => []
  | next, id :: ids =>
    if id = 0 then ⟨next, true⟩ :: assign (next + 1) ids else ⟨id, false⟩ :: assign next ids

/-- Store a chunk of objects by one call. -/
def writeChunk (b : Box T) (txn : Txn) : Editing (List T) (List Assigned) := do
  let objects ← Editing.current
  let currents ← (objects.mapM b.idOf : StoreM (List ObjectId))
  let mode := if currents.all (· = 0) then PutMode.putNew else .put
  let first ← (Store.allocateBlock (some txn.handle) b.entity (currents.count 0) : HostM ObjectId)
  let assigned := assign first currents
  let ids := assigned.map Assigned.id
  let records ← Editing.forEach (fun id => do
    if b.descriptor.hasRelations then b.binding.putRelated txn id
    b.encode id (← Editing.current)) ids
  HostM.request "put_many" (.putMany (some txn.handle) b.entity ids records mode)
  return assigned

/-- Store one of several objects by a call of its own. -/
def writeOne (b : Box T) (txn : Txn) : Editing T Assigned := do
  let current ← b.currentId
  let id ← b.write (some txn) current .put
  return ⟨id, id ≠ current⟩

/-- Store several objects. They do not carry their new ids yet. -/
def writeMany (b : Box T) (txn : Txn) : Editing (List T) (List Assigned) := do
  let store ← StoreM.store
  if store.arrays then
    let chunks ← Editing.forChunks store.config.chunkSize (b.writeChunk txn)
    return chunks.flatten
  else
    Editing.forEach (fun _ => b.writeOne txn) (← Editing.current)

def writeBack (b : Box T) (assigned : List Assigned) : Editing (List T) Unit := do
  let _ ← Editing.forEach
    (fun a : Assigned => if a.fresh then b.assignId a.id else pure ()) assigned

/-- Store several objects in one transaction, one that is given or one of their own, and answer
their ids, which they carry afterwards. -/
def putMany (b : Box T) (txn : Option Txn) : Editing (List T) (List ObjectId) := do
  StoreM.ensureOpen
  if (← Editing.current).isEmpty then return []
  let assigned ← match txn with
    | some txn => b.writeMany txn
    | none => Store.runIn .write b.writeMany
  b.writeBack assigned
  return assigned.map Assigned.id

end ObjectStore.Box
