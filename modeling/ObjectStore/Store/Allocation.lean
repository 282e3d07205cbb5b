import ObjectStore.Store.Session

/-! # Allocating ids

A refused id comes back as 0, without a status. So an allocation that fails is tried once more on a
pinned, empty slot: what is found there afterwards was left by that very call.
-/

namespace ObjectStore.Store

/-- What an id is refused with if the engine leaves no detail. -/
def noIdMessage (entity : EntityId) (candidate : ObjectId) : String :=
  s!"no id for entity type {entity} (candidate {candidate})"

/-- Ask for an id; 0 if it is refused. -/
def askId (txn : Option Handle) (entity : EntityId) (candidate : ObjectId) : HostM ObjectId := do
  match ← HostM.perform (.idForPut txn entity candidate) with
  | .done id => return id
  | .failed _ _ => return 0

def onCallerSlot (change : ErrorSlot → ErrorSlot) : HostM Unit :=
  modify fun host => { host with machine := host.machine.onSlot callerThread change }

/-- An id for an object: the candidate itself, or a new one if that is 0. -/
def allocateOne (txn : Option Handle) (entity : EntityId) (candidate : ObjectId) :
    HostM ObjectId := do
  let id ← askId txn entity candidate
  if id ≠ 0 then return id
  onCallerSlot ErrorSlot.pin
  let id ← askId txn entity candidate
  if id ≠ 0 then
    onCallerSlot ErrorSlot.unpin
    return id
  let detail? := ((← get).machine.slot callerThread).last
  onCallerSlot fun slot => slot.clear.unpin
  match detail? with
  | some detail => throw (.engine "id_for_put" detail.status detail.message)
  | none => throw (.engine "id_for_put" .error (noIdMessage entity candidate))

/-- The first of `count` consecutive new ids; no call is made for none. -/
def allocateBlock (txn : Option Handle) (entity : EntityId) (count : Nat) : HostM ObjectId :=
  if count = 0 then return 0
  else HostM.request "ids_for_put" (.idsForPut txn entity count)

end ObjectStore.Store
