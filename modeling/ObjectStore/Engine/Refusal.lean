import ObjectStore.LastError
import ObjectStore.Engine.Snapshot

/-! # Refusals

Why the engine refuses a call. A refusal has the status the call ends in, and the detail left in
the caller's error slot. A missing object leaves no detail: a look-up that finds nothing is no
mishap, so it must not overwrite what an earlier failure left in the slot.
-/

namespace ObjectStore

abbrev Handle := Nat

/-- How many ids one block can hold. -/
def maxIdsPerBlock : Nat := 10000

/-- Why the engine refuses a call. -/
inductive Refusal where
  /-- The handle names no open transaction. -/
  | notOpen (txn : Handle)
  /-- A write through a read transaction. -/
  | readOnly (txn : Handle)
  /-- The calling thread already holds the writer slot. -/
  | writerHeld
  | unknownEntity (entity : EntityId)
  | unknownRelation (relation : RelationId)
  /-- The engine has no calls on arrays of records. -/
  | noArrays (call : String)
  /-- A record cannot be stored under id 0. -/
  | reservedId (entity : EntityId)
  | alreadyStored (entity : EntityId) (id : ObjectId)
  | notStored (entity : EntityId) (id : ObjectId)
  /-- The object to read or remove is missing. -/
  | missing
  /-- As many ids as records are needed. -/
  | unevenLists (ids records : Nat)
  /-- A block of ids of a size that is not handed out. -/
  | blockSize (count : Nat)
  /-- The largest id has been handed out. -/
  | exhausted (entity : EntityId)
  /-- Id 0 takes part in no link. -/
  | reservedLink (relation : RelationId) (source target : ObjectId)
  deriving DecidableEq, Repr

namespace Refusal

/-- The status a refused call ends in. -/
def status : Refusal → Status
  | notOpen _ => .txnClosed
  | readOnly _ => .readOnlyTxn
  | writerHeld => .illegalState
  | unknownEntity _ => .unknownEntity
  | unknownRelation _ => .unknownRelation
  | noArrays _ => .notSupported
  | reservedId _ => .illegalArgument
  | alreadyStored _ _ => .idAlreadyExists
  | notStored _ _ => .idNotFound
  | missing => .notFound
  | unevenLists _ _ => .illegalArgument
  | blockSize _ => .illegalArgument
  | exhausted _ => .illegalState
  | reservedLink _ _ _ => .illegalArgument

/-- The detail a refused call leaves in the error slot. -/
def detail? : Refusal → Option String
  | notOpen txn => some s!"transaction {txn} is not open"
  | readOnly txn => some s!"transaction {txn} is read-only"
  | writerHeld =>
    some "a write transaction is already open on this thread; pass its handle instead"
  | unknownEntity entity => some s!"entity type {entity} is not defined"
  | unknownRelation relation => some s!"relation {relation} is not defined"
  | noArrays call => some s!"{call} requires result array support"
  | reservedId entity => some s!"cannot store entity type {entity} under the reserved id 0"
  | alreadyStored entity id => some s!"object {id} of entity type {entity} already exists"
  | notStored entity id => some s!"object {id} of entity type {entity} does not exist"
  | missing => none
  | unevenLists ids records => some s!"{ids} ids given for {records} records"
  | blockSize count => some s!"id block size must be within 1..={maxIdsPerBlock}, got {count}"
  | exhausted entity => some s!"id sequence of entity type {entity} is exhausted"
  | reservedLink relation source target =>
    some s!"cannot link {source} -> {target} in relation {relation}: id 0 is reserved"

/-- Record a refusal in the slot of the thread that made the call. -/
def recordIn (why : Refusal) (slot : ErrorSlot) : ErrorSlot :=
  match why.detail? with
  | some message => slot.record why.status message
  | none => slot

end Refusal

end ObjectStore
