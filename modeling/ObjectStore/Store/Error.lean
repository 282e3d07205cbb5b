import ObjectStore.Record.Basic
import ObjectStore.Engine.Machine

/-! # Store errors

What can go wrong in a call on a store, by cause. The texts are made from the causes in one place.

A call may also not come to an end yet, because another thread has the writer slot. That is no
error, and has no text.
-/

namespace ObjectStore

/-- A call that makes no sense, whatever the engine says. -/
inductive Misuse where
  /-- Objects cannot be written in chunks of none. -/
  | chunkSizeZero
  /-- A chunk takes its ids from one block. -/
  | chunkSizeTooLarge
  /-- A queue has to hold something. -/
  | queueCapacityZero
  /-- The engine has no arrays to read with. -/
  | arraysUnsupported
  | reservedEntityId (name : String)
  | entityIdTwice (entity : EntityId)
  | bindingTwice (name : String)
  | unknownEndpoint (relation : RelationId) (entity : EntityId)
  /-- The relation's targets are objects of another binding. -/
  | mistypedRelation (relation : RelationId) (target : EntityId) (binding : String)
  | relationIdTwice (relation : RelationId)
  /-- Only a stored object can be updated. -/
  | updateUnsaved (name : String)
  /-- The links of a stored object cannot be replaced by targets that were never loaded. -/
  | targetsNotLoaded (relation : RelationId) (source : ObjectId)
  /-- An object that is not stored has no links to load. -/
  | loadUnsaved (relation : RelationId)
  /-- The relation starts at another entity type. -/
  | foreignSource (relation : RelationId) (source : EntityId) (name : String)
  /-- The caller has its own reason. -/
  | other (why : String)
  deriving DecidableEq, Repr

namespace Misuse

/-- What a misuse says. -/
def message : Misuse → String
  | chunkSizeZero => "chunk_size must be greater than zero"
  | chunkSizeTooLarge => "chunk_size must not exceed MAX_IDS_PER_BLOCK"
  | queueCapacityZero => "async_queue_capacity must be greater than zero"
  | arraysUnsupported => "engine does not support result arrays"
  | reservedEntityId name => s!"entity type {name} uses the reserved id 0"
  | entityIdTwice entity => s!"entity type id {entity} is registered twice"
  | bindingTwice name => s!"binding of {name} is registered twice"
  | unknownEndpoint relation entity =>
    s!"relation {relation} references unknown entity type {entity}"
  | mistypedRelation relation target binding =>
    s!"relation {relation} targets entity type {target} but is typed by {binding}"
  | relationIdTwice relation => s!"relation id {relation} is registered twice"
  | updateUnsaved name => s!"cannot update an object of {name} with id 0; insert it first"
  | targetsNotLoaded relation source =>
    s!"relation {relation}: targets of stored object {source} were not loaded; " ++
      "pass an empty list to remove all links"
  | loadUnsaved relation => s!"cannot load relation {relation} of an object with id 0"
  | foreignSource relation source name =>
    s!"relation {relation} starts at entity type {source}, not {name}"
  | other why => why

end Misuse

/-- Why a call on a store has no answer. -/
inductive StoreError where
  /-- An engine call ended in a status other than success. -/
  | engine (operation : String) (status : Status) (message : String)
  /-- An object could not be turned into a record or back. -/
  | codec (why : CodecError)
  | misuse (why : Misuse)
  /-- No entity type of the model has this binding. -/
  | notRegistered (binding : String)
  /-- The store was closed. -/
  | closed
  /-- The queue takes no more writes. -/
  | queueShut
  /-- It did not fail, but waits until another thread ends its write transaction. -/
  | waits
  deriving DecidableEq, Repr

namespace StoreError

def message : StoreError → String
  | engine operation status message =>
    s!"{operation} failed with {status.text} (code {status.code}): {message}"
  | codec why => "codec error: " ++ why.message
  | misuse why => "invalid operation: " ++ why.message
  | notRegistered binding => s!"entity binding {binding} is not registered in the model"
  | closed => "store is closed"
  | queueShut => "async queue error: queue is shut down"
  | waits => ""

/-- The error of an engine call that ended in `status`, with the detail taken out of the caller's
slot, and the slot without it. -/
def takeFrom (slot : ErrorSlot) (operation : String) (status : Status) : StoreError × ErrorSlot :=
  (engine operation status (slot.messageFor status), slot.clear)

end StoreError

end ObjectStore
