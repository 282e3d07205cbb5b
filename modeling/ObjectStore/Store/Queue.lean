import ObjectStore.Store.Host

/-! # Queued writes

Writes that the caller hands over and the worker performs later, in order, each as a transaction of
its own. A write that fails leaves its error in a list, to be taken by whoever asks.
-/

namespace ObjectStore

/-- A write to be performed later. -/
inductive QueuedWrite where
  | put (entity : EntityId) (id : ObjectId) (record : Bytes) (mode : PutMode)
  | remove (entity : EntityId) (id : ObjectId)
  deriving DecidableEq, Repr

namespace QueuedWrite

/-- What a failure of the write is reported as. -/
def operation : QueuedWrite → String
  | put .. => "async put"
  | remove .. => "async remove"

/-- Perform the write on the worker thread: its error, if it fails. Nothing happens if it has to
wait. -/
def perform (h : Host) : QueuedWrite → Option (Option Status × Host)
  | put entity id record mode => outcome (h.call workerThread (.put none entity id record mode))
  | remove entity id => outcome (h.call workerThread (.remove none entity id))
where
  outcome (result : Option (Reply Unit × Host)) : Option (Option Status × Host) :=
    result.map fun
      | (.done _, h) => (none, h)
      | (.failed status _, h) => (some status, h)

end QueuedWrite

/-- The queue between a store and its worker. -/
structure Queue where
  /-- The writes not yet performed, the oldest first. -/
  pending : List QueuedWrite := []
  /-- The errors not yet taken, the oldest first. -/
  failures : List StoreError := []
  /-- Whether the queue takes no more writes. -/
  shut : Bool := false
  deriving DecidableEq, Repr

namespace Queue

/-- Hand a write over. -/
def submit (q : Queue) (write : QueuedWrite) : Except StoreError Queue :=
  if q.shut then .error .queueShut else .ok { q with pending := q.pending ++ [write] }

/-- Let the worker perform the oldest pending write, if there is one and it need not wait. -/
def work (q : Queue) (h : Host) : Option (Queue × Host) :=
  match q.pending with
  | [] => none
  | write :: pending =>
    match write.perform h with
    | none => none
    | some (none, h) => some ({ q with pending }, h)
    | some (some status, h) =>
      let (error, slot) := StoreError.takeFrom (h.machine.slot workerThread) write.operation status
      some ({ q with pending, failures := q.failures ++ [error] },
        { h with machine := h.machine.onSlot workerThread fun _ => slot })

/-- Let the worker go on as far as it can. -/
def drain (q : Queue) (h : Host) : Queue × Host :=
  go q.pending.length q h
where
  /-- At most `fuel` writes. -/
  go : (fuel : Nat) → Queue → Host → Queue × Host
    | 0, q, h => (q, h)
    | fuel + 1, q, h =>
      match q.work h with
      | some (q, h) => go fuel q h
      | none => (q, h)

end Queue

end ObjectStore
