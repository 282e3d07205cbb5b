import ObjectStore.Workload.Scenario

/-! # Stress runs

Runs that put a load on a store and tally how its operations end. What is an operation differs: an
event for the runs that put events, a batch or a reading for the concurrent run, a replacement of
the tags for the churning run.
-/

namespace ObjectStore.Workload

open Catalog

/-- How much a run does. -/
structure Load where
  /-- How many operations it has, or each of its threads. -/
  operations : Nat := 10000
  /-- How many threads write, and how many read. -/
  threads : Nat := 4
  /-- The size of an event's payload. -/
  payloadSize : Nat := 256
  /-- How many events a batch has. -/
  batchSize : Nat := 500
  deriving DecidableEq, Repr

namespace Load

/-- An event of the load. -/
def event (load : Load) (seq : Nat) : Event :=
  { source := "stress", seq := .ofNat seq, payload := List.replicate load.payloadSize 0xAB }

/-- Consecutive events of the load. -/
def events (load : Load) (first count : Nat) : List Event :=
  (List.range' first count).map load.event

end Load

/-- How the operations of a run ended. -/
structure Tally where
  ok : Nat := 0
  failed : Nat := 0
  deriving DecidableEq, Repr

namespace Tally

def total (t : Tally) : Nat :=
  t.ok + t.failed

/-- Tally some more operations that ended alike. -/
def add (t : Tally) (count : Nat) (succeeded : Bool) : Tally :=
  if succeeded then { t with ok := t.ok + count } else { t with failed := t.failed + count }

/-- The tally of two runs together. -/
def merge (t u : Tally) : Tally :=
  ⟨t.ok + u.ok, t.failed + u.failed⟩

/-- Operations a second, for a run of so many seconds and nanoseconds; 0 if it took no time. -/
def rate (t : Tally) (seconds nanoseconds : UInt64) : Float :=
  let whole := seconds + nanoseconds / 1000000000
  let taken := whole.toFloat + (nanoseconds % 1000000000).toFloat / 1e9
  if 0 < taken then (UInt64.ofNat t.total).toFloat / taken else 0

end Tally

/-- Perform an operation for each number below `count` and tally how they end. -/
def tallyEach (count : Nat) (operation : Nat → StoreM Bool) : StoreM Tally :=
  (List.range count).foldlM (fun tally i => return tally.add 1 (← operation i)) {}

/-- Run a program on an object that is not looked at afterwards: whether it succeeds. It has not
failed while it waits. -/
def succeedsOn {σ α : Type} (object : σ) (program : Editing σ α) : StoreM Bool := do
  match (← Editing.runOn object program).1 with
  | .error .waits => throw .waits
  | result => return result.isOk

def sequentialPuts (load : Load) : StoreM Tally := do
  let b ← Store.boxFor eventBinding
  tallyEach load.operations fun seq => succeedsOn (load.event seq) (b.put none)

/-- A run of bulk puts: the number of its next event, and how those before it ended. -/
structure BulkRun where
  next : Nat := 0
  tally : Tally := {}
  deriving DecidableEq, Repr

namespace BulkRun

/-- The size of the next batch: the last one may be smaller. -/
def size (run : BulkRun) (load : Load) : Nat :=
  min load.batchSize (load.operations - run.next)

def round (run : BulkRun) (load : Load) (b : Box Event) : StoreM BulkRun := do
  let count := run.size load
  let succeeded ← succeedsOn (load.events run.next count) (b.putMany none)
  return { next := run.next + count, tally := run.tally.add count succeeded }

/-- Put batches until all events had their turn; no answer if that takes more rounds. -/
def finish (run : BulkRun) (load : Load) (b : Box Event) : (rounds : Nat) → StoreM (Option Tally)
  | 0 => return if load.operations ≤ run.next then some run.tally else none
  | rounds + 1 => do
    if load.operations ≤ run.next then return some run.tally
    (← run.round load b).finish load b rounds

end BulkRun

/-- Put events in batches, in at most so many rounds. -/
def bulkPutsWithin (rounds : Nat) (load : Load) : StoreM (Option Tally) := do
  let b ← Store.boxFor eventBinding
  BulkRun.finish {} load b rounds

/-- Put events in batches. Every round puts an event, so that no run needs more rounds than it has
events; only batches of none never come to an end. -/
def bulkPuts (load : Load) : StoreM (Option Tally) :=
  bulkPutsWithin load.operations load

/-- Put events by the worker and wait for it. A failure is taken off the operations that were
thought to have succeeded. -/
def deferredPuts (load : Load) : StoreM Tally := do
  let b ← Store.boxFor eventBinding
  let submitted ← tallyEach load.operations fun seq => succeedsOn (load.event seq) (b.putLater .put)
  modifyThe Session Session.awaitCompletion
  let failures ← modifyGetThe Session Session.takeFailures
  let failed := submitted.failed + failures.length
  return { ok := submitted.ok - failed, failed }

/-- How many batches a thread of a concurrent run puts, and how often one reads. -/
def Load.batches (load : Load) : Nat :=
  max (load.operations / max load.batchSize 1) 1

/-- Put batches of events, each of which is one operation. -/
def writeBatches (load : Load) : StoreM Tally := do
  let b ← Store.boxFor eventBinding
  tallyEach load.batches fun _ => succeedsOn (load.events 0 load.batchSize) (b.putMany none)

/-- Read all events again and again; it is a failure to see a part of a batch. -/
def readBatches (load : Load) : StoreM Tally := do
  let b ← Store.boxFor eventBinding
  tallyEach load.batches fun _ => do
    let (result, _) ← Editing.runOn () (b.getAll none : StoreM (List Event))
    match result with
    | .ok events => return events.length % max load.batchSize 1 = 0
    | .error _ => return false

/-- Write and read with several threads. Batches are put in transactions, so that readers see whole
ones only and it does not matter in which order the threads take turns: here, one after another. -/
def concurrentPuts (load : Load) : StoreM Tally :=
  (List.range load.threads).foldlM (fun tally _ => do
    return (tally.merge (← writeBatches load)).merge (← readBatches load)) {}

/-- Replace the tags of a note again and again, by two sets in turn that have some tags in
common. -/
def tagChurn (load : Load) : StoreM Tally := do
  let b ← Store.boxFor noteBinding
  let (result, note) ← Editing.runOn { text := "churn", tags := some (tagsOf "t" 8) } (b.put none)
  let _ ← orFail result
  let tags := note.tags.getD []
  tallyEach load.operations fun round =>
    let wanted := if round % 2 = 0 then tags.take 6 else tags.drop 2
    succeedsOn (some wanted) (b.relationReplace tagBinding none noteTags note.id note)

end ObjectStore.Workload
