import ObjectStore.Store.Error

/-! # The host of a store

A store runs on an engine that its caller shares with a worker thread. The host performs the calls
of both, keeps the caller's calls in order, and can be told to fail some of them: a fault lets some
calls of its name pass and then fails some, either instead of performing them or afterwards.
-/

namespace ObjectStore

/-- The thread that calls the store. -/
def callerThread : ThreadId := 0

/-- The thread that performs queued writes. -/
def workerThread : ThreadId := 1

/-- A planned failure of calls. -/
structure Fault where
  call : String
  status : Status
  /-- The detail left in the slot of the thread that calls. -/
  detail : Option LastError := none
  /-- How many calls pass first. -/
  skip : Nat := 0
  /-- How many calls fail then. -/
  times : Nat := 1
  /-- Whether a call is performed before it fails. -/
  after : Bool := false
  deriving DecidableEq, Repr

namespace Fault

/-- Whether the next call fails, and the fault afterwards. -/
def next (f : Fault) : Bool × Fault :=
  if 0 < f.skip then (false, { f with skip := f.skip - 1 })
  else if 0 < f.times then (true, { f with times := f.times - 1 })
  else (false, f)

end Fault

/-- How an engine call ended. -/
inductive Reply (α : Type) where
  | done (answer : α)
  /-- It failed; there may be an answer if it was performed nevertheless. -/
  | failed (status : Status) (answer : Option α)

/-- An engine with its threads, planned faults and the calls made. -/
structure Host where
  machine : Machine
  /-- At most one fault for each name of a call. -/
  faults : List Fault := []
  /-- The caller's calls, the newest first. -/
  calls : List Call := []

namespace Host

/-- Plan a fault, instead of an earlier one of its name. -/
def plan (h : Host) (fault : Fault) : Host :=
  { h with faults := fault :: h.faults.filter (·.call ≠ fault.call) }

/-- The fault that the next call of a name runs into, if it does, and the host afterwards. -/
def meet (h : Host) (call : String) : Option Fault × Host :=
  match h.faults.find? (·.call = call) with
  | none => (none, h)
  | some fault =>
    let (hit, fault) := fault.next
    (if hit then some fault else none, h.plan fault)

/-- Keep a call of the caller. -/
def note (h : Host) (thread : ThreadId) (call : Call) : Host :=
  if thread = callerThread then { h with calls := call :: h.calls } else h

/-- Perform what is performed of a call that is to fail: all of it, or nothing, save that a
transaction whose end fails is aborted. -/
def performFailing (h : Host) (thread : ThreadId) (fault : Fault) (call : Call) :
    Option (Except Refusal (Option call.Answer) × Machine) :=
  if fault.after then
    (h.machine.step thread call).map fun (result, machine) => (result.map some, machine)
  else match call with
    | .commit txn | .abort txn =>
      (h.machine.step thread (.abort txn)).map fun (_, machine) => (.ok none, machine)
    | _ => some (.ok none, h.machine)

/-- Whether a call hands out one id, in which case it fails without a status. -/
def isIdForPut : Call → Bool
  | .idForPut .. => true
  | _ => false

/-- Leave the detail of a fault in the slot of a thread. -/
def leaveDetail (machine : Machine) (thread : ThreadId) (fault : Fault) : Machine :=
  match fault.detail with
  | some detail => machine.onSlot thread fun slot => slot.record detail.status detail.message
  | none => machine

/-- Perform a call for a thread. Nothing happens if it has to wait. -/
def call (h : Host) (thread : ThreadId) (call : Call) : Option (Reply call.Answer × Host) := do
  let (fault?, h) := (h.note thread call).meet call.name
  match fault? with
  | none =>
    let (result, machine) ← h.machine.step thread call
    match result with
    | .ok answer => return (.done answer, { h with machine })
    | .error why => return (.failed why.status none, { h with machine })
  | some fault =>
    let (result, machine) ← h.performFailing thread fault call
    match result, isIdForPut call with
    | .error why, false => return (.failed why.status none, { h with machine })
    | .error _, true =>
      return (.failed fault.status none, { h with machine := leaveDetail machine thread fault })
    | .ok answer, _ =>
      return (.failed fault.status answer, { h with machine := leaveDetail machine thread fault })

end Host

end ObjectStore
