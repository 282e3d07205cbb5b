import ObjectStore.Status

/-! # The last error of a thread

A status alone does not say which object or transaction a call tripped over, so each thread has a
slot for the detail of its last failed call. Reading the slot leaves it, taking empties it. A
thread may pin its slot: pinning empties it, so that what is found there later was put there since.
-/

namespace ObjectStore

/-- The detail of a failed call. -/
structure LastError where
  status : Status
  /-- What it tripped over. -/
  message : String
  deriving DecidableEq, Repr

/-- One thread's slot. -/
structure ErrorSlot where
  /-- The detail last recorded and not yet taken. -/
  last : Option LastError := none
  /-- How many pins are held on the slot. -/
  pins : Nat := 0
  deriving DecidableEq, Repr

namespace ErrorSlot

/-- Record a detail over whatever was there. -/
def record (slot : ErrorSlot) (status : Status) (message : String) : ErrorSlot :=
  { slot with last := some ⟨status, message⟩ }

/-- Empty the slot. -/
def clear (slot : ErrorSlot) : ErrorSlot :=
  { slot with last := none }

/-- Empty the slot and hold one more pin on it. -/
def pin (slot : ErrorSlot) : ErrorSlot :=
  { last := none, pins := slot.pins + 1 }

def unpin (slot : ErrorSlot) : ErrorSlot :=
  { slot with pins := slot.pins - 1 }

def isPinned (slot : ErrorSlot) : Bool :=
  0 < slot.pins

/-- What a failure with `status` says: the recorded detail if it is of that status, the status's own
text otherwise. -/
def messageFor (slot : ErrorSlot) (status : Status) : String :=
  match slot.last with
  | some detail => if detail.status = status then detail.message else status.text
  | none => status.text

end ErrorSlot

end ObjectStore
