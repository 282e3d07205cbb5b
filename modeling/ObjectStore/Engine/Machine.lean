import ObjectStore.Engine.Call

/-! # Threads on an engine

An engine together with the error slot of each thread that calls it. A refused call leaves the
engine as it was and its detail in the slot of the calling thread; a call that would wait for
another thread's write transaction is not taken.
-/

namespace ObjectStore

/-- An engine and the error slots of its threads. -/
structure Machine where
  engine : Engine
  slots : Std.ExtTreeMap ThreadId ErrorSlot := ∅

namespace Machine

/-- A new engine, which supports arrays or not, and empty slots. -/
def fresh (arrays : Bool) : Machine :=
  { engine := { arrays } }

def slot (m : Machine) (thread : ThreadId) : ErrorSlot :=
  m.slots.getD thread {}

def onSlot (m : Machine) (thread : ThreadId) (change : ErrorSlot → ErrorSlot) : Machine :=
  { m with slots := m.slots.insert thread (change (m.slot thread)) }

/-- Perform a call for a thread: its answer or the refusal, and the machine afterwards. A call that
waits is not taken. -/
def step (m : Machine) (thread : ThreadId) (call : Call) :
    Option (Except Refusal call.Answer × Machine) :=
  match m.engine.perform thread call with
  | .ok (answer, engine) => some (.ok answer, { m with engine })
  | .error (.refused why) => some (.error why, m.onSlot thread why.recordIn)
  | .error .waits => none

end Machine

end ObjectStore
