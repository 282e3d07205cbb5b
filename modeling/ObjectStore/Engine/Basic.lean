import ObjectStore.Engine.Refusal

/-! # The engine

An engine keeps records and links in memory for any number of threads.

* A transaction works on the snapshot that was committed when it began. At most one write
  transaction is open at a time; the thread that began it occupies the writer slot. A commit makes
  the transaction's snapshot the committed one.
* A call without a transaction reads the committed snapshot, and writes to it as a transaction of
  its own, for which it needs the writer slot to be free.
* Id sequences stand outside transactions: an id handed out is never handed out again.

A call is a function from the engine and the calling thread to an answer and the engine
afterwards. A call that does not succeed yields no engine, so it changes nothing.
-/

namespace ObjectStore

abbrev ThreadId := Nat

/-- What a transaction may do. -/
inductive TxnMode where
  | read
  | write
  deriving DecidableEq, Repr

/-- What a write requires of the object it stores. -/
inductive PutMode where
  /-- Store the object whether or not it was stored before. -/
  | put
  /-- The object must not be stored yet. -/
  | insert
  /-- The object must be stored already. -/
  | update
  /-- The id was handed out just now, so the object must not be stored yet. -/
  | putNew
  deriving DecidableEq, Repr

/-- The entity types a relation leads between. -/
structure Endpoints where
  source : EntityId
  target : EntityId
  deriving DecidableEq, Repr

structure OpenTxn where
  mode : TxnMode
  /-- The snapshot it began with, changed by its own writes. -/
  state : Snapshot

structure Engine where
  /-- Whether the calls on arrays of records are supported. -/
  arrays : Bool
  entities : Std.ExtTreeMap EntityId String := ∅
  relations : Std.ExtTreeMap RelationId Endpoints := ∅
  /-- What a transaction that begins now sees. -/
  committed : Snapshot := {}
  /-- The largest id handed out or stored, by entity type. -/
  sequences : Std.ExtTreeMap EntityId ObjectId := ∅
  txns : Std.ExtTreeMap Handle OpenTxn := ∅
  nextHandle : Handle := 1
  /-- The thread whose write transaction is open. -/
  writer : Option ThreadId := none
  /-- How many single-link writes were served. -/
  relationWrites : Nat := 0

/-- Why a call yields no answer. -/
inductive Halt where
  /-- The engine refuses it. -/
  | refused (why : Refusal)
  /-- It needs the writer slot, which another thread occupies, and waits for it. -/
  | waits
  deriving DecidableEq, Repr

namespace Engine

/-- The largest id handed out or stored under an entity type, 0 before the first. -/
def lastId (e : Engine) (entity : EntityId) : ObjectId :=
  e.sequences.getD entity 0

/-- The engine with its sequence for an entity type at `id`. A sequence at 0 is left out. -/
def setLastId (e : Engine) (entity : EntityId) (id : ObjectId) : Engine :=
  { e with sequences :=
      if id = 0 then e.sequences.erase entity else e.sequences.insert entity id }

/-- Move the sequence of an entity type past ids that were stored. -/
def observe (e : Engine) (entity : EntityId) (ids : List ObjectId) : Engine :=
  e.setLastId entity (ids.foldl max (e.lastId entity))

def refuse {α : Type} (why : Refusal) : Except Halt α :=
  .error (.refused why)

def requireEntity (e : Engine) (entity : EntityId) : Except Halt Unit :=
  if e.entities.contains entity then .ok () else refuse (.unknownEntity entity)

def requireArrays (e : Engine) (call : String) : Except Halt Unit :=
  if e.arrays then .ok () else refuse (.noArrays call)

def endpoints (e : Engine) (relation : RelationId) : Except Halt Endpoints :=
  match e.relations[relation]? with
  | some ends => .ok ends
  | none => refuse (.unknownRelation relation)

def openTxn (e : Engine) (txn : Handle) : Except Halt OpenTxn :=
  match e.txns[txn]? with
  | some t => .ok t
  | none => refuse (.notOpen txn)

def writeTxn (e : Engine) (txn : Handle) : Except Halt OpenTxn := do
  let t ← e.openTxn txn
  match t.mode with
  | .read => refuse (.readOnly txn)
  | .write => return t

/-- Only go on if ids may be reserved through this transaction, if there is one. -/
def requireWritable (e : Engine) : Option Handle → Except Halt Unit
  | some txn => do let _ ← e.writeTxn txn
  | none => .ok ()

/-- The writer slot must be free: on the thread that occupies it the call is refused, on any other
it waits. -/
def requireWriterFree (e : Engine) (thread : ThreadId) : Except Halt Unit :=
  match e.writer with
  | none => .ok ()
  | some owner => if owner = thread then refuse .writerHeld else .error .waits

/-- The snapshot a read sees: that of its transaction, or the committed one. -/
def view (e : Engine) : Option Handle → Except Halt Snapshot
  | some txn => do return (← e.openTxn txn).state
  | none => .ok e.committed

/-- Apply a change to the snapshot of a write transaction or, without one, to the committed
snapshot. -/
def write {α : Type} (e : Engine) (thread : ThreadId) (txn : Option Handle)
    (change : Snapshot → Except Refusal (α × Snapshot)) : Except Halt (α × Engine) :=
  match txn with
  | some txn => do
    let t ← e.writeTxn txn
    let (answer, state) ← (change t.state).mapError .refused
    return (answer, { e with txns := e.txns.insert txn { t with state } })
  | none => do
    e.requireWriterFree thread
    let (answer, committed) ← (change e.committed).mapError .refused
    return (answer, { e with committed })

end Engine

end ObjectStore
