import ObjectStore.Engine.Basic

/-! # Definitions, transactions and ids

The calls that do not touch records: defining entity types and relations, beginning and ending
transactions, and handing out ids.

Ids are handed out past the largest id known for the entity type, whichever transaction it was
written in, and never beyond the largest 64-bit number: a sequence that cannot go on is exhausted.
-/

namespace ObjectStore.Engine

def maxId : Nat := 0xffffffffffffffff

/-- Define an entity type, or rename it. -/
def defineEntity (e : Engine) (entity : EntityId) (name : String) : Engine :=
  { e with entities := e.entities.insert entity name }

/-- Define a relation between two defined entity types, or move it. -/
def defineRelation (e : Engine) (relation : RelationId) (source target : EntityId) :
    Except Halt Engine := do
  e.requireEntity source
  e.requireEntity target
  return { e with relations := e.relations.insert relation ⟨source, target⟩ }

/-- Begin a transaction on the committed snapshot. A write transaction occupies the writer slot. -/
def begin (e : Engine) (thread : ThreadId) (mode : TxnMode) : Except Halt (Handle × Engine) := do
  match mode with
  | .read => pure ()
  | .write => e.requireWriterFree thread
  return (e.nextHandle,
    { e with
      txns := e.txns.insert e.nextHandle ⟨mode, e.committed⟩
      nextHandle := e.nextHandle + 1
      writer := if mode = .write then some thread else e.writer })

/-- End a transaction; what a write transaction wrote becomes the committed snapshot. -/
def commit (e : Engine) (txn : Handle) : Except Halt Engine := do
  let t ← e.openTxn txn
  let txns := e.txns.erase txn
  match t.mode with
  | .read => return { e with txns }
  | .write => return { e with txns, committed := t.state, writer := none }

/-- End a transaction and forget what it wrote. -/
def abort (e : Engine) (txn : Handle) : Except Halt Engine := do
  let t ← e.openTxn txn
  let txns := e.txns.erase txn
  match t.mode with
  | .read => return { e with txns }
  | .write => return { e with txns, writer := none }

/-- Hand out an id. A nonzero candidate is granted as it is and the sequence moves past it. -/
def idForPut (e : Engine) (txn : Option Handle) (entity : EntityId) (candidate : ObjectId) :
    Except Halt (ObjectId × Engine) := do
  e.requireEntity entity
  e.requireWritable txn
  if candidate = 0 then
    if (e.lastId entity).toNat = maxId then refuse (.exhausted entity)
    else
      let id := e.lastId entity + 1
      return (id, e.setLastId entity id)
  else
    return (candidate, e.observe entity [candidate])

/-- Hand out `count` consecutive ids and answer the first. -/
def idsForPut (e : Engine) (txn : Option Handle) (entity : EntityId) (count : Nat) :
    Except Halt (ObjectId × Engine) := do
  if count = 0 ∨ maxIdsPerBlock < count then
    refuse (.blockSize count)
  else
    e.requireEntity entity
    e.requireWritable txn
    let last := (e.lastId entity).toNat
    if last + count ≤ maxId then
      return (.ofNat (last + 1), e.setLastId entity (.ofNat (last + count)))
    else refuse (.exhausted entity)

end ObjectStore.Engine
