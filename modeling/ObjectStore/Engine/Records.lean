import ObjectStore.Engine.Basic

/-! # Calls on records

Storing, reading, visiting, removing and counting records. Each call on arrays has a counterpart
that goes record by record, for engines without arrays: `putMany` beside `put`, `getMany` and
`getAll` beside `visitMany` and `visitAll`.
-/

namespace ObjectStore

namespace Snapshot

/-- Only go on if `mode` lets an object be stored under `id`, given whether there is one. -/
def checkPut (mode : PutMode) (entity : EntityId) (id : ObjectId) (stored : Bool) :
    Except Refusal Unit :=
  if id = 0 then .error (.reservedId entity)
  else match mode, stored with
    | .insert, true | .putNew, true => .error (.alreadyStored entity id)
    | .update, false => .error (.notStored entity id)
    | _, _ => .ok ()

/-- Check ids one after another, counting each as stored for those after it. -/
def checkPutMany (s : Snapshot) (mode : PutMode) (entity : EntityId) :
    IdSet → List ObjectId → Except Refusal Unit
  | _, [] => .ok ()
  | seen, id :: ids => do
    checkPut mode entity id (s.contains entity id || seen.contains id)
    s.checkPutMany mode entity (seen.insert id) ids

/-- Drop the records of the ids that are stored, with every link they take part in, and answer how
many there were. -/
def removeMany (s : Snapshot) (entity : EntityId) (outgoing incoming : List RelationId)
    (ids : List ObjectId) : Nat × Snapshot :=
  let stored := (Std.ExtTreeSet.ofList (ids.filter (s.contains entity)) : IdSet).toList
  (stored.length,
    stored.foldl (fun s id => s.unlinkObject outgoing incoming id) (s.eraseMany entity stored))

end Snapshot

/-- Decides, from the records handed out so far, the newest first, whether it wants another. A
missing record is handed out as `none`. -/
abbrev Visitor := List (Option Bytes) → Bool

namespace Visitor

/-- Hand out records until the visitor wants no more, and answer those handed out, the newest
first. -/
def visit (visitor : Visitor) : List (Option Bytes) → List (Option Bytes) → List (Option Bytes)
  | seen, [] => seen
  | seen, record :: records =>
    if visitor (record :: seen) then visitor.visit (record :: seen) records else record :: seen

end Visitor

namespace Engine

/-- The relations that start at an entity type. -/
def outgoing (e : Engine) (entity : EntityId) : List RelationId :=
  (e.relations.toList.filter (fun relation => relation.2.source = entity)).map Prod.fst

/-- The relations that end at an entity type. -/
def incoming (e : Engine) (entity : EntityId) : List RelationId :=
  (e.relations.toList.filter (fun relation => relation.2.target = entity)).map Prod.fst

def put (e : Engine) (thread : ThreadId) (txn : Option Handle) (entity : EntityId) (id : ObjectId)
    (record : Bytes) (mode : PutMode) : Except Halt Engine := do
  e.requireEntity entity
  let (_, e) ← e.write thread txn fun s => do
    Snapshot.checkPut mode entity id (s.contains entity id)
    return ((), s.insert entity id record)
  return e.observe entity [id]

/-- Store all records or none. -/
def putMany (e : Engine) (thread : ThreadId) (txn : Option Handle) (entity : EntityId)
    (ids : List ObjectId) (records : List Bytes) (mode : PutMode) : Except Halt Engine := do
  e.requireArrays "put_many"
  e.requireEntity entity
  if ids.length = records.length then
    let (_, e) ← e.write thread txn fun s => do
      s.checkPutMany mode entity ∅ ids
      return ((), s.insertMany entity (ids.zip records))
    return e.observe entity ids
  else refuse (.unevenLists ids.length records.length)

def get (e : Engine) (txn : Option Handle) (entity : EntityId) (id : ObjectId) :
    Except Halt Bytes := do
  e.requireEntity entity
  let s ← e.view txn
  match s.record? entity id with
  | some record => return record
  | none => refuse .missing

/-- The records of several objects, one place for each id. -/
def getMany (e : Engine) (txn : Option Handle) (entity : EntityId) (ids : List ObjectId) :
    Except Halt (List (Option Bytes)) := do
  e.requireArrays "get_many"
  e.requireEntity entity
  let s ← e.view txn
  return ids.map (s.record? entity)

/-- All records of an entity type by ascending id. -/
def getAll (e : Engine) (txn : Option Handle) (entity : EntityId) : Except Halt (List Bytes) := do
  e.requireArrays "get_all"
  e.requireEntity entity
  let s ← e.view txn
  return s.recordList entity

/-- Hand the records of several objects to a visitor, and answer those it was handed. -/
def visitMany (e : Engine) (txn : Option Handle) (entity : EntityId) (ids : List ObjectId)
    (visitor : Visitor) : Except Halt (List (Option Bytes)) := do
  e.requireEntity entity
  let s ← e.view txn
  return (visitor.visit [] (ids.map (s.record? entity))).reverse

/-- Hand all records of an entity type, by ascending id, to a visitor, and answer those it was
handed. -/
def visitAll (e : Engine) (txn : Option Handle) (entity : EntityId) (visitor : Visitor) :
    Except Halt (List (Option Bytes)) := do
  e.requireEntity entity
  let s ← e.view txn
  return (visitor.visit [] ((s.recordList entity).map some)).reverse

/-- Remove a stored object with its links. -/
def remove (e : Engine) (thread : ThreadId) (txn : Option Handle) (entity : EntityId)
    (id : ObjectId) : Except Halt Engine := do
  e.requireEntity entity
  let (_, e) ← e.write thread txn fun s =>
    if s.contains entity id then
      .ok ((), (s.eraseMany entity [id]).unlinkObject (e.outgoing entity) (e.incoming entity) id)
    else .error .missing
  return e

/-- Remove the stored ones of several objects with their links, and answer how many there were. -/
def removeMany (e : Engine) (thread : ThreadId) (txn : Option Handle) (entity : EntityId)
    (ids : List ObjectId) : Except Halt (Nat × Engine) := do
  e.requireEntity entity
  e.write thread txn fun s =>
    .ok (s.removeMany entity (e.outgoing entity) (e.incoming entity) ids)

/-- Remove all objects of an entity type with their links, and answer how many there were. -/
def removeAll (e : Engine) (thread : ThreadId) (txn : Option Handle) (entity : EntityId) :
    Except Halt (Nat × Engine) := do
  e.requireEntity entity
  e.write thread txn fun s =>
    let ids := s.ids entity
    .ok (ids.length, ids.foldl
      (fun s id => s.unlinkObject (e.outgoing entity) (e.incoming entity) id)
      (s.setTable entity ∅))

/-- How many objects are stored, at most `limit` unless that is 0. -/
def count (e : Engine) (txn : Option Handle) (entity : EntityId) (limit : Nat) :
    Except Halt Nat := do
  e.requireEntity entity
  let s ← e.view txn
  return if 0 < limit then min (s.size entity) limit else s.size entity

def isEmpty (e : Engine) (txn : Option Handle) (entity : EntityId) : Except Halt Bool := do
  e.requireEntity entity
  let s ← e.view txn
  return s.size entity == 0

def contains (e : Engine) (txn : Option Handle) (entity : EntityId) (id : ObjectId) :
    Except Halt Bool := do
  e.requireEntity entity
  let s ← e.view txn
  return s.contains entity id

def containsMany (e : Engine) (txn : Option Handle) (entity : EntityId) (ids : List ObjectId) :
    Except Halt Bool := do
  e.requireEntity entity
  let s ← e.view txn
  return ids.all (s.contains entity)

end Engine

end ObjectStore
