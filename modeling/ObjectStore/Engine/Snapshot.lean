import Std.Data.ExtTreeMap
import Std.Data.ExtTreeSet

/-! # Snapshots

A snapshot is everything a transaction can see: the records of each entity type by object id, and
the links of each relation, a set of targets for each source. Empty tables and empty sets are left
out, so a snapshot has one form, whatever order it was filled in.

The view of a snapshot is `record?` for records and `targets` for links.
-/

namespace ObjectStore

abbrev EntityId := UInt32

abbrev RelationId := UInt32

/-- Names an object among those of its entity type. Id 0 is the id of an object not yet stored. -/
abbrev ObjectId := UInt64

/-- A stored record, or any other run of bytes. -/
abbrev Bytes := List UInt8

/-- The records of one entity type. -/
abbrev Table := Std.ExtTreeMap ObjectId Bytes

abbrev IdSet := Std.ExtTreeSet ObjectId

/-- The links of one relation: for each source that has any, its targets. -/
abbrev LinkTable := Std.ExtTreeMap ObjectId IdSet

/-- The records and links visible at one moment. -/
structure Snapshot where
  /-- The records of each entity type that has any. -/
  records : Std.ExtTreeMap EntityId Table := ∅
  /-- The links of each relation that has any. -/
  links : Std.ExtTreeMap RelationId LinkTable := ∅

namespace Snapshot

def table (s : Snapshot) (entity : EntityId) : Table :=
  s.records.getD entity ∅

def record? (s : Snapshot) (entity : EntityId) (id : ObjectId) : Option Bytes :=
  (s.table entity)[id]?

def contains (s : Snapshot) (entity : EntityId) (id : ObjectId) : Bool :=
  (s.table entity).contains id

def size (s : Snapshot) (entity : EntityId) : Nat :=
  (s.table entity).size

/-- The ids stored under an entity type, ascending. -/
def ids (s : Snapshot) (entity : EntityId) : List ObjectId :=
  (s.table entity).keys

/-- The records of an entity type by ascending id. -/
def recordList (s : Snapshot) (entity : EntityId) : List Bytes :=
  (s.table entity).values

/-- The snapshot with another table for an entity type. An empty table is left out. -/
def setTable (s : Snapshot) (entity : EntityId) (table : Table) : Snapshot :=
  { s with records :=
      if table.isEmpty then s.records.erase entity else s.records.insert entity table }

/-- Store a record, over an earlier one of the same id. -/
def insert (s : Snapshot) (entity : EntityId) (id : ObjectId) (record : Bytes) : Snapshot :=
  s.setTable entity ((s.table entity).insert id record)

/-- Store several records; of two with one id the later stays. -/
def insertMany (s : Snapshot) (entity : EntityId) (entries : List (ObjectId × Bytes)) : Snapshot :=
  s.setTable entity <|
    entries.foldl (fun table entry => table.insert entry.1 entry.2) (s.table entity)

def eraseMany (s : Snapshot) (entity : EntityId) (ids : List ObjectId) : Snapshot :=
  s.setTable entity (ids.foldl (fun table id => table.erase id) (s.table entity))

def linkTable (s : Snapshot) (relation : RelationId) : LinkTable :=
  s.links.getD relation ∅

/-- What a source is linked to. -/
def targets (s : Snapshot) (relation : RelationId) (source : ObjectId) : IdSet :=
  (s.linkTable relation).getD source ∅

/-- The snapshot with other links for a relation. An empty table is left out. -/
def setLinks (s : Snapshot) (relation : RelationId) (links : LinkTable) : Snapshot :=
  { s with links :=
      if links.isEmpty then s.links.erase relation else s.links.insert relation links }

def link (s : Snapshot) (relation : RelationId) (source target : ObjectId) : Snapshot :=
  s.setLinks relation <|
    (s.linkTable relation).insert source ((s.targets relation source).insert target)

/-- Drop a link. A source left without targets leaves the table; a link that is not there changes
nothing. -/
def unlink (s : Snapshot) (relation : RelationId) (source target : ObjectId) : Snapshot :=
  if (s.targets relation source).contains target then
    let left := (s.targets relation source).erase target
    s.setLinks relation <|
      if left.isEmpty then (s.linkTable relation).erase source
      else (s.linkTable relation).insert source left
  else s

/-- Drop every link of a relation that starts at `id`. -/
def unlinkSource (s : Snapshot) (relation : RelationId) (id : ObjectId) : Snapshot :=
  if (s.linkTable relation).contains id then
    s.setLinks relation ((s.linkTable relation).erase id)
  else s

/-- Drop every link of a relation that ends at `id`. -/
def unlinkTarget (s : Snapshot) (relation : RelationId) (id : ObjectId) : Snapshot :=
  let sources := (s.linkTable relation).toList.filter (fun entry => entry.2.contains id)
  sources.foldl (fun s entry => s.unlink relation entry.1 id) s

/-- Drop every link in which an object takes part, as the source of the relations `outgoing` or as
a target of the relations `incoming`. -/
def unlinkObject (s : Snapshot) (outgoing incoming : List RelationId) (id : ObjectId) : Snapshot :=
  let s := outgoing.foldl (fun s relation => s.unlinkSource relation id) s
  incoming.foldl (fun s relation => s.unlinkTarget relation id) s

end Snapshot

end ObjectStore
