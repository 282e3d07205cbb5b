import ObjectStore.Engine.Transactions
import ObjectStore.Engine.Records
import ObjectStore.Engine.Links

/-! # Calls as data

A call on the engine as a value, with the type of its answer. A run of calls by any threads is then
a list, and a law about every call is a law about `Engine.perform`.
-/

namespace ObjectStore

inductive Call where
  | defineEntity (entity : EntityId) (name : String)
  | defineRelation (relation : RelationId) (source target : EntityId)
  | begin (mode : TxnMode)
  | commit (txn : Handle)
  | abort (txn : Handle)
  | idForPut (txn : Option Handle) (entity : EntityId) (candidate : ObjectId)
  | idsForPut (txn : Option Handle) (entity : EntityId) (count : Nat)
  | put (txn : Option Handle) (entity : EntityId) (id : ObjectId) (record : Bytes) (mode : PutMode)
  | putMany (txn : Option Handle) (entity : EntityId) (ids : List ObjectId) (records : List Bytes)
      (mode : PutMode)
  | get (txn : Option Handle) (entity : EntityId) (id : ObjectId)
  | getMany (txn : Option Handle) (entity : EntityId) (ids : List ObjectId)
  | getAll (txn : Option Handle) (entity : EntityId)
  | visitMany (txn : Option Handle) (entity : EntityId) (ids : List ObjectId) (visitor : Visitor)
  | visitAll (txn : Option Handle) (entity : EntityId) (visitor : Visitor)
  | remove (txn : Option Handle) (entity : EntityId) (id : ObjectId)
  | removeMany (txn : Option Handle) (entity : EntityId) (ids : List ObjectId)
  | removeAll (txn : Option Handle) (entity : EntityId)
  | count (txn : Option Handle) (entity : EntityId) (limit : Nat)
  | isEmpty (txn : Option Handle) (entity : EntityId)
  | contains (txn : Option Handle) (entity : EntityId) (id : ObjectId)
  | containsMany (txn : Option Handle) (entity : EntityId) (ids : List ObjectId)
  | relPut (txn : Option Handle) (relation : RelationId) (source target : ObjectId)
  | relRemove (txn : Option Handle) (relation : RelationId) (source target : ObjectId)
  | relGetIds (txn : Option Handle) (relation : RelationId) (source : ObjectId)

namespace Call

@[reducible] def Answer : Call → Type
  | begin .. => Handle
  | idForPut .. | idsForPut .. => ObjectId
  | get .. => Bytes
  | getMany .. => List (Option Bytes)
  | getAll .. => List Bytes
  | visitMany .. | visitAll .. => List (Option Bytes)
  | removeMany .. | removeAll .. | count .. => Nat
  | isEmpty .. | contains .. | containsMany .. => Bool
  | relGetIds .. => List ObjectId
  | defineEntity .. | defineRelation .. | commit .. | abort .. | put .. | putMany .. | remove ..
  | relPut .. | relRemove .. => Unit

/-- What a call is known by. -/
def name : Call → String
  | defineEntity .. => "define_entity"
  | defineRelation .. => "define_relation"
  | begin .. => "begin"
  | commit .. => "commit"
  | abort .. => "abort"
  | idForPut .. => "id_for_put"
  | idsForPut .. => "ids_for_put"
  | put .. => "put"
  | putMany .. => "put_many"
  | get .. => "get"
  | getMany .. => "get_many"
  | getAll .. => "get_all"
  | visitMany .. => "visit_many"
  | visitAll .. => "visit_all"
  | remove .. => "remove"
  | removeMany .. => "remove_many"
  | removeAll .. => "remove_all"
  | count .. => "count"
  | isEmpty .. => "is_empty"
  | contains .. => "contains"
  | containsMany .. => "contains_many"
  | relPut .. => "rel_put"
  | relRemove .. => "rel_remove"
  | relGetIds .. => "rel_get_ids"

end Call

namespace Engine

/-- A call that only reads leaves the engine as it is. -/
def reading {α : Type} (e : Engine) (answer : Except Halt α) : Except Halt (α × Engine) :=
  answer.map (·, e)

/-- A call without an answer only leaves an engine. -/
def changing (after : Except Halt Engine) : Except Halt (Unit × Engine) :=
  after.map ((), ·)

/-- Perform a call for a thread: its answer and the engine afterwards. -/
def perform (e : Engine) (thread : ThreadId) : (call : Call) → Except Halt (call.Answer × Engine)
  | .defineEntity entity name => .ok ((), e.defineEntity entity name)
  | .defineRelation relation source target => changing (e.defineRelation relation source target)
  | .begin mode => e.begin thread mode
  | .commit txn => changing (e.commit txn)
  | .abort txn => changing (e.abort txn)
  | .idForPut txn entity candidate => e.idForPut txn entity candidate
  | .idsForPut txn entity count => e.idsForPut txn entity count
  | .put txn entity id record mode => changing (e.put thread txn entity id record mode)
  | .putMany txn entity ids records mode => changing (e.putMany thread txn entity ids records mode)
  | .get txn entity id => e.reading (e.get txn entity id)
  | .getMany txn entity ids => e.reading (e.getMany txn entity ids)
  | .getAll txn entity => e.reading (e.getAll txn entity)
  | .visitMany txn entity ids visitor => e.reading (e.visitMany txn entity ids visitor)
  | .visitAll txn entity visitor => e.reading (e.visitAll txn entity visitor)
  | .remove txn entity id => changing (e.remove thread txn entity id)
  | .removeMany txn entity ids => e.removeMany thread txn entity ids
  | .removeAll txn entity => e.removeAll thread txn entity
  | .count txn entity limit => e.reading (e.count txn entity limit)
  | .isEmpty txn entity => e.reading (e.isEmpty txn entity)
  | .contains txn entity id => e.reading (e.contains txn entity id)
  | .containsMany txn entity ids => e.reading (e.containsMany txn entity ids)
  | .relPut txn relation source target => changing (e.relPut thread txn relation source target)
  | .relRemove txn relation source target =>
    changing (e.relRemove thread txn relation source target)
  | .relGetIds txn relation source => e.reading (e.relGetIds txn relation source)

end Engine

end ObjectStore
