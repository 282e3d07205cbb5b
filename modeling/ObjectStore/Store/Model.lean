import ObjectStore.Store.Error

/-! # Models

A model lists the entity types a store holds and the relations between them. Each entity type is
registered with its binding, the code that knows its objects; a relation is registered with the
binding of its targets. A model is built in the order of registration, and only if no id and no
binding is used twice and every relation leads between registered types to the one its binding is
registered for.
-/

namespace ObjectStore

structure EntityDescriptor where
  id : EntityId
  name : String
  /-- Whether its objects have related objects. -/
  hasRelations : Bool
  binding : String
  deriving DecidableEq, Repr

/-- A relation from objects of one entity type to any number of objects of another. -/
structure Relation where
  id : RelationId
  source : EntityId
  target : EntityId
  deriving DecidableEq, Repr

/-- The entity types and relations of a store. -/
structure Model where
  entities : List EntityDescriptor := []
  relations : List Relation := []
  deriving DecidableEq, Repr

namespace Model

def entity? (m : Model) (id : EntityId) : Option EntityDescriptor :=
  m.entities.find? (·.id = id)

def bound? (m : Model) (binding : String) : Option EntityDescriptor :=
  m.entities.find? (·.binding = binding)

def relation? (m : Model) (id : RelationId) : Option Relation :=
  m.relations.find? (·.id = id)

def addEntity (m : Model) (entity : EntityDescriptor) : Except Misuse Model :=
  if entity.id = 0 then .error (.reservedEntityId entity.name)
  else if (m.entity? entity.id).isSome then .error (.entityIdTwice entity.id)
  else if (m.bound? entity.binding).isSome then .error (.bindingTwice entity.name)
  else .ok { m with entities := m.entities ++ [entity] }

/-- Register a relation whose targets are objects of a binding. -/
def addRelation (m : Model) (relation : Relation) (binding : String) : Except Misuse Model :=
  if (m.entity? relation.source).isNone then
    .error (.unknownEndpoint relation.id relation.source)
  else if (m.entity? relation.target).isNone then
    .error (.unknownEndpoint relation.id relation.target)
  else if (m.bound? binding).map EntityDescriptor.id ≠ some relation.target then
    .error (.mistypedRelation relation.id relation.target binding)
  else if (m.relation? relation.id).isSome then .error (.relationIdTwice relation.id)
  else .ok { m with relations := m.relations ++ [relation] }

/-- Build a model from what is registered, entity types first. -/
def build (entities : List EntityDescriptor) (relations : List (Relation × String)) :
    Except Misuse Model := do
  let m ← entities.foldlM addEntity {}
  relations.foldlM (fun m relation => m.addRelation relation.1 relation.2) m

end Model

end ObjectStore
