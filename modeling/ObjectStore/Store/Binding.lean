import ObjectStore.Store.Transaction

/-! # Bindings and boxes

A binding knows the objects of one type: where their id is kept, what is written of them, how they
are read, and which other objects go with them. A box is a binding together with the entity type it
is registered for; all calls on objects go through a box.
-/

namespace ObjectStore

/-- What a store has to know about a type of objects. -/
structure Binding (T : Type) where
  name : String
  /-- The id an object carries. -/
  id : T → Except StoreError ObjectId
  /-- The object with another id. -/
  setId : T → ObjectId → Except StoreError T
  /-- What is written of an object. -/
  body : T → Except CodecError Cbor.Value
  /-- The object of a record. -/
  decode : Bytes → Except CodecError T
  /-- Store the objects that go with the one being stored under an id. -/
  putRelated : Txn → ObjectId → Editing T Unit := fun _ _ => pure ()
  /-- Load the objects that go with one that was read. -/
  loadRelated : Txn → T → StoreM T := fun _ object => pure object

/-- A binding with its entity type. -/
structure Box (T : Type) where
  descriptor : EntityDescriptor
  binding : Binding T

namespace Box

variable {T : Type}

def entity (b : Box T) : EntityId := b.descriptor.id

def name (b : Box T) : String := b.descriptor.name

def idOf (b : Box T) (object : T) : StoreM ObjectId :=
  liftExcept (b.binding.id object)
where
  /-- Fail with an error or go on. -/
  liftExcept {α : Type} : Except StoreError α → StoreM α
    | .ok a => return a
    | .error why => throw why

/-- The id the object at hand carries. -/
def currentId (b : Box T) : Editing T ObjectId := do
  b.idOf (← Editing.current)

/-- Give the object at hand an id. -/
def assignId (b : Box T) (id : ObjectId) : Editing T Unit := do
  match b.binding.setId (← Editing.current) id with
  | .ok object => Editing.replace object
  | .error why => throw why

def decode (b : Box T) (record : Bytes) : StoreM T :=
  match b.binding.decode record with
  | .ok object => return object
  | .error why => throw (.codec why)

def encode (b : Box T) (id : ObjectId) (object : T) : StoreM Bytes :=
  StoreM.encodeRecord id (b.binding.body object)

end Box

namespace Store

/-- The box for a binding's objects. -/
def boxFor {T : Type} (binding : Binding T) : StoreM (Box T) := do
  StoreM.ensureOpen
  match (← StoreM.store).model.bound? binding.name with
  | some descriptor => return { descriptor, binding }
  | none => throw (.notRegistered binding.name)

end Store

end ObjectStore
