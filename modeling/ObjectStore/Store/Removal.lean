import ObjectStore.Store.Binding

/-! # Removing and counting objects

Removing an object drops its record and every link it takes part in. Removing one object that is
not stored is an error; among several, those not stored are passed over.
-/

namespace ObjectStore.Box

variable {T : Type}

/-- What removing an object that is not stored says. -/
def missingMessage (b : Box T) (id : ObjectId) : String :=
  s!"object {id} of {b.name} does not exist"

def removeId (b : Box T) (txn : Option Txn) (id : ObjectId) : StoreM Unit := do
  StoreM.ensureOpen
  match ← HostM.perform (.remove (txn.map Txn.handle) b.entity id) with
  | .done _ => return
  | .failed .notFound _ => throw (.engine "remove" .notFound (b.missingMessage id))
  | .failed status _ => throw (← HostM.failure "remove" status)

/-- Remove an object by the id it carries. -/
def remove (b : Box T) (object : T) : StoreM Unit := do
  b.removeId none (← b.idOf object)

/-- Remove the stored ones of several objects, and answer how many there were. -/
def removeIds (b : Box T) (txn : Option Txn) (ids : List ObjectId) : StoreM Nat := do
  StoreM.ensureOpen
  if ids.isEmpty then return 0
  HostM.request "remove_many" (.removeMany (txn.map Txn.handle) b.entity ids)

/-- Remove the stored ones of several objects by the ids they carry. -/
def removeMany (b : Box T) (objects : List T) : StoreM Nat := do
  b.removeIds none (← objects.mapM b.idOf)

def removeAll (b : Box T) : StoreM Nat := do
  StoreM.ensureOpen
  HostM.request "remove_all" (.removeAll none b.entity)

/-- How many objects are stored, at most `limit` unless that is 0. -/
def countMax (b : Box T) (txn : Option Txn) (limit : Nat) : StoreM Nat := do
  StoreM.ensureOpen
  HostM.request "count" (.count (txn.map Txn.handle) b.entity limit)

def count (b : Box T) (txn : Option Txn) : StoreM Nat :=
  b.countMax txn 0

def isEmpty (b : Box T) : StoreM Bool := do
  StoreM.ensureOpen
  HostM.request "is_empty" (.isEmpty none b.entity)

def contains (b : Box T) (id : ObjectId) : StoreM Bool := do
  StoreM.ensureOpen
  HostM.request "contains" (.contains none b.entity id)

def containsIds (b : Box T) (ids : List ObjectId) : StoreM Bool := do
  StoreM.ensureOpen
  HostM.request "contains_many" (.containsMany none b.entity ids)

end ObjectStore.Box
