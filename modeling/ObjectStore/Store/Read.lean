import ObjectStore.Store.Binding

/-! # Reading objects

An object is read from its record, and then the objects that go with it are loaded. Several are
read in one transaction, by an array of records or by a visitor; the answer is the same. A record
that cannot be read ends a visit, and is the cause of whatever the engine says about it.
-/

namespace ObjectStore

/-- Which objects to read. -/
inductive Selection where
  | ids (ids : List ObjectId)
  | all
  deriving DecidableEq, Repr

namespace Box

variable {T : Type}

/-- Load what goes with an object, if anything can. -/
def loadRelated (b : Box T) (txn : Txn) (object : T) : StoreM T :=
  if b.descriptor.hasRelations then b.binding.loadRelated txn object else return object

/-- The object of an id, if it is stored. -/
def getIn (b : Box T) (txn : Txn) (id : ObjectId) : StoreM (Option T) := do
  StoreM.ensureOpen
  match ← HostM.perform (.get (some txn.handle) b.entity id) with
  | .done record => return some (← b.loadRelated txn (← b.decode record))
  | .failed .notFound _ => return none
  | .failed status _ => throw (← HostM.failure "get" status)

/-- The objects of records in order, up to one that cannot be read. A missing record leaves an empty
place or, if only existing objects are asked for, none. -/
def decodeAll (b : Box T) (existingOnly : Bool) :
    List (Option Bytes) → Except CodecError (List (Option T))
  | [] => .ok []
  | none :: records => do
    let objects ← b.decodeAll existingOnly records
    return if existingOnly then objects else none :: objects
  | some record :: records => do
    let object ← b.binding.decode record
    return some object :: (← b.decodeAll existingOnly records)

/-- The objects of records, as an answer. -/
def decoded (b : Box T) (existingOnly : Bool) (records : List (Option Bytes)) :
    StoreM (List (Option T)) :=
  match b.decodeAll existingOnly records with
  | .ok objects => return objects
  | .error why => throw (.codec why)

/-- Read objects by an array of records. -/
def readArray (b : Box T) (txn : Txn) (selection : Selection) (existingOnly : Bool) :
    StoreM (List (Option T)) := do
  let handle := some txn.handle
  match selection with
  | .ids ids =>
    b.decoded existingOnly (← HostM.request "get_many" (.getMany handle b.entity ids))
  | .all =>
    let records ← HostM.request "get_all" (.getAll handle b.entity)
    b.decoded existingOnly (records.map some)

/-- A visitor that goes on as long as it can read the records. -/
def visitor (b : Box T) : Visitor
  | some record :: _ => (b.binding.decode record).isOk
  | _ => true

/-- Read objects by a visitor. -/
def readVisit (b : Box T) (txn : Txn) (selection : Selection) (existingOnly : Bool) :
    StoreM (List (Option T)) := do
  let handle := some txn.handle
  match selection with
  | .ids ids =>
    finish "visit_many" (← HostM.perform (.visitMany handle b.entity ids b.visitor))
  | .all => finish "visit_all" (← HostM.perform (.visitAll handle b.entity b.visitor))
where
  /-- The objects of the visited records, or the error of the visit. -/
  finish (operation : String) : Reply (List (Option Bytes)) → StoreM (List (Option T))
    | .done records => b.decoded existingOnly records
    | .failed status records => do
      let _ ← b.decoded existingOnly (records.getD [])
      throw (← HostM.failure operation status)

/-- Read several objects, with what goes with each. -/
def readMany (b : Box T) (txn : Txn) (selection : Selection) (existingOnly : Bool) :
    StoreM (List (Option T)) := do
  StoreM.ensureOpen
  if selection = .ids [] then return []
  let objects ← match (← StoreM.store).strategy with
    | .resultArray => b.readArray txn selection existingOnly
    | .visitor => b.readVisit txn selection existingOnly
  if b.descriptor.hasRelations then
    objects.mapM fun
      | some object => do return some (← b.loadRelated txn object)
      | none => return none
  else return objects

/-- The objects of ids, one place for each. -/
def getManyIn (b : Box T) (txn : Txn) (ids : List ObjectId) : StoreM (List (Option T)) :=
  b.readMany txn (.ids ids) false

/-- The objects of the ids that are stored. -/
def getManyExistingIn (b : Box T) (txn : Txn) (ids : List ObjectId) : StoreM (List T) := do
  return (← b.readMany txn (.ids ids) true).reduceOption

/-- All objects of the entity type by ascending id. -/
def getAllIn (b : Box T) (txn : Txn) : StoreM (List T) := do
  return (← b.readMany txn .all true).reduceOption

/-- Read in the transaction that is given, or in one of its own. -/
def reading {α : Type} (txn : Option Txn) (program : Txn → StoreM α) : StoreM α :=
  match txn with
  | some txn => program txn
  | none => Store.runInTxn .read program

def get (b : Box T) (txn : Option Txn) (id : ObjectId) : StoreM (Option T) :=
  reading txn (b.getIn · id)

def getMany (b : Box T) (txn : Option Txn) (ids : List ObjectId) : StoreM (List (Option T)) :=
  reading txn (b.getManyIn · ids)

def getManyExisting (b : Box T) (txn : Option Txn) (ids : List ObjectId) : StoreM (List T) :=
  reading txn (b.getManyExistingIn · ids)

def getAll (b : Box T) (txn : Option Txn) : StoreM (List T) :=
  reading txn b.getAllIn

end Box

end ObjectStore
