/-! # Statuses

Every engine call ends in a status. A status has a number, by which it crosses the engine's
boundary, a name, and a short text for people. A number that names no status reads as the general
error, so reading a status back from its number gives the status again (`Status.ofCode_code`).
-/

namespace ObjectStore

/-- How an engine call ended. -/
inductive Status where
  | ok
  | error
  | illegalArgument
  | notFound
  | idAlreadyExists
  | idNotFound
  | constraintViolated
  | illegalState
  | notSupported
  | txnClosed
  | readOnlyTxn
  | unknownEntity
  | unknownRelation
  deriving DecidableEq, Repr

namespace Status

def code : Status → Nat
  | ok => 0
  | error => 1
  | illegalArgument => 2
  | notFound => 3
  | idAlreadyExists => 4
  | idNotFound => 5
  | constraintViolated => 6
  | illegalState => 7
  | notSupported => 8
  | txnClosed => 9
  | readOnlyTxn => 10
  | unknownEntity => 11
  | unknownRelation => 12

/-- The status of a number; a number of no status is the general error. -/
def ofCode : Int → Status
  | 0 => ok
  | 2 => illegalArgument
  | 3 => notFound
  | 4 => idAlreadyExists
  | 5 => idNotFound
  | 6 => constraintViolated
  | 7 => illegalState
  | 8 => notSupported
  | 9 => txnClosed
  | 10 => readOnlyTxn
  | 11 => unknownEntity
  | 12 => unknownRelation
  | _ => error

def name : Status → String
  | ok => "Ok"
  | error => "Error"
  | illegalArgument => "IllegalArgument"
  | notFound => "NotFound"
  | idAlreadyExists => "IdAlreadyExists"
  | idNotFound => "IdNotFound"
  | constraintViolated => "ConstraintViolated"
  | illegalState => "IllegalState"
  | notSupported => "NotSupported"
  | txnClosed => "TxnClosed"
  | readOnlyTxn => "ReadOnlyTxn"
  | unknownEntity => "UnknownEntity"
  | unknownRelation => "UnknownRelation"

/-- What a status says to people. -/
def text : Status → String
  | ok => "success"
  | error => "engine error"
  | illegalArgument => "illegal argument"
  | notFound => "not found"
  | idAlreadyExists => "id already exists"
  | idNotFound => "id not found"
  | constraintViolated => "constraint violated"
  | illegalState => "illegal state"
  | notSupported => "not supported"
  | txnClosed => "transaction closed"
  | readOnlyTxn => "read-only transaction"
  | unknownEntity => "unknown entity type"
  | unknownRelation => "unknown relation"

def isOk (status : Status) : Bool :=
  status == ok

/-- A status as a result: success, or the status as the error. -/
def toResult (status : Status) : Except Status Unit :=
  if status.isOk then .ok () else .error status

/-- The number of a status names it. -/
theorem ofCode_code (status : Status) : ofCode status.code = status := by
  cases status <;> rfl

end Status

end ObjectStore
