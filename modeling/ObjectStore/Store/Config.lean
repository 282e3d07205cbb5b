import ObjectStore.Store.Error

/-! # Settings of a store -/

namespace ObjectStore

/-- How many records are read at once. -/
inductive ReadStrategy where
  /-- The engine answers with an array of records. -/
  | resultArray
  /-- The engine hands its records to a visitor. -/
  | visitor
  deriving DecidableEq, Repr

namespace ReadStrategy

/-- Arrays, if the engine has them. -/
def detect (arrays : Bool) : ReadStrategy :=
  if arrays then resultArray else visitor

end ReadStrategy

/-- The settings a store is opened with. -/
structure Config where
  /-- How many objects of a bulk put are written at once. -/
  chunkSize : Nat := 10000
  /-- An encoder with so large a buffer is not kept. -/
  encoderRetainLimit : Nat := 1024 * 1024
  /-- How many encoders are kept. -/
  maxPooledEncoders : Nat := 64
  /-- How many writes the queue holds before submitting one waits. -/
  queueCapacity : Nat := 1024
  /-- How many records are read at once, if the engine is not to decide it. -/
  readStrategy : Option ReadStrategy := none
  deriving DecidableEq, Repr

namespace Config

/-- Only go on if the settings make sense. -/
def check (c : Config) : Except Misuse Unit :=
  if c.chunkSize = 0 then .error .chunkSizeZero
  else if maxIdsPerBlock < c.chunkSize then .error .chunkSizeTooLarge
  else if c.queueCapacity = 0 then .error .queueCapacityZero
  else .ok ()

/-- The read strategy for an engine with arrays or without. -/
def strategyFor (c : Config) (arrays : Bool) : Except Misuse ReadStrategy :=
  match c.readStrategy with
  | some .resultArray => if arrays then .ok .resultArray else .error .arraysUnsupported
  | some strategy => .ok strategy
  | none => .ok (.detect arrays)

end Config

end ObjectStore
