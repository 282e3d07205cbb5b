import ObjectStore.Store.Deferred

/-! # Opening and closing a store

Opening a store checks its settings, defines the model's entity types and relations to the engine
and decides how records are read. Closing it lets the worker finish and takes no calls from then
on; the engine keeps what was stored.
-/

namespace ObjectStore

namespace Store

/-- Open a store over a host. -/
def openOn (model : Model) (config : Config) : HostM Store := do
  check config.check
  model.entities.forM fun entity =>
    HostM.request "define_entity" (.defineEntity entity.id entity.name)
  model.relations.forM fun relation =>
    HostM.request "define_relation" (.defineRelation relation.id relation.source relation.target)
  let arrays := (← get).machine.engine.arrays
  let strategy ← check (config.strategyFor arrays)
  let pool : EncoderPool :=
    { retainLimit := config.encoderRetainLimit, maxIdle := config.maxPooledEncoders }
  return { config, model, strategy, arrays, pool }
where
  /-- Fail for a misuse or go on. -/
  check {α : Type} : Except Misuse α → HostM α
    | .ok a => return a
    | .error why => throw (.misuse why)

end Store

namespace Session

/-- Open a store over a host; the host is left as the attempt leaves it. -/
def openOn (host : Host) (model : Model) (config : Config) : Except StoreError Session × Host :=
  let (result, host) := (Store.openOn model config).run host
  (result.map fun store => { host, store }, host)

/-- Close the store; closing it again does nothing. -/
def close (s : Session) : Session :=
  if s.store.closed then s
  else
    let s := { s with store := { s.store with closed := true } }.awaitCompletion
    { s with store := { s.store with queue := { s.store.queue with shut := true } } }

end Session

end ObjectStore
