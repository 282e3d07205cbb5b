import ObjectStore.Store.Session

/-! # Transactions of a store

A transaction ends by a commit or an abort, or by being dropped, which aborts it and tells nobody
if that fails. A program run in a transaction commits it if it succeeds; if it fails, the
transaction is dropped and the program's error is the answer.
-/

namespace ObjectStore

/-- A transaction of a store. -/
structure Txn where
  handle : Handle
  mode : TxnMode
  deriving DecidableEq, Repr

namespace Txn

def isWrite (t : Txn) : Bool :=
  t.mode = .write

def begin (mode : TxnMode) : HostM Txn := do
  let handle ← HostM.request "begin" (.begin mode)
  return { handle, mode }

/-- End a transaction and keep its writes. -/
def commit (t : Txn) : HostM Unit :=
  HostM.request "commit" (.commit t.handle)

/-- End a transaction and forget its writes. -/
def abort (t : Txn) : HostM Unit :=
  HostM.request "abort" (.abort t.handle)

/-- Abort a transaction without looking at whether that succeeds. -/
def drop (t : Txn) : HostM Unit := do
  let _ ← HostM.perform (.abort t.handle)

end Txn

namespace Store

def beginTxn (mode : TxnMode) : StoreM Txn := do
  StoreM.ensureOpen
  Txn.begin mode

/-- Run a program in a transaction of its own. -/
def runIn {σ α : Type} (mode : TxnMode) (program : Txn → Editing σ α) : Editing σ α := do
  let txn ← beginTxn mode
  match ← Editing.outcome (program txn) with
  | .ok a =>
    txn.commit
    return a
  | .error why =>
    txn.drop
    throw why

/-- Run a program that changes no objects in a transaction of its own. -/
def runInTxn {α : Type} (mode : TxnMode) (program : Txn → StoreM α) : StoreM α :=
  ExceptT.mk do
    let (result, _) ← (runIn (σ := Unit) mode fun txn => (program txn : Editing Unit α)).run ()
    return result

end Store

end ObjectStore
