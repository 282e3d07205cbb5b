import ObjectStore.Store.Put
import ObjectStore.Store.Read

/-! # Links of an object

Replacing the links of a source writes only what differs: targets not linked yet are linked, and
those linked but no longer wanted are unlinked afterwards, in ascending order. Targets that are not
stored yet are stored on the way and carry their new ids from then on.

Links are read under the id the source object carries, its stored id, and written under the id it
is stored under. The two differ only for an object that is just being stored: it has no links yet.
-/

namespace ObjectStore

namespace Store

variable {T : Type}

/-- Store the target at hand if it is not stored, link it unless it is linked, and answer the ids
that are still linked without being wanted. -/
def linkTarget (b : Box T) (txn : Txn) (relation : Relation) (source : ObjectId) (linked : IdSet) :
    Editing T IdSet := do
  let current ← b.currentId
  let target ← if current = 0 then b.put (some txn) else pure current
  if linked.contains target then return linked.erase target
  HostM.request "rel_put" (.relPut (some txn.handle) relation.id source target)
  return linked

/-- Link all targets, and answer the ids that are linked without being wanted. -/
def linkTargets (b : Box T) (txn : Txn) (relation : Relation) (source : ObjectId)
    (linked : IdSet) : Editing (List T) IdSet :=
  ExceptT.mk (go linked)
where
  /-- From the first target on. -/
  go (linked : IdSet) : List T → StateM Session (Except StoreError IdSet × List T)
    | [] => return (.ok linked, [])
    | object :: objects => do
      match ← (linkTarget b txn relation source linked).run object with
      | (.ok linked, object) =>
        let (result, objects) ← go linked objects
        return (result, object :: objects)
      | (.error why, object) => return (.error why, object :: objects)

/-- Make the targets at hand the ones a source is linked to. Without a list of targets nothing is
done for a new source, and a stored one cannot be handled. -/
def replaceLinks (binding : Binding T) (txn : Txn) (relation : Relation)
    (source stored : ObjectId) : Editing (Option (List T)) Unit := do
  match ← Editing.current with
  | none => if stored ≠ 0 then StoreM.misuse (.targetsNotLoaded relation.id stored)
  | some _ =>
    let linked ←
      if stored = 0 then pure []
      else HostM.request "rel_get_ids" (.relGetIds (some txn.handle) relation.id stored)
    let b ← boxFor binding
    let unwanted ← Editing.focus (fun targets => targets.getD []) (fun _ targets => some targets)
      (linkTargets b txn relation source (.ofList linked))
    unwanted.toList.forM fun target =>
      HostM.request "rel_remove" (.relRemove (some txn.handle) relation.id source target)

/-- The objects a source is linked to, by ascending id. -/
def relatedObjects (binding : Binding T) (txn : Txn) (relation : Relation) (source : ObjectId) :
    StoreM (List T) := do
  if source = 0 then StoreM.misuse (.loadUnsaved relation.id)
  let ids ← HostM.request "rel_get_ids" (.relGetIds (some txn.handle) relation.id source)
  (← boxFor binding).getManyExistingIn txn ids

end Store

namespace Box

variable {T P : Type}

/-- Only go on if the relation starts at the box's entity type. -/
def checkSource (b : Box T) (relation : Relation) : StoreM Unit := do
  if relation.source ≠ b.entity then
    StoreM.misuse (.foreignSource relation.id relation.source b.name)

/-- The ids a source is linked to, ascending. -/
def relationIds (b : Box T) (txn : Option Txn) (relation : Relation) (source : ObjectId) :
    StoreM (List ObjectId) := do
  StoreM.ensureOpen
  b.checkSource relation
  HostM.request "rel_get_ids" (.relGetIds (txn.map Txn.handle) relation.id source)

def relationPut (b : Box T) (relation : Relation) (source target : ObjectId) : StoreM Unit := do
  StoreM.ensureOpen
  b.checkSource relation
  HostM.request "rel_put" (.relPut none relation.id source target)

def relationRemove (b : Box T) (relation : Relation) (source target : ObjectId) : StoreM Unit := do
  StoreM.ensureOpen
  b.checkSource relation
  HostM.request "rel_remove" (.relRemove none relation.id source target)

/-- Make the targets at hand the ones a source is linked to, in a transaction if one is given, else
in one of its own. -/
def relationReplace (b : Box T) (binding : Binding P) (txn : Option Txn) (relation : Relation)
    (source : ObjectId) (object : T) : Editing (Option (List P)) Unit := do
  StoreM.ensureOpen
  b.checkSource relation
  let stored ← b.idOf object
  match txn, ← Editing.current with
  | some txn, _ => Store.replaceLinks binding txn relation source stored
  | none, some _ =>
    Store.runIn .write fun txn => Store.replaceLinks binding txn relation source stored
  | none, none => if stored ≠ 0 then StoreM.misuse (.targetsNotLoaded relation.id stored)

end Box

end ObjectStore
