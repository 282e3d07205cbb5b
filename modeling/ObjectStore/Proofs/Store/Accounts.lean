import ObjectStore.Proofs.Store.Plans

/-! # What storing comes to

The plans of all programs that store objects and links in a transaction. They follow the programs
step by step; what a binding does for related objects is planned by its account.
-/

namespace ObjectStore

/-- A plan of what a binding stores of the objects that go with one. -/
structure Binding.Account {T : Type} (binding : Binding T) where
  related : Setting → ObjectId → Plan T Unit
  computes (u : Setting) (id : ObjectId) :
    Editing.Computes u (binding.putRelated u.txn id) (related u id)

/-- Only go on if the store is open. -/
def Setting.opened (u : Setting) : Except StoreError Unit :=
  if u.store.closed then .error .closed else .ok ()

namespace Binding.Account

variable {T : Type} {binding : Binding T} (account : binding.Account) (entity : EntityDescriptor)
  (u : Setting)

/-! ## Plans -/

/-- The record of the object at hand, once its related objects are stored. -/
def encode (id : ObjectId) : Plan T Bytes := do
  if entity.hasRelations then account.related u id
  Plan.read fun object => Record.made id (binding.body object)

def storeUnder (id : ObjectId) (mode : PutMode) : Plan T ObjectId := do
  let record ← account.encode entity u id
  Plan.ask "put" (Draft.put u.base entity.id id record mode)
  return id

/-- Store the object at hand and answer its id. -/
def write (current : ObjectId) (mode : PutMode) : Plan T ObjectId :=
  if mode = .update then account.storeUnder entity u current mode
  else do
    let id ← Plan.ask "id_for_put" (Draft.idForPut u.base entity.id current)
    account.storeUnder entity u id mode

/-- Store the object at hand, which carries its id afterwards. -/
def putObject (mode : PutMode) : Plan T ObjectId := do
  Plan.ofExcept u.opened
  let current ← Plan.read binding.id
  if mode = .update ∧ current = 0 then
    Plan.fail (.misuse (.updateUnsaved entity.name))
  let id ← account.write entity u current mode
  if id ≠ current then Plan.edit fun object => binding.setId object id
  return id

omit account in
variable (T) in
/-- The first of `count` consecutive new ids. -/
def allocateBlock (count : Nat) : Plan (List T) ObjectId :=
  if count = 0 then pure 0
  else Plan.ask "ids_for_put" (Draft.idsForPut u.base entity.id count)

/-- Store a chunk of objects by one call. -/
def writeChunk : Plan (List T) (List Box.Assigned) := do
  let currents ← Plan.read fun objects => objects.mapM binding.id
  let mode := if currents.all (· = 0) then PutMode.putNew else .put
  let first ← allocateBlock T entity u (currents.count 0)
  let assigned := Box.assign first currents
  let ids := assigned.map Box.Assigned.id
  let records ← Plan.forEach (account.encode entity u) ids
  Plan.ask "put_many" (Draft.putMany u.base entity.id ids records mode)
  return assigned

/-- Store one of several objects by a call of its own. -/
def writeOne : Plan T Box.Assigned := do
  let current ← Plan.read binding.id
  let id ← account.write entity u current .put
  return ⟨id, id ≠ current⟩

/-- Store several objects. They do not carry their new ids yet. -/
def writeMany : Plan (List T) (List Box.Assigned) :=
  if u.store.arrays then do
    let chunks ← Plan.forChunks u.store.config.chunkSize (account.writeChunk entity u)
    return chunks.flatten
  else fun w => Plan.forEach (fun _ => account.writeOne entity u) w.1 w

variable {account entity u} in
theorem writeMany_chunkwise (arrays : u.store.arrays = true) : account.writeMany entity u = (do
    let chunks ← Plan.forChunks u.store.config.chunkSize (account.writeChunk entity u)
    return chunks.flatten) :=
  if_pos arrays

variable {account entity u} in
theorem writeMany_onewise (single : u.store.arrays = false) : account.writeMany entity u =
    fun w => Plan.forEach (fun _ => account.writeOne entity u) w.1 w :=
  if_neg (by simp [single])

omit account in
variable (binding) in
def writeBack (assigned : List Box.Assigned) : Plan (List T) Unit := do
  let _ ← Plan.forEach (fun a : Box.Assigned =>
    if a.fresh then Plan.edit fun object => binding.setId object a.id else pure ()) assigned

/-- Store several objects, which carry their ids afterwards. -/
def putMany : Plan (List T) (List ObjectId) := do
  Plan.ofExcept u.opened
  let objects ← Plan.read .ok
  if objects.isEmpty then return []
  let assigned ← account.writeMany entity u
  writeBack binding assigned
  return assigned.map Box.Assigned.id

/-- Store the target at hand if it is not stored, and link it unless it is linked. -/
def linkTarget (relation : Relation) (source : ObjectId) (linked : IdSet) : Plan T IdSet := do
  let current ← Plan.read binding.id
  let target ← if current = 0 then account.putObject entity u .put else pure current
  if linked.contains target then return linked.erase target
  Plan.ask "rel_put" (Draft.relPut u.base relation.id source target)
  return linked

/-- Link all targets, and answer the ids that are linked without being wanted. -/
def linkTargets (relation : Relation) (source : ObjectId) (linked : IdSet) : Plan (List T) IdSet :=
  fun w => go linked w.1 w.2
where
  /-- From the first target on. -/
  go (linked : IdSet) : List T → Draft → Except StoreError IdSet × List T × Draft
    | [], d => (.ok linked, [], d)
    | object :: objects, d =>
      match account.linkTarget entity u relation source linked (object, d) with
      | (.ok linked, object, d) =>
        let (r, objects, d) := go linked objects d
        (r, object :: objects, d)
      | (.error why, object, d) => (.error why, object :: objects, d)

/-- Make the targets at hand the ones a source is linked to. -/
def replaceLinks (relation : Relation) (source stored : ObjectId) :
    Plan (Option (List T)) Unit := do
  match ← Plan.read .ok with
  | none => if stored ≠ 0 then Plan.fail (.misuse (.targetsNotLoaded relation.id stored))
  | some _ =>
    let linked ←
      if stored = 0 then pure []
      else Plan.ask "rel_get_ids" (Draft.relGetIds u.base relation.id stored)
    let entity ← Plan.ofExcept (u.store.registered binding.name)
    let unwanted ← Plan.focus (fun targets => targets.getD []) (fun _ targets => some targets)
      (account.linkTargets entity u relation source (.ofList linked))
    unwanted.toList.forM fun target =>
      Plan.ask "rel_remove" (Draft.relRemove u.base relation.id source target)

/-- Make the targets at hand the ones a source of some object is linked to. -/
def relationReplace {S : Type} (sources : Binding S) (home : EntityDescriptor) (relation : Relation)
    (source : ObjectId) (object : S) : Plan (Option (List T)) Unit := do
  Plan.ofExcept u.opened
  Plan.ofExcept <| if relation.source ≠ home.id then
    .error (.misuse (.foreignSource relation.id relation.source home.name)) else .ok ()
  let stored ← Plan.ofExcept (sources.id object)
  account.replaceLinks u relation source stored

/-! ## What the programs compute -/

section Parts

variable {u} {σ α : Type} {b : Box T}

theorem ensureOpen_computes :
    Editing.Computes u (Editing.ofStore StoreM.ensureOpen : Editing σ Unit)
      (Plan.ofExcept u.opened) := by
  refine .reading fun e => ?_
  rw [Setting.opened]
  cases closed : u.store.closed with
  | true => exact StoreM.ensureOpen_closed closed
  | false => exact StoreM.ensureOpen_ends closed

theorem store_computes {next : Store → Editing σ α} {plan : Plan σ α}
    (each : ∀ pool, Editing.Computes u (next { u.store with pool }) plan) :
    Editing.Computes u (Editing.ofStore StoreM.store >>= next) plan :=
  fun w => Leads.bind (Leads.ofStore (StoreM.store_leads fun pool => each pool w))

theorem misuse_computes {why : Misuse} :
    Editing.Computes u (Editing.ofStore (StoreM.misuse why) : Editing σ α)
      (Plan.fail (.misuse why)) :=
  .reading fun _ => StoreM.misuse_ends

theorem allocateOne_computes {current : ObjectId} :
    Editing.Computes u
      (Editing.ofStore (StoreM.ofHost (Store.allocateOne (some u.txn.handle) entity.id current)) :
        Editing σ ObjectId)
      (Plan.ask "id_for_put" (Draft.idForPut u.base entity.id current)) := by
  intro w
  have serves := @Draft.serves_idForPut u.base u.txn.handle entity.id current
  have performed : (u.engine w.2).idForPut (some u.txn.handle) entity.id current =
      Draft.lift u.base u.txn.handle (Draft.idForPut u.base entity.id current w.2) :=
    serves.perform callerThread w.2
  have told := serves.told w.2
  simp only [Plan.ask]
  generalize Draft.idForPut u.base entity.id current w.2 = done at performed told
  rcases done with why | ⟨id, d⟩
  · obtain ⟨message, detail⟩ : ∃ message, why.detail? = some message := by
      cases why with
      | missing => exact absurd rfl told
      | _ => exact ⟨_, rfl⟩
    dsimp only
    rw [detail]
    exact Ends.ofStore (Ends.ofHost (Store.allocateOne_refused performed detail))
  · exact Ends.ofStore (Ends.ofHost (Store.allocateOne_ends performed))

theorem allocateBlock_computes {count : Nat} :
    Editing.Computes u
      (Editing.ofStore (StoreM.ofHost (Store.allocateBlock (some u.txn.handle) entity.id count)) :
        Editing (List T) ObjectId)
      (allocateBlock T entity u count) := by
  unfold Store.allocateBlock allocateBlock
  split
  · exact .pure
  · exact .request Draft.serves_idsForPut

theorem idsOf_ends {objects : List T} {v : Store × Engine} :
    Ends (objects.mapM b.idOf) v (objects.mapM b.binding.id) v := by
  induction objects with
  | nil => exact Ends.pure
  | cons object objects ih =>
      rw [List.mapM_cons, List.mapM_cons]
      have first : Ends (b.idOf object) v (b.binding.id object) v := Box.idOf_reads
      cases carried : b.binding.id object <;> rw [carried] at first
      case error why => exact Ends.bind_error first ⟨rfl, rfl⟩
      case ok id =>
        refine Ends.bind first ?_
        cases rest : objects.mapM b.binding.id <;> rw [rest] at ih
        case error why => exact Ends.bind_error ih ⟨rfl, rfl⟩
        case ok ids => exact Ends.bind ih Ends.pure

/-- What is read of the objects at hand. -/
theorem read_computes {β : Type} {f : σ → StoreM α} {r : σ → Except StoreError α}
    {next : α → Editing σ β} {rest : α → Plan σ β}
    (ends : ∀ objects v, Ends (f objects) v (r objects) v)
    (each : ∀ a, Editing.Computes u (next a) (rest a)) :
    Editing.Computes u (do let a ← f (← Editing.current); next a) (Plan.read r >>= rest) := by
  intro w
  have read : Editing.Computes u (Editing.ofStore (f w.1) : Editing σ α) (Plan.ofExcept (r w.1)) :=
    .reading fun _ => ends _ _
  exact Ends.bind Editing.current_ends (read.bind each w)

theorem currentId_computes :
    Editing.Computes u (Box.currentId ⟨entity, binding⟩) (Plan.read binding.id) :=
  fun _ => Ends.bind Editing.current_ends (Ends.ofStore Box.idOf_reads)

theorem assignId_computes {id : ObjectId} :
    Editing.Computes u (Box.assignId ⟨entity, binding⟩ id)
      (Plan.edit fun object => binding.setId object id) := by
  intro w
  refine Ends.bind Editing.current_ends ?_
  simp only [Plan.edit]
  cases binding.setId w.1 id with
  | ok changed => exact Editing.replace_ends
  | error why => exact Ends.throw

/-- What is done with a box that is found is planned for every box of the binding. -/
theorem boxFor_computes {next : Box T → Editing σ α} {rest : EntityDescriptor → Plan σ α}
    (each : ∀ entity, Editing.Computes u (next ⟨entity, binding⟩) (rest entity)) :
    Editing.Computes u (Editing.ofStore (Store.boxFor binding) >>= next)
      (Plan.ofExcept (u.store.registered binding.name) >>= rest) := by
  intro w
  have finds := @StoreM.boxFor_finds _ u.store (u.engine w.2) binding
  simp only [Bind.bind, Plan.ofExcept, Plan.read]
  cases found : u.store.registered binding.name <;> rw [found] at finds
  case error why => exact Ends.bind_error (Ends.ofStore finds) ⟨rfl, rfl⟩
  case ok entity => exact Ends.bind (Ends.ofStore finds) (each entity w)

end Parts

variable {entity u} {id current : ObjectId} {mode : PutMode}

theorem encode_computes : Editing.Computes u (Box.encodeUnder ⟨entity, binding⟩ u.txn id)
    (account.encode entity u id) := by
  have encoded : Editing.Computes u
      (do Box.encode ⟨entity, binding⟩ id (← Editing.current) : Editing T Bytes)
      (Plan.read fun object => Record.made id (binding.body object)) :=
    fun _ => Ends.bind Editing.current_ends (Ends.ofStore Box.encode_makes)
  unfold Box.encodeUnder encode
  exact .ite (fun _ => .bind (account.computes u id) fun _ => encoded) fun _ => encoded

theorem storeUnder_computes : Editing.Computes u
    (Box.storeUnder ⟨entity, binding⟩ (some u.txn) id mode)
    (account.storeUnder entity u id mode) := by
  rw [Box.storeUnder_eq]
  exact .bind account.encode_computes fun _ => .bind (.request Draft.serves_put) fun _ => .pure

theorem write_computes : Editing.Computes u (Box.write ⟨entity, binding⟩ (some u.txn) current mode)
    (account.write entity u current mode) := by
  unfold write
  split
  · subst mode
    rw [Box.write_update_eq]
    exact account.storeUnder_computes
  · rw [Box.write_eq ‹_›]
    exact .bind (allocateOne_computes entity) fun _ => account.storeUnder_computes

theorem putObject_computes : Editing.Computes u
    (Box.putObject ⟨entity, binding⟩ (some u.txn) mode) (account.putObject entity u mode) := by
  refine .bind ensureOpen_computes fun _ => .bind (currentId_computes entity) fun current => ?_
  have stored : Editing.Computes u (do
      let id ← Box.write ⟨entity, binding⟩ (some u.txn) current mode
      if id ≠ current then Box.assignId ⟨entity, binding⟩ id
      return id) (do
      let id ← account.write entity u current mode
      if id ≠ current then Plan.edit fun object => binding.setId object id
      return id) :=
    .bind account.write_computes fun id =>
      .ite (fun _ => .bind (assignId_computes entity) fun _ => .pure) fun _ => .pure
  simp only [Option.isNone_some, Bool.false_eq_true, false_and, if_false]
  exact .ite (fun _ => .bind misuse_computes fun _ => stored) fun _ => stored

theorem writeOne_computes : Editing.Computes u (Box.writeOne ⟨entity, binding⟩ u.txn)
    (account.writeOne entity u) :=
  .bind (currentId_computes entity) fun _ => .bind account.write_computes fun _ => .pure

theorem writeChunk_computes : Editing.Computes u (Box.writeChunk ⟨entity, binding⟩ u.txn)
    (account.writeChunk entity u) := by
  refine read_computes (fun _ _ => idsOf_ends) fun currents => ?_
  refine .bind (allocateBlock_computes entity) fun first =>
    .bind (.forEach fun id => account.encode_computes) fun records =>
      .bind (.request Draft.serves_putMany) fun _ => .pure

theorem writeMany_computes : Editing.Computes u (Box.writeMany ⟨entity, binding⟩ u.txn)
    (account.writeMany entity u) := by
  refine store_computes fun pool => ?_
  unfold writeMany
  refine .ite (fun _ => .bind (.forChunks account.writeChunk_computes) fun _ => .pure) fun _ => ?_
  exact .current_bind fun _ => .forEach fun _ => account.writeOne_computes

omit account in
theorem writeBack_computes {assigned : List Box.Assigned} :
    Editing.Computes u (Box.writeBack ⟨entity, binding⟩ assigned) (writeBack binding assigned) := by
  refine .bind (.forEach fun a => ?_) fun _ => .pure
  exact .ite (fun _ => assignId_computes entity) fun _ => .pure

theorem putMany_computes : Editing.Computes u (Box.putMany ⟨entity, binding⟩ (some u.txn))
    (account.putMany entity u) := by
  refine .bind ensureOpen_computes fun _ => .bind .current fun objects => ?_
  refine .ite (fun _ => .pure) fun _ => .bind account.writeMany_computes fun assigned => ?_
  exact .bind writeBack_computes fun _ => .pure

/-! ### Links -/

variable {relation : Relation} {source stored : ObjectId} {linked : IdSet}

theorem linkTarget_computes : Editing.Computes u
    (Store.linkTarget ⟨entity, binding⟩ u.txn relation source linked)
    (account.linkTarget entity u relation source linked) := by
  refine .bind (currentId_computes entity) fun current => ?_
  have linking (target : ObjectId) : Editing.Computes u (do
      if linked.contains target then return linked.erase target
      HostM.request "rel_put" (.relPut (some u.txn.handle) relation.id source target)
      return linked : Editing T IdSet) (do
      if linked.contains target then return linked.erase target
      Plan.ask "rel_put" (Draft.relPut u.base relation.id source target)
      return linked) :=
    .ite (fun _ => .pure) fun _ => .bind (.request Draft.serves_relPut) fun _ => .pure
  exact .ite (fun _ => .bind account.putObject_computes linking) fun _ => .bind .pure linking

theorem linkTargets_computes : Editing.Computes u
    (Store.linkTargets ⟨entity, binding⟩ u.txn relation source linked)
    (account.linkTargets entity u relation source linked) := by
  rintro ⟨objects, d⟩
  simp only [linkTargets]
  induction objects generalizing linked d with
  | nil => exact Store.linkTargets_nil ⟨rfl, rfl⟩
  | cons object objects ih =>
      have first := @linkTarget_computes _ _ account entity u relation source linked (object, d)
      refine Store.linkTargets_cons (first.mono ?_)
      simp only [linkTargets.go]
      rcases account.linkTarget entity u relation source linked (object, d) with
        ⟨why | linked, object', d'⟩
      · rintro r w ⟨rfl, rfl⟩
        exact ⟨rfl, rfl⟩
      · rintro r w ⟨rfl, rfl⟩
        simp only [Store.Further]
        refine Leads.mono (ih d') ?_
        rintro r w ⟨rfl, rfl⟩
        exact ⟨rfl, rfl⟩

theorem replaceLinks_computes : Editing.Computes u
    (Store.replaceLinks binding u.txn relation source stored)
    (account.replaceLinks u relation source stored) := by
  refine .bind .current fun targets => ?_
  cases targets with
  | none => exact .ite (fun _ => misuse_computes) fun _ => .pure
  | some _ =>
      have linking (linked : List ObjectId) : Editing.Computes u (do
          let b ← Store.boxFor binding
          let unwanted ← Editing.focus (fun targets => targets.getD [])
            (fun _ targets => some targets)
            (Store.linkTargets b u.txn relation source (.ofList linked))
          unwanted.toList.forM fun target =>
            HostM.request "rel_remove" (.relRemove (some u.txn.handle) relation.id source target) :
            Editing (Option (List T)) Unit) (do
          let entity ← Plan.ofExcept (u.store.registered binding.name)
          let unwanted ← Plan.focus (fun targets => targets.getD []) (fun _ targets => some targets)
            (account.linkTargets entity u relation source (.ofList linked))
          unwanted.toList.forM fun target =>
            Plan.ask "rel_remove" (Draft.relRemove u.base relation.id source target)) := by
        refine boxFor_computes fun entity => .bind (.focus account.linkTargets_computes) fun _ => ?_
        exact .forM fun _ => .request Draft.serves_relRemove
      dsimp only
      split
      · exact .bind .pure linking
      · exact .bind (.request Draft.serves_relGetIds) linking

theorem relationReplace_computes {S : Type} {sources : Binding S} {home : EntityDescriptor}
    {object : S} : Editing.Computes u
    (Box.relationReplace ⟨home, sources⟩ binding (some u.txn) relation source object)
    (account.relationReplace u sources home relation source object) := by
  have checked (e : Engine) : Ends (Box.checkSource ⟨home, sources⟩ relation) (u.store, e)
      (if relation.source ≠ home.id then
        .error (.misuse (.foreignSource relation.id relation.source home.name)) else .ok ())
      (u.store, e) := by
    rw [Box.checkSource, show (Box.mk home sources).entity = home.id from rfl]
    split
    · exact StoreM.misuse_ends
    · exact Ends.pure
  exact .bind ensureOpen_computes fun _ => .bind (.reading checked) fun _ =>
    .bind (.reading fun _ => Box.idOf_reads) fun stored =>
      .current_bind fun _ => account.replaceLinks_computes

end Binding.Account

/-! ## The example bindings -/

namespace Catalog

def eventAccount : eventBinding.Account := ⟨fun _ _ => pure (), fun _ _ => .pure⟩

def tagAccount : tagBinding.Account := ⟨fun _ _ => pure (), fun _ _ => .pure⟩

def labelAccount : labelBinding.Account := ⟨fun _ _ => pure (), fun _ _ => .pure⟩

def markerAccount : markerBinding.Account := ⟨fun _ _ => pure (), fun _ _ => .pure⟩

/-- The tags of a note are stored and linked, if they are loaded. -/
def noteAccount : noteBinding.Account where
  related u id := do
    let note ← Plan.read .ok
    if note.tags.isSome then
      Plan.focus Note.tags (fun note tags => { note with tags })
        (tagAccount.replaceLinks u noteTags id note.id)
  computes _ _ :=
    .bind .current fun _ =>
      .ite (fun _ => .focus tagAccount.replaceLinks_computes) fun _ => .pure

/-- The notes of a folder are stored and linked, and an event is that tells of the folder. -/
def folderAccount : folderBinding.Account where
  related u id := do
    let folder ← Plan.read .ok
    Plan.focus Folder.notes (fun folder notes => { folder with notes })
      (noteAccount.replaceLinks u folderNotes id folder.id)
    let events ← Plan.ofExcept (u.store.registered eventBinding.name)
    let _ ← Plan.focus (fun _ => { source := "folder:" ++ folder.name, seq := id : Event })
      (fun folder _ => folder) (eventAccount.putObject events u .put)
  computes _ _ :=
    .bind .current fun _ => .bind (.focus noteAccount.replaceLinks_computes) fun _ =>
      Binding.Account.boxFor_computes fun _ =>
        .bind (.focus eventAccount.putObject_computes) fun _ => .pure

end Catalog

end ObjectStore
