import ObjectStore.Proofs.Engine.OpenTransaction

/-! # Drafts

All that calls through a write transaction can change is the snapshot it sees, the id sequences and
the count of link writes. Together they are a draft. The calls that store objects and links are
functions on drafts, which need to know of the engine only what is defined in it and whether it has
calls on arrays (`Draft.Serves`).
-/

namespace ObjectStore

/-- What calls through a write transaction can change. -/
structure Draft where
  /-- The snapshot the transaction sees. -/
  view : Snapshot
  sequences : Std.ExtTreeMap EntityId ObjectId
  relationWrites : Nat

namespace Engine

/-- The engine with a write transaction open at a draft. -/
def drafted (base : Engine) (handle : Handle) (d : Draft) : Engine :=
  { base with
    txns := base.txns.insert handle ⟨.write, d.view⟩
    sequences := d.sequences
    relationWrites := d.relationWrites }

/-- The draft of a transaction at `view`. -/
def draft (e : Engine) (view : Snapshot) : Draft :=
  ⟨view, e.sequences, e.relationWrites⟩

/-- An engine is what it is with the draft of a transaction that is open. -/
theorem drafted_draft {e : Engine} {handle : Handle} {view : Snapshot}
    (found : e.txns[handle]? = some ⟨.write, view⟩) : e.drafted handle (e.draft view) = e := by
  have same : e.txns.insert handle ⟨.write, view⟩ = e.txns := by
    ext txn : 1
    grind
  rw [drafted, draft]
  dsimp only
  rw [same]

end Engine

namespace Draft

/-- The largest id handed out or stored under an entity type, 0 before the first. -/
def lastId (d : Draft) (entity : EntityId) : ObjectId :=
  d.sequences.getD entity 0

def setLastId (d : Draft) (entity : EntityId) (id : ObjectId) : Draft :=
  { d with sequences :=
      if id = 0 then d.sequences.erase entity else d.sequences.insert entity id }

/-- Move the sequence of an entity type past ids that were stored. -/
def observe (d : Draft) (entity : EntityId) (ids : List ObjectId) : Draft :=
  d.setLastId entity (ids.foldl max (d.lastId entity))

@[simp] theorem view_setLastId {d : Draft} {entity : EntityId} {id : ObjectId} :
    (d.setLastId entity id).view = d.view := rfl

/-! ## Calls -/

variable (base : Engine)

/-- Only go on with what is defined. -/
def known {α : Type} (entity : EntityId) (r : Except Refusal α) : Except Refusal α :=
  if base.entities.contains entity then r else .error (.unknownEntity entity)

/-- Only go on with links that are defined. -/
def linkable {α : Type} (relation : RelationId) (r : Except Refusal α) : Except Refusal α :=
  if base.relations.contains relation then r else .error (.unknownRelation relation)

def idForPut (entity : EntityId) (candidate : ObjectId) (d : Draft) :
    Except Refusal (ObjectId × Draft) :=
  known base entity <|
    if candidate = 0 then
      if (d.lastId entity).toNat = Engine.maxId then .error (.exhausted entity)
      else .ok (d.lastId entity + 1, d.setLastId entity (d.lastId entity + 1))
    else .ok (candidate, d.observe entity [candidate])

def idsForPut (entity : EntityId) (count : Nat) (d : Draft) : Except Refusal (ObjectId × Draft) :=
  if count = 0 ∨ maxIdsPerBlock < count then .error (.blockSize count)
  else known base entity <|
    if (d.lastId entity).toNat + count ≤ Engine.maxId then
      .ok (.ofNat ((d.lastId entity).toNat + 1),
        d.setLastId entity (.ofNat ((d.lastId entity).toNat + count)))
    else .error (.exhausted entity)

def put (entity : EntityId) (id : ObjectId) (record : Bytes) (mode : PutMode) (d : Draft) :
    Except Refusal (Unit × Draft) :=
  known base entity <|
    match Snapshot.checkPut mode entity id (d.view.contains entity id) with
    | .ok () => .ok ((), { d with view := d.view.insert entity id record }.observe entity [id])
    | .error why => .error why

def putMany (entity : EntityId) (ids : List ObjectId) (records : List Bytes) (mode : PutMode)
    (d : Draft) : Except Refusal (Unit × Draft) :=
  if base.arrays then
    known base entity <|
      if ids.length = records.length then
        match d.view.checkPutMany mode entity ∅ ids with
        | .ok () => .ok ((),
            { d with view := d.view.insertMany entity (ids.zip records) }.observe entity ids)
        | .error why => .error why
      else .error (.unevenLists ids.length records.length)
  else .error (.noArrays "put_many")

def relPut (relation : RelationId) (source target : ObjectId) (d : Draft) :
    Except Refusal (Unit × Draft) :=
  linkable base relation <|
    if source = 0 ∨ target = 0 then .error (.reservedLink relation source target)
    else .ok ((), { d with
      view := d.view.link relation source target
      relationWrites := d.relationWrites + 1 })

def relRemove (relation : RelationId) (source target : ObjectId) (d : Draft) :
    Except Refusal (Unit × Draft) :=
  linkable base relation <|
    .ok ((), { d with
      view := d.view.unlink relation source target
      relationWrites := d.relationWrites + 1 })

def relGetIds (relation : RelationId) (source : ObjectId) (d : Draft) :
    Except Refusal (List ObjectId × Draft) :=
  linkable base relation <| .ok ((d.view.targets relation source).toList, d)

/-! ## What the engine does -/

/-- A call on a draft as one on the engine with the draft's transaction. -/
def lift {α : Type} (handle : Handle) : Except Refusal (α × Draft) → Except Halt (α × Engine)
  | .ok (a, d) => .ok (a, base.drafted handle d)
  | .error why => .error (.refused why)

/-- Through the transaction of a draft a call does what `op` does on the draft, and every refusal
    tells why. -/
structure Serves (handle : Handle) (call : Call)
    (op : Draft → Except Refusal (call.Answer × Draft)) : Prop where
  perform (thread : ThreadId) (d : Draft) :
    (base.drafted handle d).perform thread call = lift base handle (op d)
  told (d : Draft) : op d ≠ .error .missing

variable {base} {handle : Handle} {entity : EntityId} {relation : RelationId} {d : Draft}

theorem requireEntity_drafted : (base.drafted handle d).requireEntity entity =
    if base.entities.contains entity then .ok ()
    else .error (.refused (.unknownEntity entity)) := rfl

theorem lastId_drafted : (base.drafted handle d).lastId entity = d.lastId entity := rfl

theorem writeTxn_drafted :
    (base.drafted handle d).writeTxn handle = .ok ⟨.write, d.view⟩ :=
  Engine.writeTxn_eq_ok.mpr ⟨Std.ExtTreeMap.getElem?_insert_self, rfl⟩

theorem requireWritable_drafted :
    (base.drafted handle d).requireWritable (some handle) = .ok () := by
  rw [Engine.requireWritable, writeTxn_drafted]
  rfl

theorem view_drafted : (base.drafted handle d).view (some handle) = .ok d.view :=
  Engine.view_eq_ok.mpr ⟨.write, Std.ExtTreeMap.getElem?_insert_self⟩

/-- A write through the transaction changes the view. -/
theorem write_drafted {α : Type} {thread : ThreadId}
    {change : Snapshot → Except Refusal (α × Snapshot)} :
    (base.drafted handle d).write thread (some handle) change =
      lift base handle ((change d.view).map fun (a, view) => (a, { d with view })) := by
  rw [Engine.write, writeTxn_drafted]
  dsimp only [bind, Except.bind]
  cases change d.view with
  | error why => rfl
  | ok changed =>
      obtain ⟨a, view⟩ := changed
      have same : (base.txns.insert handle ⟨.write, d.view⟩).insert handle ⟨.write, view⟩ =
          base.txns.insert handle ⟨.write, view⟩ := by
        ext txn : 1
        grind
      simp only [Engine.drafted, same, mapError_ok, Except.map, lift, pure, Except.pure]

/-! ### Ids -/

theorem serves_idForPut {candidate : ObjectId} :
    Serves base handle (.idForPut (some handle) entity candidate)
      (idForPut base entity candidate) where
  perform thread d := by
    simp only [Engine.perform, Engine.idForPut, requireEntity_drafted, requireWritable_drafted,
      lastId_drafted, idForPut, known]
    split
    · dsimp only [bind, Except.bind]
      split
      · by_cases full : (d.lastId entity).toNat = Engine.maxId
        · rw [if_pos full]
          exact if_pos full
        · rw [if_neg full]
          exact if_neg full
      · rfl
    · rfl
  told d := by
    simp only [idForPut, known]
    grind

theorem serves_idsForPut {count : Nat} :
    Serves base handle (.idsForPut (some handle) entity count) (idsForPut base entity count) where
  perform thread d := by
    simp only [Engine.perform, Engine.idsForPut, requireEntity_drafted, requireWritable_drafted,
      lastId_drafted, idsForPut, known]
    split
    · rfl
    · split
      · by_cases room : (d.lastId entity).toNat + count ≤ Engine.maxId
        · rw [if_pos room]
          exact if_pos room
        · rw [if_neg room]
          exact if_neg room
      · rfl
  told d := by
    simp only [idsForPut, known]
    grind

/-! ### Records -/

theorem checkPut_ne_missing {mode : PutMode} {id : ObjectId} {stored : Bool} :
    Snapshot.checkPut mode entity id stored ≠ .error .missing := by
  simp only [Snapshot.checkPut]
  split
  · simp
  · split <;> simp

theorem checkPutMany_ne_missing {s : Snapshot} {mode : PutMode} {seen : IdSet}
    {ids : List ObjectId} : s.checkPutMany mode entity seen ids ≠ .error .missing := by
  induction ids generalizing seen with
  | nil => simp [Snapshot.checkPutMany]
  | cons id ids ih =>
      rw [Snapshot.checkPutMany]
      cases checked : Snapshot.checkPut mode entity id
        (s.contains entity id || seen.contains id) with
      | ok _ => exact ih
      | error why =>
          rintro ⟨⟩
          exact checkPut_ne_missing checked

theorem serves_put {id : ObjectId} {record : Bytes} {mode : PutMode} :
    Serves base handle (.put (some handle) entity id record mode)
      (put base entity id record mode) where
  perform thread d := by
    simp only [Engine.perform, Engine.put, requireEntity_drafted, write_drafted, put, known]
    split
    · cases Snapshot.checkPut mode entity id (d.view.contains entity id) <;> rfl
    · rfl
  told d := by
    simp only [put, known]
    split
    · cases checked : Snapshot.checkPut mode entity id (d.view.contains entity id) with
      | ok _ => simp
      | error why =>
          rintro ⟨⟩
          exact checkPut_ne_missing checked
    · simp

theorem serves_putMany {ids : List ObjectId} {records : List Bytes} {mode : PutMode} :
    Serves base handle (.putMany (some handle) entity ids records mode)
      (putMany base entity ids records mode) where
  perform thread d := by
    have arrays : (base.drafted handle d).requireArrays "put_many" =
      if base.arrays then .ok () else .error (.refused (.noArrays "put_many")) := rfl
    simp only [Engine.perform, Engine.putMany, arrays, requireEntity_drafted, write_drafted,
      putMany, known]
    split
    · split
      · dsimp only [bind, Except.bind]
        split
        · cases d.view.checkPutMany mode entity ∅ ids <;> rfl
        · rfl
      · rfl
    · rfl
  told d := by
    simp only [putMany, known]
    split
    · split
      · split
        · cases checked : d.view.checkPutMany mode entity ∅ ids with
          | ok _ => simp
          | error why =>
              rintro ⟨⟩
              exact checkPutMany_ne_missing checked
        · simp
      · simp
    · simp

/-! ### Links -/

theorem endpoints_drafted {relation : RelationId} :
    (base.relations.contains relation = true ∧ ∃ ends,
      (base.drafted handle d).endpoints relation = .ok ends) ∨
    (base.relations.contains relation = false ∧
      (base.drafted handle d).endpoints relation =
        .error (.refused (.unknownRelation relation))) := by
  rw [show (base.drafted handle d).endpoints relation = base.endpoints relation from rfl,
    Engine.endpoints, Std.ExtTreeMap.contains_eq_isSome_getElem?]
  cases base.relations[relation]? with
  | some ends => exact .inl ⟨rfl, ends, rfl⟩
  | none => exact .inr ⟨rfl, rfl⟩

theorem serves_relPut {source target : ObjectId} :
    Serves base handle (.relPut (some handle) relation source target)
      (relPut base relation source target) where
  perform thread d := by
    simp only [Engine.perform, Engine.relPut, write_drafted, relPut, linkable]
    rcases @endpoints_drafted base handle d relation with ⟨defined, ends, found⟩ | ⟨none, refused⟩
    · simp only [found, defined, if_true]
      dsimp only [bind, Except.bind]
      split <;> rfl
    · simp only [refused, none]
      rfl
  told d := by
    simp only [relPut, linkable]
    grind

theorem serves_relRemove {source target : ObjectId} :
    Serves base handle (.relRemove (some handle) relation source target)
      (relRemove base relation source target) where
  perform thread d := by
    simp only [Engine.perform, Engine.relRemove, write_drafted, relRemove, linkable]
    rcases @endpoints_drafted base handle d relation with ⟨defined, ends, found⟩ | ⟨none, refused⟩
    · simp only [found, defined, if_true]
      rfl
    · simp only [refused, none]
      rfl
  told d := by
    simp only [relRemove, linkable]
    grind

theorem serves_relGetIds {source : ObjectId} :
    Serves base handle (.relGetIds (some handle) relation source)
      (relGetIds base relation source) where
  perform thread d := by
    simp only [Engine.perform, Engine.relGetIds, view_drafted, relGetIds, linkable]
    rcases @endpoints_drafted base handle d relation with ⟨defined, ends, found⟩ | ⟨none, refused⟩
    · simp only [found, defined, if_true]
      rfl
    · simp only [refused, none]
      rfl
  told d := by
    simp only [relGetIds, linkable]
    grind

end Draft

end ObjectStore
