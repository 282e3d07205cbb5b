import ObjectStore.Proofs.Engine.FreshIds

/-! # Calls in place

An engine that is shared cannot be thrown away when a call fails: the call works in place, check
after check and change after change, and what it has changed by then stays changed. It records why
it fails in its thread's slot where the fault is found, and tells its caller a status alone, or only
the id 0.

Such a call comes to what `Engine.perform` says, which yields no engine at all if it fails: every
check is made before the first change, and the writer slot that is claimed on the way is released.
So a call that fails changes nothing but its thread's slot, and the slot tells why.
-/

namespace ObjectStore

/-- How a call breaks off. -/
inductive Stop where
  | failed (status : Status)
  /-- It waits for the writer slot. -/
  | waits
  deriving DecidableEq, Repr

/-- Steps on a state and the slot of the thread they are made on. What was changed before they
break off stays changed. -/
abbrev InPlace (σ : Type) := ExceptT Stop (StateM (σ × ErrorSlot))

namespace InPlace

variable {σ τ α : Type}

/-- Record why the call fails, and break off. -/
def fail (why : Refusal) : InPlace σ α := do
  modify fun (s, slot) => (s, why.recordIn slot)
  throw (.failed why.status)

/-- Break off or go on. -/
def ofExcept : Except Halt α → InPlace σ α
  | .ok a => return a
  | .error (.refused why) => fail why
  | .error .waits => throw .waits

/-- The state at hand. -/
def current : InPlace σ σ := do return (← get).1

/-- Look at the state, and only go on if nothing is wrong with it. -/
def check (look : σ → Except Halt α) : InPlace σ α := do
  ofExcept (look (← current))

def change (f : σ → σ) : InPlace σ Unit :=
  modify fun (s, slot) => (f s, slot)

/-- Work on a part of the state. -/
def within (part : σ → τ) (fill : σ → τ → σ) (p : InPlace τ α) : InPlace σ α :=
  ExceptT.mk fun (s, slot) =>
    let (r, t, slot) := p.run (part s, slot)
    (r, fill s t, slot)

/-- What steps end in, which does not break off what follows them. -/
def outcome (p : InPlace σ α) : InPlace σ (Except Stop α) :=
  ExceptT.mk do return .ok (← p.run)

/-! ## The calls -/

/-- Take the writer slot. -/
def claimWriter (thread : ThreadId) : InPlace Engine Unit := do
  check (·.requireWriterFree thread)
  change ({ · with writer := some thread })

def releaseWriter : InPlace Engine Unit :=
  change ({ · with writer := none })

/-- Work on the snapshot of a write transaction or, without one, on the committed snapshot while the
writer slot is taken. -/
def writing {α : Type} (thread : ThreadId) (txn : Option Handle) (p : InPlace Snapshot α) :
    InPlace Engine α :=
  match txn with
  | some txn => do
    let t ← check (·.writeTxn txn)
    within (fun _ => t.state)
      (fun e state => { e with txns := e.txns.insert txn { t with state } }) p
  | none => do
    claimWriter thread
    let result ← outcome (within Engine.committed ({ · with committed := · }) p)
    releaseWriter
    ExceptT.mk (pure result)

/-- Work on the records of an entity type. -/
def onTable {α : Type} (entity : EntityId) (p : InPlace Table α) : InPlace Snapshot α :=
  within (·.table entity) (·.setTable entity ·) p

/-- The engine with a sequence for an entity type. -/
def touched (entity : EntityId) (e : Engine) : Engine :=
  { e with sequences := e.sequences.insertIfNew entity 0 }

/-- The engine once the sequence of an entity type is not behind an id. -/
def reached (entity : EntityId) (id : ObjectId) (e : Engine) : Engine :=
  if e.lastId entity < id then { e with sequences := e.sequences.insert entity id } else e

def defineRelation (relation : RelationId) (source target : EntityId) : InPlace Engine Unit := do
  check (·.requireEntity source)
  check (·.requireEntity target)
  change fun e => { e with relations := e.relations.insert relation ⟨source, target⟩ }

def begin (thread : ThreadId) (mode : TxnMode) : InPlace Engine Handle := do
  if mode = .write then claimWriter thread
  let e ← current
  change ({ · with nextHandle := e.nextHandle + 1 })
  change ({ · with txns := e.txns.insert e.nextHandle ⟨mode, e.committed⟩ })
  return e.nextHandle

/-- Take a transaction from those that are open. -/
def close (txn : Handle) : InPlace Engine OpenTxn := do
  let e ← current
  change ({ · with txns := e.txns.erase txn })
  ofExcept (e.openTxn txn)

def commit (txn : Handle) : InPlace Engine Unit := do
  let t ← close txn
  if t.mode = .write then
    change ({ · with committed := t.state })
    releaseWriter

def abort (txn : Handle) : InPlace Engine Unit := do
  let t ← close txn
  if t.mode = .write then releaseWriter

def reserveId (txn : Option Handle) (entity : EntityId) (candidate : ObjectId) :
    InPlace Engine ObjectId := do
  check (·.requireEntity entity)
  check (·.requireWritable txn)
  change (touched entity)
  let last := (← current).lastId entity
  if candidate = 0 then
    if last.toNat = Engine.maxId then fail (.exhausted entity)
    change (reached entity (last + 1))
    return last + 1
  else
    change (reached entity candidate)
    return candidate

/-- Hand out an id, or answer 0. -/
def idForPut (txn : Option Handle) (entity : EntityId) (candidate : ObjectId) :
    InPlace Engine ObjectId := do
  match ← outcome (reserveId txn entity candidate) with
  | .ok id => return id
  | .error _ => return 0

def idsForPut (txn : Option Handle) (entity : EntityId) (count : Nat) :
    InPlace Engine ObjectId := do
  if count = 0 ∨ maxIdsPerBlock < count then fail (.blockSize count)
  check (·.requireEntity entity)
  check (·.requireWritable txn)
  change (touched entity)
  let last := ((← current).lastId entity).toNat
  if last + count ≤ Engine.maxId then
    change (reached entity (.ofNat (last + count)))
    return .ofNat (last + 1)
  else fail (.exhausted entity)

def put (thread : ThreadId) (txn : Option Handle) (entity : EntityId) (id : ObjectId)
    (record : Bytes) (mode : PutMode) : InPlace Engine Unit := do
  check (·.requireEntity entity)
  writing thread txn do
    check fun s => (Snapshot.checkPut mode entity id (s.contains entity id)).mapError .refused
    onTable entity (change (·.insert id record))
  change (·.observe entity [id])

/-- Check ids one after another, counting each as stored for those after it. -/
def checkPutMany (mode : PutMode) (entity : EntityId) :
    IdSet → List ObjectId → InPlace Snapshot Unit
  | _, [] => return
  | seen, id :: ids => do
    check fun s =>
      (Snapshot.checkPut mode entity id (s.contains entity id || seen.contains id)).mapError .refused
    checkPutMany mode entity (seen.insert id) ids

def putMany (thread : ThreadId) (txn : Option Handle) (entity : EntityId) (ids : List ObjectId)
    (records : List Bytes) (mode : PutMode) : InPlace Engine Unit := do
  check (·.requireArrays "put_many")
  check (·.requireEntity entity)
  if ids.length ≠ records.length then fail (.unevenLists ids.length records.length)
  writing thread txn do
    checkPutMany mode entity ∅ ids
    onTable entity ((ids.zip records).forM fun (id, record) => change (·.insert id record))
  change (·.observe entity ids)

/-- Drop the links of objects that were removed, one after another. -/
def unlinkEach (outgoing incoming : List RelationId) (ids : List ObjectId) :
    InPlace Snapshot Unit :=
  ids.forM fun id => change (·.unlinkObject outgoing incoming id)

def remove (thread : ThreadId) (txn : Option Handle) (entity : EntityId) (id : ObjectId) :
    InPlace Engine Unit := do
  check (·.requireEntity entity)
  let e ← current
  writing thread txn do
    check fun s => if s.contains entity id then .ok () else Engine.refuse .missing
    onTable entity (change (·.erase id))
    unlinkEach (e.outgoing entity) (e.incoming entity) [id]

def removeMany (thread : ThreadId) (txn : Option Handle) (entity : EntityId)
    (ids : List ObjectId) : InPlace Engine Nat := do
  check (·.requireEntity entity)
  let e ← current
  writing thread txn do
    let s ← current
    let stored := (Std.ExtTreeSet.ofList (ids.filter (s.contains entity)) : IdSet).toList
    onTable entity (stored.forM fun id => change (·.erase id))
    unlinkEach (e.outgoing entity) (e.incoming entity) stored
    return stored.length

def removeAll (thread : ThreadId) (txn : Option Handle) (entity : EntityId) :
    InPlace Engine Nat := do
  check (·.requireEntity entity)
  let e ← current
  writing thread txn do
    let s ← current
    onTable entity (change fun _ => ∅)
    unlinkEach (e.outgoing entity) (e.incoming entity) (s.ids entity)
    return (s.ids entity).length

def relPut (thread : ThreadId) (txn : Option Handle) (relation : RelationId)
    (source target : ObjectId) : InPlace Engine Unit := do
  let _ ← check (·.endpoints relation)
  if source = 0 ∨ target = 0 then fail (.reservedLink relation source target)
  writing thread txn (change (·.link relation source target))
  change Engine.countLinkWrite

def relRemove (thread : ThreadId) (txn : Option Handle) (relation : RelationId)
    (source target : ObjectId) : InPlace Engine Unit := do
  let _ ← check (·.endpoints relation)
  writing thread txn (change (·.unlink relation source target))
  change Engine.countLinkWrite

/-- Perform a call for a thread. A call that only reads looks at the engine once. -/
def perform (thread : ThreadId) : (call : Call) → InPlace Engine call.Answer
  | .defineEntity entity name => change (·.defineEntity entity name)
  | .defineRelation relation source target => defineRelation relation source target
  | .begin mode => begin thread mode
  | .commit txn => commit txn
  | .abort txn => abort txn
  | .idForPut txn entity candidate => idForPut txn entity candidate
  | .idsForPut txn entity count => idsForPut txn entity count
  | .put txn entity id record mode => put thread txn entity id record mode
  | .putMany txn entity ids records mode => putMany thread txn entity ids records mode
  | .get txn entity id => check (·.get txn entity id)
  | .getMany txn entity ids => check (·.getMany txn entity ids)
  | .getAll txn entity => check (·.getAll txn entity)
  | .visitMany txn entity ids visitor => check (·.visitMany txn entity ids visitor)
  | .visitAll txn entity visitor => check (·.visitAll txn entity visitor)
  | .remove txn entity id => remove thread txn entity id
  | .removeMany txn entity ids => removeMany thread txn entity ids
  | .removeAll txn entity => removeAll thread txn entity
  | .count txn entity limit => check (·.count txn entity limit)
  | .isEmpty txn entity => check (·.isEmpty txn entity)
  | .contains txn entity id => check (·.contains txn entity id)
  | .containsMany txn entity ids => check (·.containsMany txn entity ids)
  | .relPut txn relation source target => relPut thread txn relation source target
  | .relRemove txn relation source target => relRemove thread txn relation source target
  | .relGetIds txn relation source => check (·.relGetIds txn relation source)

/-! ## What they come to -/

section Carries

variable {σ τ α β : Type}

/-- What steps end in that are to come to `r`: if they break off, the state is as it was, and the
slot tells why. -/
def settled (s : σ) (slot : ErrorSlot) : Except Halt (α × σ) → Except Stop α × σ × ErrorSlot
  | .ok (a, s') => (.ok a, s', slot)
  | .error (.refused why) => (.error (.failed why.status), s, why.recordIn slot)
  | .error .waits => (.error .waits, s, slot)

/-- Steps in place come to a function that yields no state if it fails. -/
def Carries (p : InPlace σ α) (f : σ → Except Halt (α × σ)) : Prop :=
  ∀ s slot, p.run (s, slot) = settled s slot (f s)

theorem run_bind {p : InPlace σ α} {q : α → InPlace σ β} {w : σ × ErrorSlot} :
    (p >>= q).run w = match p.run w with
      | (.ok a, w) => (q a).run w
      | (.error stop, w) => (.error stop, w) := by
  change (ExceptT.bindCont q (p.run w).1) (p.run w).2 = _
  rcases p.run w with ⟨stop | a, w⟩ <;> rfl

variable {p : InPlace σ α} {q : α → InPlace σ β} {f : σ → Except Halt (α × σ)}

theorem carries_pure {a : α} : Carries (pure a : InPlace σ α) fun s => .ok (a, s) :=
  fun _ _ => rfl

theorem carries_fail {why : Refusal} :
    Carries (fail why : InPlace σ α) fun _ => Engine.refuse why :=
  fun _ _ => rfl

theorem carries_change {g : σ → σ} : Carries (change g) fun s => .ok ((), g s) :=
  fun _ _ => rfl

theorem carries_check {look : σ → Except Halt α} :
    Carries (check look) fun s => (look s).map (·, s) := by
  intro s slot
  rw [show (check look).run (s, slot) = (ofExcept (look s)).run (s, slot) from rfl]
  dsimp only
  rcases look s with (why | -) | a <;> rfl

theorem Carries.after {look : σ → Except Halt α} {rest : α → σ → Except Halt (β × σ)}
    (first : Carries p fun s => (look s).map (·, s)) (next : ∀ a, Carries (q a) (rest a)) :
    Carries (p >>= q) fun s => look s >>= fun a => rest a s := by
  intro s slot
  rw [run_bind, first]
  dsimp only
  rcases look s with (why | -) | a
  · rfl
  · rfl
  · exact next a s slot

theorem Carries.then_sure {answer : α → σ → β} {g : α → σ → σ} (first : Carries p f)
    (next : ∀ a, Carries (q a) fun s => .ok (answer a s, g a s)) :
    Carries (p >>= q) fun s => f s >>= fun (a, s) => .ok (answer a s, g a s) := by
  intro s slot
  rw [run_bind, first]
  dsimp only
  rcases f s with (why | -) | ⟨a, s'⟩
  · rfl
  · rfl
  · exact next a s' slot

theorem carries_current {q : σ → InPlace σ β} {f : σ → Except Halt (β × σ)}
    (each : ∀ s slot, (q s).run (s, slot) = settled s slot (f s)) :
    Carries (current >>= q) f :=
  each

theorem Carries.congr {f' : σ → Except Halt (α × σ)} (h : Carries p f) (same : ∀ s, f s = f' s) :
    Carries p f' :=
  fun s slot => by rw [h, same]

theorem Carries.ite {c : Prop} [Decidable c] {p' : InPlace σ α} {f' : σ → Except Halt (α × σ)}
    (yes : c → Carries p f) (no : ¬ c → Carries p' f') :
    Carries (if c then p else p') fun s => if c then f s else f' s := by
  by_cases h : c
  · simpa only [if_pos h] using yes h
  · simpa only [if_neg h] using no h

/-- A part of the state that steps change without breaking off. -/
theorem Carries.within {part : σ → τ} {fill : σ → τ → σ} {p : InPlace τ α} {answer : τ → α}
    {g : τ → τ} (h : Carries p fun t => .ok (answer t, g t)) :
    Carries (within part fill p) fun s => .ok (answer (part s), fill s (g (part s))) := by
  intro s slot
  have ran := h (part s) slot
  simp only [settled] at ran ⊢
  change (let (r, t, slot) := p.run (part s, slot); (r, fill s t, slot)) = _
  rw [ran]

theorem carries_forM {as : List α} {g : σ → α → σ} :
    Carries (as.forM fun a => change (g · a)) fun s => .ok ((), as.foldl g s) := by
  induction as with
  | nil => exact carries_pure
  | cons a as ih => exact carries_change.then_sure fun _ => ih

end Carries

/-! ### Writing -/

section Writing

variable {α : Type} {thread : ThreadId} {txn : Option Handle}

/-- Whether steps on a snapshot break off or not, the writer slot is released. -/
theorem carries_writing {p : InPlace Snapshot α}
    {change : Snapshot → Except Refusal (α × Snapshot)}
    (h : Carries p fun s => (change s).mapError .refused) :
    Carries (writing thread txn p) fun e => e.write thread txn change := by
  intro e slot
  cases txn with
  | some txn =>
      rw [writing, run_bind, carries_check]
      dsimp only [Engine.write]
      cases found : e.writeTxn txn with
      | error halt => cases halt <;> rfl
      | ok t =>
          have ran := h t.state slot
          change (let (r, state, slot) := p.run (t.state, slot)
            (r, { e with txns := e.txns.insert txn { t with state } }, slot)) = _
          rw [ran]
          dsimp only [bind, Except.bind]
          cases change t.state with
          | ok done => rfl
          | error why =>
              -- the snapshot that is put back is the one that was there
              obtain ⟨there, -⟩ := Engine.writeTxn_eq_ok.mp found
              have same : e.txns.insert txn t = e.txns := by
                ext txn' : 1
                grind
              simp only [mapError_error, settled, same]
  | none =>
      have ran := h e.committed slot
      have claimed : (claimWriter thread).run (e, slot) = settled e slot
          ((e.requireWriterFree thread).map fun _ => ((), { e with writer := some thread })) := by
        rw [claimWriter, run_bind, carries_check]
        dsimp only
        rcases e.requireWriterFree thread with (why | -) | _ <;> rfl
      rw [writing, run_bind, claimed]
      dsimp only [Engine.write]
      cases free : e.requireWriterFree thread with
      | error halt => cases halt <;> rfl
      | ok _ =>
          have unclaimed := Engine.requireWriterFree_eq_ok.mp free
          change (let (r, committed, slot) := p.run (e.committed, slot)
            (r, { e with committed, writer := none }, slot)) = _
          rw [ran]
          dsimp only [bind, Except.bind]
          cases change e.committed with
          | ok done => simp only [mapError_ok, settled, ← unclaimed]; rfl
          | error why => simp only [mapError_error, settled, ← unclaimed]

end Writing

/-! ### Sequences -/

section Sequences

variable {e : Engine} {entity : EntityId} {id : ObjectId}

theorem lastId_touched : (touched entity e).lastId entity = e.lastId entity := by
  rw [Engine.lastId, touched, Std.ExtTreeMap.getD_insertIfNew]
  split
  case isTrue new => exact (Std.ExtTreeMap.getD_eq_fallback new.2).symm
  case isFalse => rfl

theorem mem_sequences (begun : e.lastId entity ≠ 0) : entity ∈ e.sequences := by
  by_contra missing
  exact begun (Std.ExtTreeMap.getD_eq_fallback missing)

theorem touched_begun (begun : e.lastId entity ≠ 0) : touched entity e = e := by
  have there := mem_sequences begun
  have same : e.sequences.insertIfNew entity 0 = e.sequences := by
    ext entity' : 1
    grind
  rw [touched, same]

theorem reached_touched (nonzero : id ≠ 0) :
    reached entity id (touched entity e) = e.setLastId entity (max (e.lastId entity) id) := by
  have largest : max (e.lastId entity) id ≠ 0 := by
    rw [← UInt64.toNat_inj.ne, toNat_max]
    have := UInt64.toNat_inj.ne.mpr nonzero
    simp only [UInt64.toNat_zero] at this ⊢
    omega
  rw [reached, lastId_touched, Engine.setLastId, if_neg largest]
  split
  case isTrue behind =>
    have same : max (e.lastId entity) id = id := if_pos (UInt64.le_of_lt behind)
    have covered : (e.sequences.insertIfNew entity 0).insert entity id =
        e.sequences.insert entity id := by
      ext entity' : 1
      grind
    rw [same, touched, covered]
  case isFalse ahead =>
    have same : max (e.lastId entity) id = e.lastId entity := by
      rw [← UInt64.toNat_inj, toNat_max]
      rw [UInt64.lt_iff_toNat_lt] at ahead
      omega
    rw [same] at largest ⊢
    have there := mem_sequences largest
    have covered : e.sequences.insert entity (e.lastId entity) = e.sequences := by
      rw [Engine.lastId, Std.ExtTreeMap.getD_eq_getD_getElem?]
      ext entity' : 1
      grind
    rw [touched_begun largest, covered]

theorem reach_run {α : Type} {a : α} {slot : ErrorSlot} (nonzero : id ≠ 0) :
    (do change (reached entity id); return a : InPlace Engine α).run (touched entity e, slot) =
      (.ok a, e.setLastId entity (max (e.lastId entity) id), slot) := by
  rw [← reached_touched nonzero]
  rfl

theorem draw_run {α : Type} {a : α} {slot : ErrorSlot} (ahead : e.lastId entity < id) :
    (do change (reached entity id); return a : InPlace Engine α).run (touched entity e, slot) =
      (.ok a, e.setLastId entity id, slot) := by
  have nonzero : id ≠ 0 := by
    rintro rfl
    exact UInt64.not_lt_zero ahead
  rw [reach_run nonzero, show max (e.lastId entity) id = id from if_pos (UInt64.le_of_lt ahead)]

end Sequences

/-! ### Every call -/

section Calls

variable {thread : ThreadId} {txn : Option Handle} {entity : EntityId} {relation : RelationId}

theorem changing_bind {α : Type} {x : Except Halt α} {f : α → Except Halt Engine} :
    Engine.changing (x >>= f) = x >>= fun a => Engine.changing (f a) := by
  cases x <;> rfl

theorem carries_defineRelation {source target : EntityId} :
    Carries (defineRelation relation source target) fun e =>
      Engine.changing (e.defineRelation relation source target) := by
  refine (carries_check.after fun _ => carries_check.after fun _ => carries_change).congr
    fun e => ?_
  simp only [Engine.defineRelation, changing_bind]
  rfl

theorem carries_begin {mode : TxnMode} : Carries (begin thread mode) (·.begin thread mode) := by
  intro e slot
  cases mode with
  | read => rfl
  | write =>
      rw [begin, if_pos rfl, run_bind, claimWriter, run_bind, carries_check]
      simp only [Engine.begin]
      rcases e.requireWriterFree thread with (why | -) | _ <;> rfl

theorem close_run {e : Engine} {slot : ErrorSlot} {txn : Handle} :
    (close txn).run (e, slot) = match e.openTxn txn with
      | .ok t => (.ok t, { e with txns := e.txns.erase txn }, slot)
      | .error halt => settled e slot (.error halt) := by
  rw [show (close txn).run (e, slot) = (ofExcept (e.openTxn txn)).run
    ({ e with txns := e.txns.erase txn }, slot) from rfl]
  simp only [Engine.openTxn]
  cases found : e.txns[txn]? with
  | some t => rfl
  | none =>
      have same : e.txns.erase txn = e.txns := by
        ext txn' : 1
        grind
      rw [same]
      rfl

theorem carries_commit {txn : Handle} :
    Carries (commit txn) fun e => Engine.changing (e.commit txn) := by
  intro e slot
  rw [commit, run_bind, close_run]
  simp only [Engine.commit]
  rcases e.openTxn txn with (why | -) | ⟨mode, s⟩
  · rfl
  · rfl
  · cases mode <;> rfl

theorem carries_abort {txn : Handle} :
    Carries (abort txn) fun e => Engine.changing (e.abort txn) := by
  intro e slot
  rw [abort, run_bind, close_run]
  simp only [Engine.abort]
  rcases e.openTxn txn with (why | -) | ⟨mode, s⟩
  · rfl
  · rfl
  · cases mode <;> rfl

/-- A sequence that is begun on the way is exhausted only if it was there. -/
theorem carries_reserveId {candidate : ObjectId} :
    Carries (reserveId txn entity candidate) (·.idForPut txn entity candidate) := by
  refine carries_check.after fun _ => carries_check.after fun _ e slot => ?_
  rw [run_bind, carries_change]
  simp only [settled]
  rw [run_bind]
  change (ite (candidate = 0) (_ : InPlace Engine ObjectId) _).run _ = _
  rw [lastId_touched]
  by_cases unsaved : candidate = 0
  · rw [if_pos unsaved, if_pos unsaved]
    by_cases full : (e.lastId entity).toNat = Engine.maxId
    · have begun : e.lastId entity ≠ 0 := by
        rintro zero
        rw [zero] at full
        cases full
      rw [if_pos full, if_pos full, touched_begun begun]
      rfl
    · have ahead : e.lastId entity < e.lastId entity + 1 := by
        have bound := (e.lastId entity).toNat_lt
        simp only [Engine.maxId] at full
        rw [UInt64.lt_iff_toNat_lt, UInt64.toNat_add, UInt64.toNat_one]
        omega
      rw [if_neg full, if_neg full]
      exact draw_run ahead
  · rw [if_neg unsaved, if_neg unsaved]
    exact reach_run unsaved

theorem carries_idsForPut {count : Nat} :
    Carries (idsForPut txn entity count) (·.idsForPut txn entity count) := by
  refine .ite (fun _ => carries_fail) fun size => ?_
  refine carries_check.after fun _ => carries_check.after fun _ e slot => ?_
  rw [run_bind, carries_change]
  simp only [settled]
  rw [run_bind]
  change (ite (((touched entity e).lastId entity).toNat + count ≤ Engine.maxId)
    (_ : InPlace Engine ObjectId) _).run _ = _
  rw [lastId_touched]
  by_cases room : (e.lastId entity).toNat + count ≤ Engine.maxId
  · have ahead : e.lastId entity < .ofNat ((e.lastId entity).toNat + count) := by
      rw [UInt64.lt_iff_toNat_lt, Engine.toNat_last_add room]
      omega
    rw [if_pos room, if_pos room]
    exact draw_run ahead
  · have begun : e.lastId entity ≠ 0 := by
      rintro zero
      rw [zero] at room
      simp only [Engine.maxId, maxIdsPerBlock, UInt64.toNat_zero] at room size
      omega
    rw [if_neg room, if_neg room, touched_begun begun]
    rfl

theorem carries_put {id : ObjectId} {record : Bytes} {mode : PutMode} :
    Carries (put thread txn entity id record mode) fun e =>
      Engine.changing (e.put thread txn entity id record mode) := by
  have stored : Carries (do
      check fun s => (Snapshot.checkPut mode entity id (s.contains entity id)).mapError .refused
      onTable entity (change (·.insert id record)) : InPlace Snapshot Unit) fun s => Except.mapError
        Halt.refused (do
          Snapshot.checkPut mode entity id (s.contains entity id)
          return ((), s.insert entity id record)) := by
    refine (carries_check.after fun _ => carries_change.within).congr fun s => ?_
    rcases Snapshot.checkPut mode entity id (s.contains entity id) with _ | _ <;> rfl
  refine (carries_check.after fun _ => (carries_writing stored).then_sure fun _ =>
    carries_change).congr fun e => ?_
  simp only [Engine.put, changing_bind]
  rfl

theorem carries_checkPutMany {mode : PutMode} {seen : IdSet} {ids : List ObjectId} :
    Carries (checkPutMany mode entity seen ids) fun s =>
      ((s.checkPutMany mode entity seen ids).mapError Halt.refused).map (·, s) := by
  induction ids generalizing seen with
  | nil => exact carries_pure
  | cons id ids ih =>
      refine (carries_check.after fun _ => ih).congr fun s => ?_
      rw [Snapshot.checkPutMany]
      rcases Snapshot.checkPut mode entity id (s.contains entity id || seen.contains id) with _ | _
        <;> rfl

theorem carries_putMany {ids : List ObjectId} {records : List Bytes} {mode : PutMode} :
    Carries (putMany thread txn entity ids records mode) fun e =>
      Engine.changing (e.putMany thread txn entity ids records mode) := by
  have stored : Carries (do
      checkPutMany mode entity ∅ ids
      onTable entity ((ids.zip records).forM fun (id, record) => change (·.insert id record)) :
        InPlace Snapshot Unit) fun s => Except.mapError Halt.refused (do
          s.checkPutMany mode entity ∅ ids
          return ((), s.insertMany entity (ids.zip records))) := by
    refine (carries_checkPutMany.after fun _ => carries_forM.within).congr fun s => ?_
    rcases s.checkPutMany mode entity ∅ ids with _ | _ <;> rfl
  refine (carries_check.after fun _ => carries_check.after fun _ =>
    .ite (fun _ => carries_fail) fun even => (carries_writing stored).then_sure fun _ =>
      carries_change).congr fun e => ?_
  simp only [Engine.putMany, changing_bind]
  refine bind_congr fun _ => bind_congr fun _ => ?_
  by_cases even : ids.length = records.length
  · rw [if_neg (not_not.mpr even), if_pos even, changing_bind]
    rfl
  · rw [if_pos even, if_neg even]
    rfl

theorem carries_dropped {α : Type} {p : Engine → InPlace Snapshot α}
    (drop : Engine → Snapshot → Except Refusal (α × Snapshot))
    (dropped : ∀ e, Carries (p e) fun s => (drop e s).mapError .refused) :
    Carries (do
      check (·.requireEntity entity)
      let e ← current
      writing thread txn (p e)) fun e =>
        (e.requireEntity entity >>= fun _ => e.write thread txn (drop e)) :=
  carries_check.after fun _ => carries_current fun e slot => carries_writing (dropped e) e slot

theorem carries_remove {id : ObjectId} : Carries (remove thread txn entity id) fun e =>
    Engine.changing (e.remove thread txn entity id) := by
  refine (carries_dropped (fun e s => if s.contains entity id then
    .ok ((), (s.eraseMany entity [id]).unlinkObject (e.outgoing entity) (e.incoming entity) id)
    else .error .missing) fun e => ?_).congr fun e => ?_
  · refine (carries_check.after fun _ => carries_change.within.then_sure fun _ =>
      carries_forM).congr fun s => ?_
    split <;> rfl
  · simp only [Engine.remove, changing_bind]
    refine bind_congr fun _ => ?_
    rcases e.write thread txn _ with _ | ⟨_, _⟩ <;> rfl

theorem carries_removeMany {ids : List ObjectId} :
    Carries (removeMany thread txn entity ids) (·.removeMany thread txn entity ids) := by
  refine carries_dropped _ fun e => carries_current fun s slot => ?_
  exact (carries_forM.within.then_sure fun _ => carries_forM.then_sure fun _ => carries_pure) s slot

theorem carries_removeAll :
    Carries (removeAll thread txn entity) (·.removeAll thread txn entity) := by
  refine carries_dropped _ fun e => carries_current fun s slot => ?_
  exact (carries_change.within.then_sure fun _ => carries_forM.then_sure fun _ => carries_pure) s slot

theorem carries_relPut {source target : ObjectId} :
    Carries (relPut thread txn relation source target) fun e =>
      Engine.changing (e.relPut thread txn relation source target) := by
  have linked : Carries (change (·.link relation source target)) fun s : Snapshot =>
      Except.mapError Halt.refused (.ok ((), s.link relation source target)) := carries_change
  refine (carries_check.after fun _ => .ite (fun _ => carries_fail) fun _ =>
    (carries_writing linked).then_sure fun _ => carries_change).congr fun e => ?_
  simp only [Engine.relPut, changing_bind]
  refine bind_congr fun _ => ?_
  split
  · rfl
  · rw [changing_bind]
    rfl

theorem carries_relRemove {source target : ObjectId} :
    Carries (relRemove thread txn relation source target) fun e =>
      Engine.changing (e.relRemove thread txn relation source target) := by
  have unlinked : Carries (change (·.unlink relation source target)) fun s : Snapshot =>
      Except.mapError Halt.refused (.ok ((), s.unlink relation source target)) := carries_change
  refine (carries_check.after fun _ => (carries_writing unlinked).then_sure fun _ =>
    carries_change).congr fun e => ?_
  simp only [Engine.relRemove, changing_bind]
  rfl

theorem carries_reading {α : Type} {look : Engine → Except Halt α} :
    Carries (check look) fun e => e.reading (look e) :=
  carries_check

theorem idForPut_run {e : Engine} {slot : ErrorSlot} {candidate : ObjectId} :
    (idForPut txn entity candidate).run (e, slot) =
      match settled e slot (e.idForPut txn entity candidate) with
      | (.ok id, w) => (.ok id, w)
      | (.error _, w) => (.ok 0, w) := by
  rw [← carries_reserveId]
  change (match (reserveId txn entity candidate).run (e, slot) with
    | (r, w) => (match r with
      | .ok id => (pure id : InPlace Engine ObjectId)
      | .error _ => pure 0).run w) = _
  rcases (reserveId txn entity candidate).run (e, slot) with ⟨_ | _, _⟩ <;> rfl

end Calls

/-- What the caller is told of a call: handing out an id answers 0 if it fails. -/
def told : (call : Call) → Except Stop call.Answer → Except Stop call.Answer
  | .idForPut .., .error _ => .ok 0
  | _, r => r

/-- In place every call comes to what it comes to on an engine that is thrown away if it fails. -/
theorem perform_run {thread : ThreadId} {call : Call} {e : Engine} {slot : ErrorSlot} :
    (perform thread call).run (e, slot) =
      let (r, w) := settled e slot (e.perform thread call)
      (told call r, w) := by
  cases call with
  | defineEntity entity name => rfl
  | defineRelation relation source target => exact carries_defineRelation e slot
  | begin mode => exact carries_begin e slot
  | commit txn => exact carries_commit e slot
  | abort txn => exact carries_abort e slot
  | idForPut txn entity candidate =>
      refine idForPut_run.trans ?_
      rw [Engine.perform]
      rcases settled e slot (e.idForPut txn entity candidate) with ⟨_ | _, _⟩ <;> rfl
  | idsForPut txn entity count => exact carries_idsForPut e slot
  | put txn entity id record mode => exact carries_put e slot
  | putMany txn entity ids records mode => exact carries_putMany e slot
  | remove txn entity id => exact carries_remove e slot
  | removeMany txn entity ids => exact carries_removeMany e slot
  | removeAll txn entity => exact carries_removeAll e slot
  | relPut txn relation source target => exact carries_relPut e slot
  | relRemove txn relation source target => exact carries_relRemove e slot
  | get | getMany | getAll | visitMany | visitAll | count | isEmpty | contains | containsMany
  | relGetIds => exact carries_reading e slot

end InPlace

end ObjectStore
