import ObjectStore.Proofs.Engine.FreshIds
import ObjectStore.Proofs.Store.Allocation
import ObjectStore.Proofs.Store.QueuedWrites
import ObjectStore.Proofs.Store.Transaction
import ObjectStore.Store.Removal

/-! # Writing at once and writing later

Putting and removing an object have deferred counterparts. Both begin alike: they settle under
which id, and what is written of the object. Then the one makes its engine write where the other
hands it to the worker, and both end alike, giving a new id to the object.
-/

namespace ObjectStore

/-- What is settled of a write before it is made. -/
structure Prepared where
  /-- The id the object carries. -/
  current : ObjectId
  /-- The id it is written under. -/
  id : ObjectId
  record : Bytes := []

namespace Editing

variable {σ α β : Type}

theorem ofStore_bind {program : StoreM α} {f : α → StoreM β} :
    (ofStore (program >>= f) : Editing σ β) = ofStore program >>= fun a => ofStore (f a) := by
  funext objects s
  simp only [ofStore, bind, ExceptT.bind, ExceptT.mk, ExceptT.bindCont, StateT.bind, ExceptT.run]
  cases program s with
  | mk r s₁ => cases r <;> rfl

theorem ofStore_pure {a : α} : (ofStore (pure a) : Editing σ α) = pure a := rfl

end Editing

namespace Box

variable {T : Type} {b : Box T} {mode : PutMode}

/-- Settle the id and the record of the object at hand. -/
def prepare (b : Box T) (mode : PutMode) : Editing T Prepared := do
  StoreM.ensureOpen
  let current ← b.currentId
  if mode = .update ∧ current = 0 then
    StoreM.misuse (.updateUnsaved b.name)
  let id ← match mode with
    | .update => pure current
    | _ => (Store.allocateOne none b.entity current : HostM ObjectId)
  let record ← b.encode id (← Editing.current)
  return { current, id, record }

/-- Give the object at hand the id it is written under, and answer it. -/
def finish (b : Box T) (p : Prepared) : Editing T ObjectId := do
  if p.id ≠ p.current then b.assignId p.id
  return p.id

/-- The engine write of a removal. -/
def erase (b : Box T) (id : ObjectId) : StoreM Unit := do
  match ← HostM.perform (.remove none b.entity id) with
  | .done _ => return
  | .failed .notFound _ => throw (.engine "remove" .notFound (b.missingMessage id))
  | .failed status _ => throw (← HostM.failure "remove" status)

theorem removeId_eq {id : ObjectId} : b.removeId none id = (do
    StoreM.ensureOpen
    b.erase id) := by
  unfold removeId erase
  refine bind_congr fun _ => bind_congr fun reply => ?_
  cases reply with
  | done answer => rfl
  | failed status answer => cases status <;> rfl

variable (simple : b.descriptor.hasRelations = false)
include simple

theorem putObject_eq : b.putObject none mode = (do
    let p ← b.prepare mode
    HostM.request "put" (.put none b.entity p.id p.record mode)
    b.finish p) := by
  unfold putObject prepare write finish
  cases mode with
  | update =>
      simp only [simple, bind_assoc, pure_bind, Option.map_none, Option.isNone_none,
        Bool.false_eq_true, and_false, if_false, true_and]
      refine bind_congr fun _ => bind_congr fun current => ?_
      split <;> simp only [bind_assoc, pure_bind]
  | put | insert | putNew =>
      simp only [simple, bind_assoc, pure_bind, Option.map_none, Option.isNone_none,
        Bool.false_eq_true, and_false, if_false, reduceCtorEq, false_and]

theorem putLater_eq : b.putLater mode = (do
    let p ← b.prepare mode
    Store.submit (.put b.entity p.id p.record mode)
    b.finish p) := by
  unfold putLater prepare finish
  cases mode with
  | update =>
      simp only [simple, bind_assoc, pure_bind, Bool.false_eq_true, if_false, true_and]
      refine bind_congr fun _ => bind_congr fun current => ?_
      split <;> simp only [bind_assoc, pure_bind]
  | put | insert | putNew =>
      simp only [simple, bind_assoc, pure_bind, Bool.false_eq_true, if_false, reduceCtorEq,
        false_and]

end Box

/-- A call that writes one object and has a deferred counterpart. -/
inductive WriteCall : Type 1 where
  | put {T : Type} (b : Box T) (mode : PutMode) (object : T)
  | remove {T : Type} (b : Box T) (object : T)
  | removeId {T : Type} (b : Box T) (id : ObjectId)

namespace WriteCall

/-- What a call is given to change. -/
@[reducible] def Object : WriteCall → Type
  | @put T .. => T
  | _ => Unit

@[reducible] def Answer : WriteCall → Type
  | put .. => ObjectId
  | _ => Unit

/-- The object as it is before the call. -/
def object : (c : WriteCall) → c.Object
  | put _ _ object => object
  | remove .. | removeId .. => ()

/-- The entity type has no relations. -/
def Simple : WriteCall → Prop
  | put b .. | remove b _ | removeId b _ => b.descriptor.hasRelations = false

/-- Write at once. -/
def atOnce : (c : WriteCall) → Editing c.Object c.Answer
  | put b mode _ => b.putObject none mode
  | remove b object => b.remove object
  | removeId b id => b.removeId none id

/-- Let the worker write later. -/
def later : (c : WriteCall) → Editing c.Object c.Answer
  | put b mode _ => b.putLater mode
  | remove b object => b.removeLater object
  | removeId b id => b.removeIdLater id

/-- What comes before the write. -/
def prepare : (c : WriteCall) → Editing c.Object Prepared
  | put b mode _ => b.prepare mode
  | remove b object => (do
    let id ← b.idOf object
    StoreM.ensureOpen
    return { current := id, id } : StoreM Prepared)
  | removeId _ id => (do
    StoreM.ensureOpen
    return { current := id, id } : StoreM Prepared)

/-- The write itself, as it is queued. -/
def write (p : Prepared) : WriteCall → QueuedWrite
  | put b mode _ => .put b.entity p.id p.record mode
  | remove b _ | removeId b _ => .remove b.entity p.id

/-- Make the engine write. -/
def commit (p : Prepared) : WriteCall → StoreM Unit
  | put b mode _ => HostM.request "put" (.put none b.entity p.id p.record mode)
  | remove b _ | removeId b _ => b.erase p.id

/-- What comes after the write. -/
def finish (p : Prepared) : (c : WriteCall) → Editing c.Object c.Answer
  | put b _ _ => b.finish p
  | remove .. | removeId .. => pure ()

variable {c : WriteCall}

theorem atOnce_eq (simple : c.Simple) : c.atOnce = (do
    let p ← c.prepare
    c.commit p
    c.finish p) := by
  cases c with
  | put b mode object => exact Box.putObject_eq simple
  | remove b object =>
      change Editing.ofStore (b.idOf object >>= fun id => b.removeId none id) =
        Editing.ofStore (b.idOf object >>= fun id => StoreM.ensureOpen >>= fun _ =>
          pure { current := id, id }) >>= fun p : Prepared =>
            Editing.ofStore (b.erase p.id) >>= fun _ => pure ()
      simp only [Box.removeId_eq]
      simp only [Editing.ofStore_bind, Editing.ofStore_pure, bind_assoc, pure_bind, bind_pure_unit]
  | removeId b id =>
      change Editing.ofStore (b.removeId none id) =
        Editing.ofStore (StoreM.ensureOpen >>= fun _ => pure { current := id, id }) >>=
          fun p : Prepared => Editing.ofStore (b.erase p.id) >>= fun _ => pure ()
      simp only [Box.removeId_eq, Editing.ofStore_bind, Editing.ofStore_pure, bind_assoc, pure_bind,
        bind_pure_unit]

theorem later_eq (simple : c.Simple) : c.later = (do
    let p ← c.prepare
    Store.submit (c.write p)
    c.finish p) := by
  cases c with
  | put b mode object => exact Box.putLater_eq simple
  | remove b object =>
      change Editing.ofStore (b.idOf object >>= fun id => StoreM.ensureOpen >>= fun _ =>
          Store.submit (.remove b.entity id)) =
        Editing.ofStore (b.idOf object >>= fun id => StoreM.ensureOpen >>= fun _ =>
          pure { current := id, id }) >>= fun p : Prepared =>
            Editing.ofStore (Store.submit (.remove b.entity p.id)) >>= fun _ => pure ()
      simp only [Editing.ofStore_bind, Editing.ofStore_pure, bind_assoc, pure_bind, bind_pure_unit]
  | removeId b id =>
      change Editing.ofStore (StoreM.ensureOpen >>= fun _ =>
          Store.submit (.remove b.entity id)) =
        Editing.ofStore (StoreM.ensureOpen >>= fun _ => pure { current := id, id }) >>=
          fun p : Prepared => Editing.ofStore (Store.submit (.remove b.entity p.id)) >>=
            fun _ => pure ()
      simp only [Editing.ofStore_bind, Editing.ofStore_pure, bind_assoc, pure_bind, bind_pure_unit]

end WriteCall

/-! ## What the parts of a call end in -/

variable {store : Store} {e e' : Engine}

namespace Engine

variable {entity : EntityId} {candidate id : ObjectId}

theorem idForPut_alone (done : e.idForPut none entity candidate = .ok (id, e')) :
    e' = { e with sequences := e'.sequences } ∧ ∀ committed : Snapshot,
      ({ e with committed } : Engine).idForPut none entity candidate =
        .ok (id, { e with committed, sequences := e'.sequences }) := by
  obtain ⟨known, writable, granted⟩ := idForPut_eq_ok.mp done
  split at granted
  · rename_i zero
    obtain ⟨room, rfl, rfl⟩ := granted
    refine ⟨rfl, fun committed => idForPut_eq_ok.mpr ⟨known, rfl, ?_⟩⟩
    rw [if_pos zero]
    exact ⟨room, rfl, rfl⟩
  · rename_i zero
    obtain ⟨rfl, rfl⟩ := granted
    refine ⟨rfl, fun committed => idForPut_eq_ok.mpr ⟨known, rfl, ?_⟩⟩
    rw [if_neg zero]
    exact ⟨rfl, rfl⟩

/-- An id other than the candidate is drawn from the sequence. -/
theorem lastId_lt_granted (granted : e.idForPut none entity candidate = .ok (id, e'))
    (new : id ≠ candidate) : e.lastId entity < id := by
  obtain ⟨-, -, drawn⟩ := idForPut_eq_ok.mp granted
  obtain rfl : candidate = 0 := by
    by_cases zero : candidate = 0
    · exact zero
    · rw [if_neg zero] at drawn
      exact absurd drawn.1 new
  exact (@lastId_lt_drawn _ _ callerThread ⟨.idForPut none entity 0, id⟩ _ _ granted .single).1

theorem put_granted {mode : PutMode} {s : Snapshot} {record : Bytes}
    (granted : e.idForPut none entity candidate = .ok (id, e')) (mode_ne : mode ≠ .update)
    (unused : s.contains entity id = false) :
    ∃ s', (QueuedWrite.put entity id record mode).effect e s = .ok s' := by
  obtain ⟨known, -, -⟩ := idForPut_eq_ok.mp granted
  have nonzero : id ≠ 0 := idForPut_ne_zero granted
  have passed : Snapshot.checkPut mode entity id (s.contains entity id) = .ok () :=
    Snapshot.checkPut_eq_ok.mpr
      ⟨nonzero, fun _ => unused, fun update => absurd update mode_ne⟩
  refine ⟨s.insert entity id record, ?_⟩
  rw [QueuedWrite.effect, if_pos known, passed]
  rfl

theorem idForPut_refused {halt : Halt} (refused : e.idForPut none entity candidate = .error halt) :
    ∃ why message, why.detail? = some message ∧ ∀ committed : Snapshot,
      ({ e with committed } : Engine).idForPut none entity candidate = .error (.refused why) := by
  cases known : e.entities.contains entity with
  | false =>
      refine ⟨.unknownEntity entity, _, rfl, fun committed => ?_⟩
      simp only [idForPut, requireEntity, known, Bool.false_eq_true, if_false]
      rfl
  | true =>
      simp only [idForPut, requireEntity, known, if_true, requireWritable, bind, Except.bind]
        at refused ⊢
      split at refused
      · rename_i zero
        split at refused
        · rename_i last
          refine ⟨.exhausted entity, _, rfl, fun committed => ?_⟩
          rw [if_pos zero]
          exact if_pos last
        · cases refused
      · cases refused

end Engine

namespace Store

theorem allocateOne_alone (e : Engine) (entity : EntityId) (candidate : ObjectId) :
    (∃ id sequences, e.idForPut none entity candidate = .ok (id, { e with sequences }) ∧
      ∀ committed, Ends (allocateOne none entity candidate) { e with committed } (.ok id)
        { e with committed, sequences }) ∨
    ∃ why, ∀ committed, Ends (allocateOne none entity candidate) { e with committed } (.error why)
      { e with committed } := by
  cases ended : e.idForPut none entity candidate with
  | ok granted =>
      obtain ⟨id, e'⟩ := granted
      obtain ⟨moved, alone⟩ := Engine.idForPut_alone ended
      refine .inl ⟨id, e'.sequences, ?_, fun committed => allocateOne_ends (alone committed)⟩
      rw [← moved]
  | error halt =>
      obtain ⟨why, message, detail, alone⟩ := Engine.idForPut_refused ended
      exact .inr ⟨_, fun committed => allocateOne_refused (alone committed) detail⟩

theorem submit_ends {write : QueuedWrite} (taking : store.queue.shut = false) :
    Ends (submit write) (store, e) (.ok ())
      ({ store with queue := { store.queue with pending := store.queue.pending ++ [write] } },
        e) := by
  rintro s ⟨shows, same⟩
  have queue : s.store.queue = store.queue := by rw [same]
  have taken : s.store.queue.submit write =
      .ok { s.store.queue with pending := s.store.queue.pending ++ [write] } := by
    simp only [Queue.submit, queue, taking, Bool.false_eq_true, if_false]
  have ran : submit write s = (.ok (), { s with store := { s.store with
      queue := { s.store.queue with pending := s.store.queue.pending ++ [write] } } }) := by
    simp only [submit, getThe, bind, ExceptT.bind, ExceptT.bindCont, ExceptT.mk, StateT.bind,
      MonadStateOf.get, liftM, monadLift, MonadLift.monadLift, ExceptT.lift, Functor.map,
      StateT.map, StateT.get, pure, taken]
    rfl
  refine ⟨_, ⟨?_, ?_⟩, ?_, rfl⟩ <;> rw [show Runs.run (submit write).run s = _ from ran]
  · exact shows
  · rw [same]

end Store

namespace Box

variable {T : Type} {b : Box T} {mode : PutMode} {object : T} {current id : ObjectId} {p : Prepared}

theorem currentId_reads {v : Store × Engine} :
    Ends b.currentId (object, v) (b.binding.id object) (object, v) :=
  Ends.bind Editing.current_ends (Ends.ofStore idOf_reads)

/-- The record of the object at hand, or why there is none. -/
def recordOf (b : Box T) (object : T) (current id : ObjectId) : Except StoreError Prepared :=
  (Record.made id (b.binding.body object)).map fun record => { current, id, record }

theorem recordOf_ends : Ends (do
      let record ← b.encode id (← Editing.current)
      return { current, id, record } : Editing T Prepared)
    (object, store, e) (b.recordOf object current id) (object, store, e) := by
  apply Ends.bind Editing.current_ends
  have encoded : Ends (b.encode id object) (store, e) (Record.made id (b.binding.body object))
      (store, e) := encode_makes
  unfold recordOf
  cases ended : Record.made id (b.binding.body object) with
  | ok record =>
      rw [ended] at encoded
      exact Ends.bind (Ends.ofStore encoded) Ends.pure
  | error why =>
      rw [ended] at encoded
      exact Ends.bind_error (Ends.ofStore encoded) ⟨rfl, rfl⟩

theorem recordOf_eq_ok (written : b.recordOf object current id = .ok p) :
    p.current = current ∧ p.id = id := by
  unfold recordOf at written
  cases ended : Record.made id (b.binding.body object) with
  | ok record =>
      rw [ended] at written
      cases written
      exact ⟨rfl, rfl⟩
  | error why =>
      rw [ended] at written
      cases written

theorem finish_ends (b : Box T) (p : Prepared) (object : T) : ∃ r after,
    (∀ v, Ends (b.finish p) (object, v) r (after, v)) ∧
      (p.id = p.current → r = .ok p.id ∧ after = object) := by
  by_cases same : p.id = p.current
  · refine ⟨.ok p.id, object, fun v => ?_, fun _ => ⟨rfl, rfl⟩⟩
    unfold finish
    rw [if_neg (not_not_intro same)]
    exact Ends.pure
  · cases given : b.binding.setId object p.id with
    | ok after =>
        refine ⟨.ok p.id, after, fun v => ?_, fun equal => absurd equal same⟩
        have assigned : Ends (b.assignId p.id) (object, v) (.ok ()) (after, v) := by
          apply Ends.bind Editing.current_ends
          simp only [given]
          exact Editing.replace_ends
        unfold finish
        rw [if_pos same]
        exact assigned.bind Ends.pure
    | error why =>
        refine ⟨.error why, object, fun v => ?_, fun equal => absurd equal same⟩
        have refused : Ends (b.assignId p.id) (object, v) (.error why) (object, v) := by
          apply Ends.bind Editing.current_ends
          simp only [given]
          exact Ends.throw
        unfold finish
        rw [if_pos same]
        exact refused.bind_error ⟨rfl, rfl⟩

theorem erase_refused {why : Refusal}
    (refused : e.perform callerThread (.remove none b.entity id) = .error (.refused why)) :
    Leads (b.erase id) (store, e) fun r v =>
      (∃ operation message, r = .error (.engine operation why.status message)) ∧
        v = (store, e) := by
  unfold erase
  refine Ends.bind (Ends.ofHost (HostM.perform_refused refused)) ?_
  generalize why.status = status
  have failed : Leads (do throw (← HostM.failure "remove" status) : StoreM Unit) (store, e)
      fun r v => (∃ operation message, r = .error (.engine operation status message)) ∧
        v = (store, e) := by
    refine Leads.bind (Leads.ofHost (HostM.failure_leads fun message => ?_))
    rw [Onward]
    apply Leads.throw
    exact ⟨⟨_, _, rfl⟩, rfl⟩
  cases status with
  | notFound => exact Leads.throw ⟨⟨_, _, rfl⟩, rfl⟩
  | _ => exact failed

end Box

namespace WriteCall

variable {c : WriteCall} {p : Prepared}

theorem commit_served {answer : (c.write p).call.Answer}
    (done : e.perform callerThread (c.write p).call = .ok (answer, e')) :
    Ends (c.commit p) (store, e) (.ok ()) (store, e') := by
  cases c with
  | put b mode object => exact Ends.ofHost (HostM.request_ends done)
  | remove b object | removeId b id =>
      exact Ends.bind (Ends.ofHost (HostM.perform_ends done)) Ends.pure

theorem commit_refused {why : Refusal}
    (refused : e.perform callerThread (c.write p).call = .error (.refused why)) :
    Leads (c.commit p) (store, e) fun r v =>
      (∃ operation message, r = .error (.engine operation why.status message)) ∧
        v = (store, e) := by
  cases c with
  | put b mode object =>
      refine Leads.ofHost ((HostM.request_fails refused).mono ?_)
      rintro r e' ⟨⟨message, failed⟩, rfl⟩
      exact ⟨⟨_, message, failed⟩, rfl⟩
  | remove b object | removeId b id => exact Box.erase_refused refused

theorem finish_ends (c : WriteCall) (p : Prepared) : ∃ r after,
    (∀ v, Ends (c.finish p) (c.object, v) r (after, v)) ∧
      (p.id = p.current → (∃ answer, r = .ok answer) ∧ after = c.object) := by
  cases c with
  | put b mode object =>
      obtain ⟨r, after, ends, kept⟩ := b.finish_ends p object
      exact ⟨r, after, ends, fun same => ⟨⟨_, (kept same).1⟩, (kept same).2⟩⟩
  | remove b object | removeId b id =>
      exact ⟨.ok (), (), fun v => Ends.pure, fun _ => ⟨⟨(), rfl⟩, rfl⟩⟩

/-- What comes before the write ends as it does whatever is committed and queued, and moves no
    more than a sequence, past the id under which an object will be stored. A new id is one under
    which nothing is stored. -/
structure Prepares (c : WriteCall) (closed : Bool) (e : Engine) (r : Except StoreError Prepared)
    (sequences : Std.ExtTreeMap EntityId ObjectId) : Prop where
  ends (store : Store) (committed : Snapshot) : store.closed = closed →
    Ends c.prepare (c.object, store, { e with committed }) r
      (c.object, store, { e with committed, sequences })
  grown (entity : EntityId) : e.lastId entity ≤ ({ e with sequences } : Engine).lastId entity
  opened {p : Prepared} : r = .ok p → closed = false
  covered {p : Prepared} : r = .ok p → (c.write p).Covered { e with sequences }
  unused {p : Prepared} {s : Snapshot} : r = .ok p → p.id ≠ p.current → e.Reaches s →
    ∃ s', (c.write p).effect e s = .ok s'

theorem prepares_failed {closed : Bool} (why : StoreError)
    (ends : ∀ (store : Store) (committed : Snapshot), store.closed = closed →
      Ends c.prepare (c.object, store, { e with committed }) (.error why)
        (c.object, store, { e with committed })) :
    c.Prepares closed e (.error why) e.sequences := by
  refine ⟨ends, fun entity => Std.le_refl _, ?_, ?_, ?_⟩
  all_goals
    intro p
    intros
    contradiction

section Put

variable {T : Type} {b : Box T} {mode : PutMode} {object : T} {current : ObjectId}
  (carried : b.binding.id object = .ok current)
include carried

theorem prepare_leads {Q : Except StoreError Prepared → T × Store × Engine → Prop}
    (opened : store.closed = false) (saved : ¬ (mode = .update ∧ current = 0))
    (rest : Leads (do
      let id ← match mode with
        | .update => pure current
        | _ => (Store.allocateOne none b.entity current : HostM ObjectId)
      let record ← b.encode id (← Editing.current)
      return { current, id, record } : Editing T Prepared) (object, store, e) Q) :
    Leads (b.prepare mode) (object, store, e) Q := by
  have asked : Ends b.currentId (object, store, e) (.ok current) (object, store, e) :=
    carried ▸ Box.currentId_reads
  unfold Box.prepare
  apply Ends.bind (Ends.ofStore (StoreM.ensureOpen_ends opened))
  apply Ends.bind asked
  rw [if_neg saved]
  exact rest

theorem prepares_update (e : Engine) (saved : current ≠ 0) :
    (put b .update object).Prepares false e (b.recordOf object current current) e.sequences := by
  refine ⟨?_, fun entity => Std.le_refl _, fun _ => rfl, fun _ => .inl rfl, ?_⟩
  · intro store committed opened
    exact prepare_leads carried opened (fun h => saved h.2) (Ends.bind Ends.pure Box.recordOf_ends)
  · intro p s written new
    obtain ⟨same, id⟩ := Box.recordOf_eq_ok written
    exact absurd (id.trans same.symm) new

theorem prepare_new_leads {Q : Except StoreError Prepared → T × Store × Engine → Prop}
    (mode_ne : mode ≠ .update) (opened : store.closed = false)
    (rest : Leads (do
      let id ← (Store.allocateOne none b.entity current : HostM ObjectId)
      let record ← b.encode id (← Editing.current)
      return { current, id, record } : Editing T Prepared) (object, store, e) Q) :
    Leads (b.prepare mode) (object, store, e) Q := by
  refine prepare_leads carried opened (fun h => mode_ne h.1) ?_
  cases mode with
  | update => contradiction
  | put | insert | putNew => exact rest

theorem prepares_granted {id : ObjectId} {sequences : Std.ExtTreeMap EntityId ObjectId}
    (mode_ne : mode ≠ .update)
    (granted : e.idForPut none b.entity current = .ok (id, { e with sequences })) :
    (put b mode object).Prepares false e (b.recordOf object current id) sequences := by
  obtain ⟨-, alone⟩ := Engine.idForPut_alone granted
  refine ⟨?_, ?_, fun _ => rfl, ?_, ?_⟩
  · intro store committed opened
    have ends := Store.allocateOne_ends (alone committed)
    exact prepare_new_leads carried mode_ne opened
      (Ends.bind (Ends.ofStore (Ends.ofHost ends)) Box.recordOf_ends)
  · intro entity
    exact @Engine.lastId_le_of_perform _ _ callerThread ⟨.idForPut none b.entity current, id⟩
      entity granted
  · intro p written
    obtain ⟨-, same⟩ := Box.recordOf_eq_ok written
    right
    rw [same]
    exact @Engine.granted_le_lastId _ _ callerThread ⟨.idForPut none b.entity current, id⟩ _ _
      granted .single
  · intro p s written new reaches
    obtain ⟨carries, same⟩ := Box.recordOf_eq_ok written
    rw [carries, same] at new
    rw [write, same]
    exact Engine.put_granted granted mode_ne
      (reaches.unused (Engine.lastId_lt_granted granted new))

theorem prepares_refused {halt : Halt} (mode_ne : mode ≠ .update)
    (refused : e.idForPut none b.entity current = .error halt) :
    ∃ why, why ≠ .waits ∧ (put b mode object).Prepares false e (.error why) e.sequences := by
  obtain ⟨why, message, detail, alone⟩ := Engine.idForPut_refused refused
  refine ⟨.engine "id_for_put" why.status message, nofun,
    prepares_failed _ fun store committed opened => ?_⟩
  have ends := Store.allocateOne_refused (alone committed) detail
  exact prepare_new_leads carried mode_ne opened
    (Ends.bind_error (Ends.ofStore (Ends.ofHost ends)) ⟨rfl, rfl⟩)

theorem prepares_put (e : Engine) (mode_ne : mode ≠ .update) :
    ∃ r sequences, (put b mode object).Prepares false e r sequences := by
  cases ended : e.idForPut none b.entity current with
  | ok granted =>
      obtain ⟨id, e'⟩ := granted
      obtain ⟨moved, -⟩ := Engine.idForPut_alone ended
      rw [moved] at ended
      exact ⟨_, _, prepares_granted carried mode_ne ended⟩
  | error halt =>
      obtain ⟨why, -, prepares⟩ := prepares_refused carried mode_ne ended
      exact ⟨_, _, prepares⟩

end Put

theorem prepares_remove (id : ObjectId) (e : Engine)
    (ends : ∀ (store : Store) (committed : Snapshot), store.closed = false →
      Ends c.prepare (c.object, store, { e with committed }) (.ok { current := id, id })
        (c.object, store, { e with committed }))
    (removes : ∀ p, ∃ entity, c.write p = .remove entity p.id) :
    c.Prepares false e (.ok { current := id, id }) e.sequences := by
  refine ⟨ends, fun entity => Std.le_refl _, fun _ => rfl, ?_, ?_⟩
  · intro p prepared
    obtain ⟨entity, removes⟩ := removes p
    rw [removes]
    trivial
  · intro p s prepared new
    cases prepared
    exact absurd rfl new

/-- An object is prepared unless its store is closed, its id cannot be told, it is to be updated
    but has none, or none can be drawn for it. -/
theorem prepares_object {T : Type} {b : Box T} {mode : PutMode} {object : T} (closed : Bool)
    (e : Engine) : ∃ r sequences, (put b mode object).Prepares closed e r sequences := by
  cases closed with
  | true =>
      refine ⟨_, _, prepares_failed .closed fun store committed closed => ?_⟩
      exact Ends.bind_error (Ends.ofStore (StoreM.ensureOpen_closed closed)) ⟨rfl, rfl⟩
  | false =>
      cases carried : b.binding.id object with
      | error why =>
          refine ⟨_, _, prepares_failed why fun store committed opened => ?_⟩
          apply Ends.bind (Ends.ofStore (StoreM.ensureOpen_ends opened))
          exact Ends.bind_error (carried ▸ Box.currentId_reads) ⟨rfl, rfl⟩
      | ok current =>
          by_cases update : mode = .update
          · subst update
            by_cases saved : current = 0
            · subst saved
              refine ⟨_, _, prepares_failed (.misuse (.updateUnsaved b.name))
                fun store committed opened => ?_⟩
              apply Ends.bind (Ends.ofStore (StoreM.ensureOpen_ends opened))
              apply Ends.bind (carried ▸ Box.currentId_reads)
              exact Ends.bind_error (Ends.ofStore StoreM.misuse_ends) ⟨rfl, rfl⟩
            · exact ⟨_, _, prepares_update carried e saved⟩
          · exact prepares_put carried e update

theorem prepares_id {id : ObjectId} (closed : Bool) (e : Engine)
    (known : ∀ {v : Store × Engine} {r : Except StoreError Prepared},
      Ends (do StoreM.ensureOpen; return { current := id, id } : StoreM Prepared) v r v →
        Ends c.prepare (c.object, v) r (c.object, v))
    (removes : ∀ p, ∃ entity, c.write p = .remove entity p.id) :
    ∃ r sequences, c.Prepares closed e r sequences := by
  cases closed with
  | true =>
      refine ⟨_, _, prepares_failed .closed fun store committed closed => known ?_⟩
      exact Ends.bind_error (StoreM.ensureOpen_closed closed) ⟨rfl, rfl⟩
  | false =>
      refine ⟨_, _, prepares_remove id e (fun store committed opened => known ?_) removes⟩
      exact Ends.bind (StoreM.ensureOpen_ends opened) Ends.pure

theorem prepares (c : WriteCall) (closed : Bool) (e : Engine) :
    ∃ r sequences, c.Prepares closed e r sequences := by
  cases c with
  | put b mode object => exact prepares_object closed e
  | removeId b id => exact prepares_id closed e Ends.ofStore fun p => ⟨b.entity, rfl⟩
  | remove b object =>
      cases carried : b.binding.id object with
      | error why =>
          refine ⟨_, _, prepares_failed why fun store committed closed => Ends.ofStore ?_⟩
          exact Ends.bind_error (carried ▸ Box.idOf_reads) ⟨rfl, rfl⟩
      | ok id =>
          have asked {v : Store × Engine} : Ends (b.idOf object) v (.ok id) v :=
            carried ▸ Box.idOf_reads
          exact prepares_id closed e (fun ends => Ends.ofStore (asked.bind ends))
            fun p => ⟨b.entity, rfl⟩

end WriteCall

end ObjectStore
