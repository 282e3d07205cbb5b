import ObjectStore.Proofs.Engine.Runs
import ObjectStore.Proofs.Store.Calls
import ObjectStore.Store.Deferred

/-! # Queued writes

A queued write is performed as a transaction of its own on whatever is committed by then. It leaves
the engine as it was but for the committed snapshot: the id it stores was handed out when the write
was queued, so no sequence moves any more. What a queue of writes will make of an engine is
therefore known before the worker starts (`Session.settled`), and so are the statuses of those that
will fail (`Session.told`); each step of the worker brings the session nearer to it.
-/

namespace ObjectStore

variable {e : Engine} {s : Snapshot} {write : QueuedWrite} {thread : ThreadId}

/-- The status of an engine call that failed. -/
def StoreError.status? : StoreError → Option Status
  | engine _ status _ => some status
  | _ => none

namespace QueuedWrite

/-- The call that performs a write. -/
def call : QueuedWrite → Call
  | put entity id record mode => .put none entity id record mode
  | remove entity id => .remove none entity id

/-- What a write makes of the committed snapshot, or why it is refused. -/
def effect (e : Engine) (s : Snapshot) : QueuedWrite → Except Refusal Snapshot
  | put entity id record mode =>
    if e.entities.contains entity then
      (Snapshot.checkPut mode entity id (s.contains entity id)).map
        fun _ => s.insert entity id record
    else .error (.unknownEntity entity)
  | remove entity id =>
    if e.entities.contains entity then
      if s.contains entity id then
        .ok ((s.eraseMany entity [id]).unlinkObject (e.outgoing entity) (e.incoming entity) id)
      else .error .missing
    else .error (.unknownEntity entity)

/-- The sequence has reached the id under which a write stores an object, unless the object has to
    be stored already. -/
def Covered (e : Engine) : QueuedWrite → Prop
  | put entity id _ mode => mode = .update ∨ id ≤ e.lastId entity
  | remove .. => True

end QueuedWrite

namespace Engine

section Alone

variable (free : e.writer = none)
include free

theorem put_effect {entity : EntityId} {id : ObjectId} {record : Bytes} {mode : PutMode}
    (numbered : e.Numbered) (covered : (QueuedWrite.put entity id record mode).Covered e) :
    e.put thread none entity id record mode =
      ((QueuedWrite.put entity id record mode).effect e e.committed).mapError .refused >>=
        fun committed => .ok { e with committed } := by
  have granted : e.requireWriterFree thread = .ok () := requireWriterFree_eq_ok.mpr free
  simp only [put, requireEntity, QueuedWrite.effect]
  split
  · cases checked : Snapshot.checkPut mode entity id (e.committed.contains entity id) with
    | error why =>
        simp only [write, granted, checked, bind, Except.bind, Except.map, mapError_error]
    | ok u =>
        obtain ⟨nonzero, -, stored⟩ := Snapshot.checkPut_eq_ok.mp checked
        have reached : id ≤ e.lastId entity := by
          cases covered with
          | inl update => exact (numbered.committed entity id (stored update)).2
          | inr reached => exact reached
        have observed (s : Snapshot) :
            ({ e with committed := s } : Engine).observe entity [id] = { e with committed := s } :=
          observe_reached nonzero reached
        simp only [write, granted, checked, bind, Except.bind, Except.map, pure, Except.pure,
          mapError_ok, observed]
  · rfl

theorem remove_effect {entity : EntityId} {id : ObjectId} :
    e.remove thread none entity id =
      ((QueuedWrite.remove entity id).effect e e.committed).mapError .refused >>=
        fun committed => .ok { e with committed } := by
  have granted : e.requireWriterFree thread = .ok () := requireWriterFree_eq_ok.mpr free
  simp only [remove, requireEntity, QueuedWrite.effect]
  split
  · simp only [write, granted, bind, Except.bind]
    cases e.committed.contains entity id <;> rfl
  · rfl

variable (numbered : e.Numbered) (covered : write.Covered e)
include numbered covered

theorem perform_effect (done : write.effect e e.committed = .ok s) :
    ∃ answer, e.perform thread write.call = .ok (answer, { e with committed := s }) := by
  cases write with
  | put entity id record mode =>
      refine ⟨(), changing_eq_ok.mpr ?_⟩
      rw [put_effect free numbered covered, done]
      rfl
  | remove entity id =>
      refine ⟨(), changing_eq_ok.mpr ?_⟩
      rw [remove_effect free, done]
      rfl

theorem refused_effect {why : Refusal} (refused : write.effect e e.committed = .error why) :
    e.perform thread write.call = .error (.refused why) := by
  cases write with
  | put entity id record mode =>
      change changing (e.put thread none entity id record mode) = _
      rw [put_effect free numbered covered, refused]
      rfl
  | remove entity id =>
      change changing (e.remove thread none entity id) = _
      rw [remove_effect free, refused]
      rfl

theorem numbered_effect (done : write.effect e e.committed = .ok s) :
    ({ e with committed := s } : Engine).Numbered := by
  obtain ⟨answer, made⟩ : ∃ answer, e.perform workerThread write.call =
      .ok (answer, { e with committed := s }) := perform_effect free numbered covered done
  exact @Numbered.perform _ _ _ ⟨write.call, answer⟩ numbered made

end Alone

end Engine

namespace QueuedWrite

variable {writes : List QueuedWrite}

theorem Covered.mono {e' : Engine} (covered : write.Covered e)
    (grown : ∀ entity, e.lastId entity ≤ e'.lastId entity) : write.Covered e' := by
  cases write with
  | put entity id record mode =>
      cases covered with
      | inl update => exact .inl update
      | inr reached => exact .inr (Std.le_trans reached (grown entity))
  | remove entity id => trivial

theorem effect_unused {e' : Engine} {entity : EntityId} {id : ObjectId} {s' : Snapshot}
    (covered : write.Covered e) (past : e.lastId entity < id)
    (unused : s.contains entity id = false) (done : write.effect e' s = .ok s') :
    s'.contains entity id = false := by
  cases write with
  | put entity' id' record mode =>
      simp only [effect] at done
      split at done
      case isFalse => cases done
      cases checked : Snapshot.checkPut mode entity' id' (s.contains entity' id') with
      | error why => simp [checked, Except.map] at done
      | ok =>
          rw [checked] at done
          cases done
          refine Bool.eq_false_iff.mpr fun stored => ?_
          rcases Snapshot.contains_insert.mp stored with ⟨rfl, rfl⟩ | before
          · rcases covered with update | reached
            · have held := (Snapshot.checkPut_eq_ok.mp checked).2.2 update
              rw [unused] at held
              cases held
            · exact absurd (Std.lt_of_le_of_lt reached past) (Std.lt_irrefl)
          · rw [unused] at before
            cases before
  | remove entity' id' =>
      simp only [effect] at done
      split at done
      case isFalse => cases done
      split at done
      case isFalse => cases done
      cases done
      refine Bool.eq_false_iff.mpr fun stored => ?_
      rw [Snapshot.contains, Snapshot.table_eq_of_records Snapshot.unlinkObject_records,
        ← Snapshot.contains] at stored
      rw [(Snapshot.contains_eraseMany.mp stored).1] at unused
      cases unused

/-- What writes make of a snapshot one after another, and the statuses of those that are refused. -/
def settle (e : Engine) : Snapshot → List QueuedWrite → Snapshot × List Status
  | s, [] => (s, [])
  | s, write :: writes =>
    match write.effect e s with
    | .ok s => settle e s writes
    | .error why => ((settle e s writes).1, why.status :: (settle e s writes).2)

theorem effect_congr {e' : Engine} (schema : e.SameSchema e') :
    write.effect e' s = write.effect e s := by
  cases write with
  | put entity id record mode => simp only [effect, schema.entities]
  | remove entity id =>
      simp only [effect, schema.entities, Engine.outgoing_eq schema, Engine.incoming_eq schema]

theorem settle_congr {e' : Engine} (schema : e.SameSchema e') :
    settle e' s writes = settle e s writes := by
  induction writes generalizing s with
  | nil => rfl
  | cons write writes ih =>
      simp only [settle, effect_congr schema]
      cases write.effect e s with
      | ok s' => exact ih
      | error why => simp only [ih]

theorem settle_append {later : List QueuedWrite} : settle e s (writes ++ later) =
    ((settle e (settle e s writes).1 later).1,
      (settle e s writes).2 ++ (settle e (settle e s writes).1 later).2) := by
  induction writes generalizing s with
  | nil => rfl
  | cons write writes ih =>
      simp only [List.cons_append, settle]
      cases write.effect e s with
      | ok s' => exact ih
      | error why => simp only [ih, List.cons_append]

/-- Writes that are covered store nothing under an id past the sequence. -/
theorem settle_unused {e' : Engine} {entity : EntityId} {id : ObjectId}
    (covered : ∀ write ∈ writes, write.Covered e) (past : e.lastId entity < id)
    (unused : s.contains entity id = false) :
    (settle e' s writes).1.contains entity id = false := by
  induction writes generalizing s with
  | nil => exact unused
  | cons write writes ih =>
      have rest : ∀ write ∈ writes, write.Covered e :=
        fun later member => covered later (.tail _ member)
      have here : write.Covered e := covered write (.head _)
      rw [settle]
      split
      next s' done => exact ih rest (effect_unused here past unused done)
      next why refused => exact ih rest unused

/-! ## The worker -/

section Performed

variable {h : Host} {e' : Engine} {why : Refusal} (plain : h.faults = [])
include plain

theorem perform_served {answer : write.call.Answer}
    (done : h.machine.engine.perform workerThread write.call = .ok (answer, e')) :
    write.perform h = some (none, { h with machine := { h.machine with engine := e' } }) := by
  cases write with
  | put entity id record mode =>
      exact congrArg perform.outcome (Host.call_served plain done)
  | remove entity id =>
      exact congrArg perform.outcome (Host.call_served plain done)

theorem perform_refused
    (refused : h.machine.engine.perform workerThread write.call = .error (.refused why)) :
    write.perform h = some (some why.status,
      { h with machine := h.machine.onSlot workerThread why.recordIn }) := by
  cases write with
  | put entity id record mode =>
      exact congrArg perform.outcome (Host.call_refused plain refused)
  | remove entity id =>
      exact congrArg perform.outcome (Host.call_refused plain refused)

theorem perform_waits (waits : h.machine.engine.perform workerThread write.call = .error .waits) :
    write.perform h = none := by
  cases write with
  | put entity id record mode =>
      exact congrArg perform.outcome (Host.call_waits plain waits)
  | remove entity id =>
      exact congrArg perform.outcome (Host.call_waits plain waits)

end Performed

end QueuedWrite

namespace Queue

variable {q : Queue} {h h' : Host} {pending : List QueuedWrite}

theorem work_done (first : q.pending = write :: pending)
    (performed : write.perform h = some (none, h')) : q.work h = some ({ q with pending }, h') := by
  simp only [work, first, performed]

theorem work_failed {status : Status} (first : q.pending = write :: pending)
    (performed : write.perform h = some (some status, h')) :
    ∃ message slots, q.work h = some
      ({ q with pending, failures := q.failures ++ [.engine write.operation status message] },
        { h' with machine := { h'.machine with slots } }) := by
  simp only [work, first, performed]
  exact ⟨_, _, rfl⟩

theorem work_eq_some {q' : Queue} (plain : h.faults = []) (worked : q.work h = some (q', h')) :
    ∃ write, q.pending = write :: q'.pending ∧ q'.shut = q.shut ∧ h'.faults = [] ∧
      (h'.machine.engine = h.machine.engine ∨ ∃ answer,
        h.machine.engine.perform workerThread write.call = .ok (answer, h'.machine.engine)) := by
  cases first : q.pending with
  | nil => simp [work, first] at worked
  | cons write pending =>
      refine ⟨write, ?_⟩
      cases ended : h.machine.engine.perform workerThread write.call with
      | ok done =>
          rw [work_done first (write.perform_served plain ended)] at worked
          cases worked
          exact ⟨rfl, rfl, plain, .inr ⟨done.1, rfl⟩⟩
      | error halt =>
          cases halt with
          | refused why =>
              obtain ⟨message, slots, done⟩ :=
                work_failed first (write.perform_refused plain ended)
              rw [done] at worked
              cases worked
              exact ⟨rfl, rfl, plain, .inl rfl⟩
          | waits => simp [work, first, write.perform_waits plain ended] at worked

end Queue

namespace Session

variable {s : Session}

/-- A session whose worker will not have to wait, and whose queued writes are covered. -/
structure Steady (s : Session) : Prop where
  faults : s.host.faults = []
  free : s.host.machine.engine.writer = none
  numbered : s.host.machine.engine.Numbered
  covered : ∀ write ∈ s.store.queue.pending, write.Covered s.host.machine.engine
  taking : s.store.closed = false → s.store.queue.shut = false

/-- The engine as it will be when the queued writes are performed. -/
def settled (s : Session) : Engine :=
  let e := s.host.machine.engine
  { e with committed := (QueuedWrite.settle e e.committed s.store.queue.pending).1 }

/-- The statuses of the failures of queued writes that were not taken, those to come included. -/
def told (s : Session) : List (Option Status) :=
  let e := s.host.machine.engine
  s.store.queue.failures.map StoreError.status? ++
    (QueuedWrite.settle e e.committed s.store.queue.pending).2.map some

/-- A session goes on to another that will come to the same. -/
structure Nears (s s' : Session) : Prop where
  steady : s'.Steady
  settled : s'.settled = s.settled
  told : s'.told = s.told
  closed : s'.store.closed = s.store.closed

/-- Let the worker perform one write, if there is one. -/
def work (s : Session) : Session :=
  match s.store.queue.work s.host with
  | some (queue, host) => { host, store := { s.store with queue } }
  | none => s

theorem work_nears {write : QueuedWrite} {pending : List QueuedWrite} (steady : s.Steady)
    (first : s.store.queue.pending = write :: pending) :
    ∃ queue host, s.store.queue.work s.host = some (queue, host) ∧ queue.pending = pending ∧
      s.Nears { host, store := { s.store with queue } } := by
  obtain ⟨faults, free, numbered, covered, taking⟩ := steady
  rw [first] at covered
  have here := covered write List.mem_cons_self
  cases ended : write.effect s.host.machine.engine s.host.machine.engine.committed with
  | ok after =>
      obtain ⟨answer, done⟩ := Engine.perform_effect free numbered here ended
      have worked := Queue.work_done first (QueuedWrite.perform_served faults done)
      have same : QueuedWrite.settle { s.host.machine.engine with committed := after } after
          pending = QueuedWrite.settle s.host.machine.engine after pending :=
        QueuedWrite.settle_congr ⟨rfl, rfl, rfl⟩
      refine ⟨_, _, worked, rfl, ⟨?_, ?_, ?_, rfl⟩⟩
      · refine ⟨faults, free, Engine.numbered_effect free numbered here ended, ?_, taking⟩
        exact fun later member => covered later (List.mem_cons_of_mem _ member)
      · simp only [settled, first, QueuedWrite.settle, ended, same]
      · simp only [told, first, QueuedWrite.settle, ended, same]
  | error why =>
      have refused : s.host.machine.engine.perform workerThread write.call =
          .error (.refused why) := Engine.refused_effect free numbered here ended
      obtain ⟨message, slots, worked⟩ :=
        Queue.work_failed first (QueuedWrite.perform_refused faults refused)
      refine ⟨_, _, worked, rfl, ⟨?_, ?_, ?_, rfl⟩⟩
      · refine ⟨faults, free, numbered, ?_, taking⟩
        exact fun later member => covered later (List.mem_cons_of_mem _ member)
      · simp only [settled, first, QueuedWrite.settle, ended]
        rfl
      · simp only [told, first, QueuedWrite.settle, ended, List.map_append, List.map_cons,
          List.append_assoc]
        rfl

theorem Nears.refl (steady : s.Steady) : s.Nears s :=
  ⟨steady, rfl, rfl, rfl⟩

theorem Nears.trans {s₁ s₂ : Session} (h : s.Nears s₁) (h' : s₁.Nears s₂) : s.Nears s₂ :=
  ⟨h'.steady, h'.settled.trans h.settled, h'.told.trans h.told, h'.closed.trans h.closed⟩

/-- Whatever the worker does, the session comes to the same. -/
theorem Steady.work (steady : s.Steady) : s.Nears s.work := by
  cases first : s.store.queue.pending with
  | nil =>
      have idle : s.work = s := by simp only [Session.work, Queue.work, first]
      rw [idle]
      exact .refl steady
  | cons write pending =>
      obtain ⟨queue, host, worked, -, nears⟩ := work_nears steady first
      rw [Session.work, worked]
      exact nears

theorem awaitCompletion_keeps {P : Session → Prop} (step : ∀ {s}, P s → P s.work) (holds : P s) :
    P s.awaitCompletion := by
  have drained : ∀ (fuel : Nat) (s : Session), P s →
      P { host := (Queue.drain.go fuel s.store.queue s.host).2,
          store := { s.store with queue := (Queue.drain.go fuel s.store.queue s.host).1 } } := by
    intro fuel
    induction fuel with
    | zero => exact fun s holds => holds
    | succ fuel ih =>
        intro s holds
        have worked := step holds
        unfold Session.work at worked
        rw [Queue.drain.go]
        cases ended : s.store.queue.work s.host with
        | none => exact holds
        | some done =>
            rw [ended] at worked
            exact ih _ worked
  exact drained _ s holds

theorem Steady.drain {fuel : Nat} (steady : s.Steady)
    (enough : s.store.queue.pending.length = fuel) :
    ∃ queue host, Queue.drain.go fuel s.store.queue s.host = (queue, host) ∧ queue.pending = [] ∧
      s.Nears { host, store := { s.store with queue } } := by
  induction fuel generalizing s with
  | zero =>
      exact ⟨_, _, rfl, List.eq_nil_of_length_eq_zero enough, .refl steady⟩
  | succ fuel ih =>
      cases first : s.store.queue.pending with
      | nil => simp [first] at enough
      | cons write pending =>
          obtain ⟨queue, host, worked, rest, nears⟩ := work_nears steady first
          have left : queue.pending.length = fuel := by
            simpa [first, rest] using enough
          obtain ⟨queue', host', drained, empty, nears'⟩ := ih nears.steady left
          refine ⟨queue', host', ?_, empty, nears.trans nears'⟩
          rw [Queue.drain.go, worked]
          exact drained

theorem Steady.awaitCompletion (steady : s.Steady) :
    s.Nears s.awaitCompletion ∧ s.awaitCompletion.store.queue.pending = [] := by
  obtain ⟨queue, host, drained, empty, nears⟩ := steady.drain rfl
  have done : s.awaitCompletion = { host, store := { s.store with queue } } := by
    rw [Session.awaitCompletion, Queue.drain, drained]
  rw [done]
  exact ⟨nears, empty⟩

theorem settled_of_idle (idle : s.store.queue.pending = []) :
    s.settled = s.host.machine.engine := by
  simp only [settled, idle, QueuedWrite.settle]

theorem Steady.engine_awaitCompletion (steady : s.Steady) :
    s.awaitCompletion.host.machine.engine = s.settled := by
  obtain ⟨nears, idle⟩ := steady.awaitCompletion
  rw [← nears.settled, settled_of_idle idle]

theorem Steady.numbered_settled (steady : s.Steady) : s.settled.Numbered := by
  rw [← steady.engine_awaitCompletion]
  exact steady.awaitCompletion.1.steady.numbered

theorem told_of_idle (idle : s.store.queue.pending = []) :
    s.told = s.store.queue.failures.map StoreError.status? := by
  simp only [told, idle, QueuedWrite.settle, List.map_nil, List.append_nil]

theorem told_takeFailures : s.takeFailures.1.map StoreError.status? ++ s.takeFailures.2.told =
    s.told := by
  simp only [takeFailures, told, List.map_nil, List.nil_append]

/-! ## A write that fails -/

/-- The session with other queued writes. -/
def withQueue (s : Session) (queue : Queue) : Session :=
  { s with store := { s.store with queue } }

/-- The statuses of the writes that have failed once the worker is done. -/
def refusals (s : Session) : List (Option Status) :=
  s.awaitCompletion.takeFailures.1.map StoreError.status?

theorem Steady.refusals_eq (steady : s.Steady) : s.refusals = s.told := by
  obtain ⟨nears, idle⟩ := steady.awaitCompletion
  rw [← nears.told, told_of_idle idle]
  rfl

/-- If the write that was queued last fails, it is refused on what those before it leave, and the
    engine comes to what it would without it. -/
theorem Steady.refused_last {queue : Queue} {status : Status} (steady : s.Steady)
    (before : (s.withQueue queue).Steady)
    (queued : s.store.queue = { queue with pending := queue.pending ++ [write] })
    (refused : s.refusals = (s.withQueue queue).refusals ++ [some status]) :
    let e := s.host.machine.engine
    (∃ why, write.effect e (QueuedWrite.settle e e.committed queue.pending).1 = .error why) ∧
      s.awaitCompletion.host.machine.engine =
        (s.withQueue queue).awaitCompletion.host.machine.engine := by
  intro e
  rw [steady.refusals_eq, before.refusals_eq] at refused
  rw [steady.engine_awaitCompletion, before.engine_awaitCompletion]
  simp only [told, withQueue, queued, QueuedWrite.settle_append, List.map_append,
    ← List.append_assoc, List.append_cancel_left_eq] at refused
  simp only [settled, withQueue, queued, QueuedWrite.settle_append]
  cases ended : write.effect e (QueuedWrite.settle e e.committed queue.pending).1 with
  | ok after => simp [QueuedWrite.settle, e, ended] at refused
  | error why => exact ⟨⟨why, rfl⟩, by simp only [QueuedWrite.settle, e, ended]⟩

end Session

end ObjectStore
