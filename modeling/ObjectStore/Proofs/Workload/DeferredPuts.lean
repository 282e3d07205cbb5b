import ObjectStore.Proofs.Events.Map
import ObjectStore.Proofs.Store.Alike
import ObjectStore.Proofs.Store.Chunks
import ObjectStore.Proofs.Store.Deferral
import ObjectStore.Proofs.Store.Reachable
import ObjectStore.Workload.Stress

/-! # What a run of deferred puts reports

As long as there are ids left a deferred put of a new event is answered, and its write cannot fail,
as nothing is stored under its id. When there are none left every put fails when it is made. So it
is known how the puts of a run end and how many events are added.

The report counts the answered puts and then takes all failures off them, those of puts that were
never counted as answered included. It is right only if no put is refused, or all of them are.
-/

namespace ObjectStore

open Catalog

/-- Deferred puts of events. -/
def laterPuts (events : List Event) : List Action :=
  events.map fun event => .call (.put eventBox .put event)

/-! ## The puts -/

namespace QueuedWrite

variable {e : Engine} {s s' : Snapshot} {entity : EntityId} {id : ObjectId} {record : Bytes}
  {mode : PutMode}

theorem eq_insert_of_effect (done : (put entity id record mode).effect e s = .ok s') :
    s' = s.insert entity id record := by
  simp only [effect] at done
  split at done
  · cases checked : Snapshot.checkPut mode entity id (s.contains entity id) with
    | error why => simp [checked, Except.map] at done
    | ok =>
        rw [checked] at done
        cases done
        rfl
  · cases done

end QueuedWrite

theorem Snapshot.size_insert {s : Snapshot} {entity : EntityId} {id : ObjectId} {record : Bytes}
    (unused : s.contains entity id = false) :
    (s.insert entity id record).size entity = s.size entity + 1 := by
  have absent : (s.table entity).contains id = false := unused
  simp [Snapshot.size, Snapshot.insert_table, Std.ExtTreeMap.size_insert, absent]

namespace Session

section New

variable {T : Type} {b : Box T} {object : T} {id : ObjectId} {s : Session}
  {sequences : Std.ExtTreeMap EntityId ObjectId}

theorem Steady.put_new (total : b.binding.Total) (simple : b.descriptor.hasRelations = false)
    (steady : s.Steady) (opened : s.store.closed = false) (new : total.idOf object = 0)
    (granted : s.host.machine.engine.idForPut none b.entity 0 =
      .ok (id, { s.host.machine.engine with sequences })) :
    let c : WriteCall := .put b .put object
    ∃ s', c.on c.later s = (.ok id, total.withId object id, s') ∧ s'.Steady ∧
      s'.settled = { s.settled with
        sequences, committed := s.settled.committed.insert b.entity id (total.record id object) } ∧
      s'.told = s.told ∧ s'.store.closed = false := by
  intro c
  let p : Prepared := { current := 0, id, record := total.record id object }
  have carried : b.binding.id object = .ok 0 := (total.id_eq object).trans (congrArg Except.ok new)
  have written : b.recordOf object 0 id = .ok p := by
    rw [Box.recordOf, total.made]
    rfl
  have nonzero : p.id ≠ p.current := Engine.idForPut_ne_zero granted
  have prepares : c.Prepares s.store.closed s.host.machine.engine (.ok p) sequences := by
    rw [opened, ← written]
    exact WriteCall.prepares_granted carried (by decide) granted
  have finishes (v : Store × Engine) :
      Ends (b.finish p) (object, v) (.ok id) (total.withId object id, v) := by
    unfold Box.finish
    rw [if_pos nonzero]
    exact Ends.bind (Box.assignId_ends total) Ends.pure
  obtain ⟨after, done⟩ := prepares.unused rfl nonzero steady.numbered_settled.committed
  obtain rfl := QueuedWrite.eq_insert_of_effect done
  obtain ⟨s', later, kept, settled, told, closed⟩ :=
    @WriteCall.later_queues c _ _ _ _ _ finishes simple steady prepares
  simp only [QueuedWrite.settle, done] at settled told
  exact ⟨s', later, kept, settled, told.trans (List.append_nil _), closed.trans opened⟩

end New

variable {s : Session} {told : List (Option Status)} {left size : Nat} {event : Event}

/-- A store that events are put into: `left` ids are left for them, and `size` events are stored
    when all queued writes are performed. -/
structure Putting (s : Session) (told : List (Option Status)) (left size : Nat) : Prop where
  steady : s.Steady
  opened : s.store.closed = false
  known : s.settled.entities.contains eventBox.entity = true
  told : s.told = told
  left : (s.settled.lastId eventBox.entity).toNat + left = Engine.maxId
  size : s.settled.committed.size eventBox.entity = size

theorem Putting.put_answered (putting : s.Putting told (left + 1) size) (new : event.id = 0) :
    let c : WriteCall := .put eventBox .put event
    ∃ id after s', c.on c.later s = (.ok id, after, s') ∧ s'.Putting told left (size + 1) := by
  let e := s.host.machine.engine
  have last : (e.lastId eventBox.entity).toNat + (left + 1) = Engine.maxId := putting.left
  have room : (e.lastId eventBox.entity).toNat ≠ Engine.maxId := by omega
  have granted : e.idForPut none eventBox.entity 0 = .ok (e.lastId eventBox.entity + 1,
      e.setLastId eventBox.entity (e.lastId eventBox.entity + 1)) :=
    Engine.idForPut_eq_ok.mpr ⟨putting.known, rfl, by rw [if_pos rfl]; exact ⟨room, rfl, rfl⟩⟩
  obtain ⟨s', later, kept, settled, told, opened⟩ :=
    putting.steady.put_new eventTotal rfl putting.opened new granted
  obtain ⟨past, -, -⟩ := @Engine.lastId_lt_drawn _ _ callerThread
    ⟨.idForPut none eventBox.entity 0, _⟩ _ _ granted .single
  have reaches := putting.steady.numbered_settled.committed
  refine ⟨_, _, s', later, kept, opened, ?_, told.trans putting.told, ?_, ?_⟩
  · rw [settled]
    exact putting.known
  · have next : (e.lastId eventBox.entity + 1).toNat = (e.lastId eventBox.entity).toNat + 1 := by
      have bound := (e.lastId eventBox.entity).toNat_lt
      simp only [Engine.maxId] at room
      simp only [UInt64.toNat_add, UInt64.reduceToNat]
      omega
    have moved : s'.settled.lastId eventBox.entity = e.lastId eventBox.entity + 1 := by
      rw [settled]
      exact Engine.lastId_setLastId.trans (if_pos rfl)
    rw [moved, next]
    omega
  · rw [settled, Snapshot.size_insert (reaches.unused past), putting.size]

theorem Putting.put_refused (putting : s.Putting told 0 size) (new : event.id = 0) :
    let c : WriteCall := .put eventBox .put event
    ∃ why s', c.on c.later s = (.error why, event, s') ∧ why ≠ .waits ∧
      s'.Putting told 0 size := by
  intro c
  let e := s.host.machine.engine
  have carried : eventBox.binding.id event = .ok 0 := congrArg Except.ok new
  have last : (e.lastId eventBox.entity).toNat = Engine.maxId := putting.left
  have full : ¬ Box.HasRoom (e.lastId eventBox.entity) [0] := by
    change ¬ (e.lastId eventBox.entity).toNat + 1 ≤ Engine.maxId
    omega
  obtain ⟨-, refused⟩ : (0 : ObjectId) = 0 ∧ e.idForPut none eventBox.entity 0 = _ :=
    Engine.idForPut_exhausted putting.known rfl full
  obtain ⟨why, ended, prepares⟩ :=
    WriteCall.prepares_refused carried (by decide : PutMode.put ≠ .update) refused
  rw [← putting.opened] at prepares
  obtain ⟨s', later, kept, settled, told, closed⟩ :=
    WriteCall.later_fails (c := c) rfl putting.steady prepares
  refine ⟨why, s', later, ended, kept, closed.trans putting.opened, ?_,
    told.trans putting.told, ?_, ?_⟩
  all_goals rw [settled]
  · exact putting.known
  · exact putting.left
  · exact putting.size

/-- A put uses up an id, if there is one, and adds an event. It never waits. -/
theorem Putting.put (putting : s.Putting told left size) (new : event.id = 0) :
    let c : WriteCall := .put eventBox .put event
    let later := c.on c.later s
    later.1 ≠ .error .waits ∧ later.1.isOk = decide (0 < left) ∧
      later.2.2.Putting told (left - 1) (size + min 1 left) := by
  intro c later
  cases left with
  | zero =>
      obtain ⟨why, s', ended, served, putting⟩ := putting.put_refused new
      rw [show later = _ from ended]
      exact ⟨fun waits => served (Except.error.inj waits), rfl, putting⟩
  | succ left =>
      obtain ⟨id, after, s', ended, putting⟩ := putting.put_answered new
      rw [show later = _ from ended, Nat.min_eq_left (Nat.succ_le_succ (Nat.zero_le left))]
      exact ⟨nofun, by simp [Except.isOk, Except.toBool], putting⟩

end Session

namespace Course

/-- How many calls were answered. -/
def answered (course : Course) : Nat :=
  course.made.countP fun call => call.ended.1.isOk

/-- How many calls failed. -/
def refused (course : Course) : Nat :=
  course.made.countP fun call => !call.ended.1.isOk

section Call

variable {s : Session} {c : WriteCall} {actions : List Action}

theorem answered_call : (s.act (.call c :: actions)).answered =
    ((c.on c.later s).2.2.act actions).answered + (c.on c.later s).1.isOk.toNat := by
  cases ended : (c.on c.later s).1.isOk <;> simp [answered, Session.act, ended]

theorem refused_call : (s.act (.call c :: actions)).refused =
    ((c.on c.later s).2.2.act actions).refused + (!(c.on c.later s).1.isOk).toNat := by
  cases ended : (c.on c.later s).1.isOk <;> simp [refused, Session.act, ended]

end Call

end Course

namespace Session

/-- How many events are stored. -/
def eventCount (s : Session) : Nat :=
  s.host.machine.engine.committed.size eventBox.entity

variable {s : Session} {told : List (Option Status)} {left size : Nat} {events : List Event}

theorem Putting.act (putting : s.Putting told left size) (new : ∀ event ∈ events, event.id = 0) :
    let course := s.act (laterPuts events)
    course.answered = min events.length left ∧ course.refused = events.length - left ∧
      course.session.Putting told (left - events.length) (size + min events.length left) := by
  induction events generalizing s left size with
  | nil =>
      simp only [List.length_nil, Nat.zero_min, Nat.zero_sub, Nat.sub_zero, Nat.add_zero]
      exact ⟨rfl, rfl, putting⟩
  | cons event events ih =>
      obtain ⟨-, ended, putting⟩ := putting.put (new event List.mem_cons_self)
      obtain ⟨served, failed, putting⟩ := ih putting fun later member => new later (.tail _ member)
      have shift : left - 1 - events.length = left - (events.length + 1) := by omega
      have more : size + min 1 left + min events.length (left - 1) =
          size + min (events.length + 1) left := by omega
      rw [shift, more] at putting
      refine ⟨Course.answered_call.trans ?_, Course.refused_call.trans ?_, putting⟩
      · rw [ended]
        apply (congrArg (· + _) served).trans
        cases left <;> simp [Nat.succ_min_succ]
      · rw [ended]
        apply (congrArg (· + _) failed).trans
        cases left <;> simp

end Session

namespace Workload

theorem Tally.add_one {t : Tally} {succeeded : Bool} :
    t.add 1 succeeded = ⟨t.ok + succeeded.toNat, t.failed + (!succeeded).toNat⟩ := by
  cases succeeded <;> rfl

theorem boxFor_run {s : Session} (opened : s.store.closed = false)
    (model : s.store.model = smallModel) :
    (Store.boxFor eventBinding).run s = (.ok eventBox, s) := by
  obtain ⟨host, store⟩ := s
  obtain ⟨config, registered, strategy, arrays, closed, pool, queue⟩ := store
  cases opened
  cases model
  rfl

section Operation

variable {σ α : Type} {program : Editing σ α} {object object' : σ} {s s' : Session}
  {r : Except StoreError α}

theorem runOn_run (ran : Runs.run program.run (object, s) = (r, object', s')) :
    Runs.run (Editing.runOn object program).run s = (.ok (r, object'), s') := by
  obtain ⟨rfl, rfl, rfl⟩ := by simpa only [Prod.mk.injEq] using ran
  rfl

theorem succeedsOn_run (ran : Runs.run program.run (object, s) = (r, object', s'))
    (ended : r ≠ .error .waits) :
    Runs.run (succeedsOn object program).run s = (.ok r.isOk, s') := by
  unfold succeedsOn
  rw [Alike.run_bind (runOn_run ran)]
  split
  · exact absurd ‹_› ended
  · exact Runs.run_pure _ _

theorem succeedsOn_waits
    (ran : Runs.run program.run (object, s) = (.error .waits, object', s')) :
    Runs.run (succeedsOn object program).run s = (.error .waits, s') := by
  unfold succeedsOn
  rw [Alike.run_bind (runOn_run ran)]
  exact Runs.run_pure _ _

end Operation

section Deferred

variable {s : Session} {told : List (Option Status)} {left size : Nat}

theorem tallyEach_run {load : Load} {t : Tally} {seqs : List Nat}
    (putting : s.Putting told left size) :
    let course := s.act (laterPuts (seqs.map load.event))
    Runs.run (seqs.foldlM (fun tally seq => do
        return tally.add 1 (← succeedsOn (load.event seq) (eventBox.putLater .put))) t :
          StoreM Tally).run s =
      (.ok ⟨t.ok + course.answered, t.failed + course.refused⟩, course.session) := by
  induction seqs generalizing s left size t with
  | nil => rfl
  | cons seq seqs ih =>
      let c : WriteCall := .put eventBox .put (load.event seq)
      intro course
      have ok : course.answered = _ := Course.answered_call
      have failed : course.refused = _ := Course.refused_call
      have new : (load.event seq).id = 0 := rfl
      obtain ⟨ended, -, putting⟩ := putting.put new
      have counted : Runs.run (succeedsOn (load.event seq) (eventBox.putLater .put)).run s =
          (.ok (c.on c.later s).1.isOk, (c.on c.later s).2.2) :=
        succeedsOn_run rfl ended
      rw [List.foldlM_cons, bind_assoc, Alike.run_bind counted, pure_bind, ih putting, ok, failed,
        Tally.add_one]
      simp only [Nat.add_assoc, Nat.add_comm (Bool.toNat _)]
      rfl

theorem deferredPuts_run (putting : s.Putting told left size) (model : s.store.model = smallModel)
    (load : Load) :
    let course := s.act (laterPuts (load.events 0 load.operations))
    let failed := course.refused + course.session.refusals.length
    (deferredPuts load).run s =
      (.ok { ok := course.answered - failed, failed },
        course.session.awaitCompletion.takeFailures.2) := by
  intro course failed
  have submitted : Runs.run (tallyEach load.operations fun seq =>
      succeedsOn (load.event seq) (eventBox.putLater .put)).run s =
        (.ok ⟨course.answered, course.refused⟩, course.session) := by
    have ran := @tallyEach_run s told left size load {} (List.range' 0 load.operations) putting
    rw [← List.range_eq_range'] at ran
    simp only [Nat.zero_add] at ran
    have same : course = s.act (laterPuts ((List.range load.operations).map load.event)) := by
      rw [List.range_eq_range']
      rfl
    rw [same]
    exact ran
  have told : course.session.awaitCompletion.takeFailures.1.length =
      course.session.refusals.length := by
    rw [Session.refusals, List.length_map]
  change Runs.run (deferredPuts load).run s = _
  unfold deferredPuts
  rw [Alike.run_bind (boxFor_run putting.opened model), Alike.run_bind submitted]
  simp only [failed, ← told]
  rfl

end Deferred

/-- Every operation of a run is counted once: as answered if it added an event, as failed if not. -/
structure Tally.Accounts (t : Tally) (operations added failed : Nat) : Prop where
  total : t.total = operations
  ok : t.ok = added
  failed : t.failed = failed

/-- It is right to take the failures off the operations that succeeded only if there are none, or
    no operation to take them off. -/
theorem Tally.accounts_iff {operations added failed earlier : Nat}
    (all : added + failed = operations) :
    Accounts ⟨added - (failed + earlier), failed + earlier⟩ operations added failed ↔
      earlier = 0 ∧ (failed = 0 ∨ added = 0) := by
  constructor
  · rintro ⟨-, ok, failures⟩
    simp only at ok failures
    omega
  · rintro ⟨rfl, none⟩
    refine ⟨?_, ?_, rfl⟩
    all_goals simp only [total]
    all_goals omega

/-- A run of deferred puts adds an event for every put that is answered, and no put fails later. It
    counts all failures, also those of writes that were queued before, but takes them all off the
    answered puts, whether they were counted there or not. So the report accounts for the
    operations if and only if no failure was left or came of an earlier write, and no put was
    refused or none was answered. -/
theorem deferredPuts_accounts {arrays : Bool} {config : Config} {s : Session}
    (reachable : s.Reachable arrays config) (steady : s.Steady) (opened : s.store.closed = false)
    (load : Load) :
    let course := s.act (laterPuts (load.events 0 load.operations))
    let added := course.answered
    let failed := course.refused
    ∃ tally s', (deferredPuts load).run s = (.ok tally, s') ∧
      s'.eventCount = s.awaitCompletion.eventCount + added ∧
      added + failed = load.operations ∧
      failed = load.operations -
        (Engine.maxId - (s.host.machine.engine.lastId eventBox.entity).toNat) ∧
      course.session.refusals = s.refusals ∧
      tally = ⟨added - (failed + s.refusals.length), failed + s.refusals.length⟩ ∧
      (tally.Accounts load.operations added failed ↔
        s.refusals = [] ∧ (failed = 0 ∨ added = 0)) := by
  intro course added failed
  let last := s.host.machine.engine.lastId eventBox.entity
  have sound := reachable.sound
  have bound : last.toNat ≤ Engine.maxId := Nat.le_of_lt_succ last.toNat_lt
  have putting : s.Putting s.told (Engine.maxId - last.toNat)
      (s.settled.committed.size eventBox.entity) :=
    { steady, opened, told := rfl, size := rfl
      known := sound.entities eventBox.descriptor (by decide)
      left := Nat.add_sub_cancel' bound }
  have new : ∀ event ∈ load.events 0 load.operations, event.id = 0 := by
    intro event member
    obtain ⟨seq, -, rfl⟩ := List.mem_map.mp member
    rfl
  have length : (load.events 0 load.operations).length = load.operations := by
    simp [Load.events]
  obtain ⟨served, refuses, after⟩ : added = _ ∧ failed = _ ∧ _ := putting.act new
  rw [length] at served refuses after
  have told : course.session.refusals = s.refusals := by
    rw [after.steady.refusals_eq, after.told, steady.refusals_eq]
  have size : course.session.awaitCompletion.takeFailures.2.eventCount =
      s.awaitCompletion.eventCount + added := by
    change course.session.awaitCompletion.host.machine.engine.committed.size _ = _
    rw [after.steady.engine_awaitCompletion, after.size, ← served, Session.eventCount,
      steady.engine_awaitCompletion]
  have all : added + failed = load.operations := by omega
  refine ⟨_, _, deferredPuts_run putting sound.model load, size, all, refuses, told, ?_, ?_⟩
  · rw [told]
  · rw [told, ← List.length_eq_zero_iff]
    exact Tally.accounts_iff all

/-- A session in which someone has stored an event under the last id but one. -/
def nearlyFull (s : Session) : Session :=
  let calls := [(callerThread, .put none eventBox.entity 18446744073709551614
    (({ source := "stress" } : Event).record 18446744073709551614) .put)]
  { s with host := { s.host with machine := (s.host.machine.run calls).2 } }

theorem nearlyFull_reachable {s : Session} (opened : Session.fresh true {} = .ok s) :
    (nearlyFull s).Reachable true {} :=
  ⟨s, opened, ⟨_, by decide, rfl⟩, rfl, rfl, rfl, rfl, rfl⟩

/-- One id is left for two puts: one adds an event and one is refused, but none is reported as
    answered. -/
theorem deferredPuts_miscounts : ∃ s tally s', Session.fresh true {} = .ok s ∧
    let full := nearlyFull s
    full.Reachable true {} ∧ full.host.machine.engine.writer = none ∧
      full.store.closed = false ∧ full.store.queue = {} ∧
      (deferredPuts { operations := 2 }).run full = (.ok tally, s') ∧
      s'.eventCount = full.eventCount + 1 ∧ tally = ⟨0, 1⟩ ∧ tally.total ≠ 2 := by
  have eval : (Session.fresh true {}).toOption.map (fun s =>
      let full := nearlyFull s
      let ran := (deferredPuts { operations := 2 }).run full
      (full.host.machine.engine.writer, full.eventCount, ran.1.toOption, ran.2.eventCount)) =
      some (none, 1, some ⟨0, 1⟩, 2) := by
    decide +kernel
  obtain ⟨s, opened, looked⟩ := Session.of_eval eval
  obtain ⟨free, before, ran, after⟩ := by simpa only [Prod.mk.injEq] using looked
  have fresh := Session.fresh_of_opened opened
  refine ⟨s, _, _, opened, nearlyFull_reachable opened, free, fresh.opened.closed,
    fresh.opened.queue, Prod.ext (Session.ok_of_toOption ran) rfl, ?_, rfl, by decide⟩
  rw [after, before]

/-- A run of one put is reported as it is, where one of two is not. -/
theorem deferredPuts_nearlyFull : ∃ s, Session.fresh true {} = .ok s ∧
    let full := nearlyFull s
    full.Reachable true {} ∧ full.Steady ∧ full.store.closed = false ∧
      (∃ tally s', (deferredPuts { operations := 1 }).run full = (.ok tally, s') ∧
        s'.eventCount = full.awaitCompletion.eventCount + 1 ∧ tally.Accounts 1 1 0) ∧
      ∃ tally s', (deferredPuts { operations := 2 }).run full = (.ok tally, s') ∧
        s'.eventCount = full.awaitCompletion.eventCount + 1 ∧ ¬ tally.Accounts 2 1 1 := by
  have eval : (Session.fresh true {}).toOption.map (fun s =>
      ((nearlyFull s).host.machine.engine.writer,
        (nearlyFull s).host.machine.engine.lastId eventBox.entity)) =
      some (none, 18446744073709551614) := by
    decide +kernel
  obtain ⟨s, opened, looked⟩ := Session.of_eval eval
  obtain ⟨free, last⟩ := by simpa only [Prod.mk.injEq] using looked
  have fresh := Session.fresh_of_opened opened
  have reachable := nearlyFull_reachable opened
  have steady : (nearlyFull s).Steady := (Session.steady_of_openOn opened).called free
  have quiet : (nearlyFull s).refusals = [] := by
    have idle : (nearlyFull s).store.queue = {} := fresh.opened.queue
    rw [steady.refusals_eq, Session.told_of_idle (congrArg Queue.pending idle), idle]
    rfl
  obtain ⟨tally, s₁, ran, count, all, refuses, -, -, accounts⟩ :=
    deferredPuts_accounts reachable steady fresh.opened.closed { operations := 1 }
  obtain ⟨tally', s₂, ran', count', all', refuses', -, -, accounts'⟩ :=
    deferredPuts_accounts reachable steady fresh.opened.closed { operations := 2 }
  rw [last] at refuses refuses'
  rw [refuses] at all accounts
  rw [refuses'] at all' accounts'
  have added := Nat.add_right_cancel all
  have added' := Nat.add_right_cancel all'
  rw [added] at count accounts
  rw [added'] at count' accounts'
  refine ⟨s, opened, reachable, steady, fresh.opened.closed, ⟨tally, s₁, ran, count, ?_⟩,
    tally', s₂, ran', count', ?_⟩
  · exact accounts.mpr ⟨quiet, .inl rfl⟩
  · exact fun right => absurd (accounts'.mp right).2 (by decide)

end Workload

end ObjectStore
