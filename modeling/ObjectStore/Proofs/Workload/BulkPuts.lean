import ObjectStore.Proofs.Events.Lossless
import ObjectStore.Proofs.Keys.Reading
import ObjectStore.Proofs.Store.BoxRuns
import ObjectStore.Proofs.Workload.DeferredPuts

/-! # What a run of bulk puts reports

A run goes from batch to batch until all events had their turn. A batch of new events is stored as a
whole or not at all, and the run counts it so: what it reports as successful is what was added.

A run ends if its batches bring it on. Batches of no events do not, and a run of them never ends
unless it has nothing to put. A run that finds a write transaction of another thread waits with its
first batch, before it has put anything.
-/

namespace ObjectStore

open Catalog

/-! ## The batches of a run -/

namespace Workload

namespace Load

/-- The batches of so many rounds from the event `next` on, as the numbers of their events. -/
def batchesFrom (load : Load) (next : Nat) : (rounds : Nat) → List (List Nat)
  | 0 => []
  | rounds + 1 =>
    if load.operations ≤ next then []
    else
      List.range' next (min load.batchSize (load.operations - next)) ::
        load.batchesFrom (next + min load.batchSize (load.operations - next)) rounds

/-- Put a batch, and tally how that ended for all its events. -/
def putBatch (load : Load) (b : Box Event) (tally : Tally) (batch : List Nat) : StoreM Tally := do
  return tally.add batch.length (← succeedsOn (batch.map load.event) (b.putMany none))

variable {load : Load} {next rounds : Nat}

theorem flatten_batchesFrom : (load.batchesFrom next rounds).flatten =
    List.range' next (min (rounds * load.batchSize) (load.operations - next)) := by
  induction rounds generalizing next with
  | zero => simp [batchesFrom]
  | succ rounds ih =>
      rw [batchesFrom, Nat.add_one_mul]
      split
      · rename_i done
        rw [Nat.sub_eq_zero_of_le done, Nat.min_zero]
        rfl
      · rw [List.flatten_cons, ih, List.range'_append_1]
        congr 1
        omega

theorem batchesFrom_empty_iff : (∀ batch ∈ load.batchesFrom 0 rounds, batch = []) ↔
    rounds * load.batchSize = 0 ∨ load.operations = 0 := by
  rw [← List.flatten_eq_nil_iff, flatten_batchesFrom, List.range'_eq_nil_iff, Nat.sub_zero,
    Nat.min_eq_zero_iff]

theorem length_of_mem_batchesFrom (holds : load.operations = 0 ∨ 0 < load.batchSize) :
    ∀ batch ∈ load.batchesFrom next rounds, 0 < batch.length ∧ batch.length ≤ load.batchSize := by
  induction rounds generalizing next with
  | zero => simp [batchesFrom]
  | succ rounds ih =>
      rw [batchesFrom]
      split
      · simp
      · simp only [List.forall_mem_cons, List.length_range']
        exact ⟨by omega, ih⟩

theorem enough_iff : load.operations ≤ load.operations * load.batchSize ↔
    load.operations = 0 ∨ 0 < load.batchSize := by
  constructor
  · intro enough
    by_contra! none
    rw [Nat.le_zero.mp none.2] at enough
    exact none.1 (Nat.le_zero.mp enough)
  · rintro (none | some)
    · simp [none]
    · exact Nat.le_mul_of_pos_right _ some

theorem enough_of_rounds (enough : load.operations ≤ rounds * load.batchSize) :
    load.operations ≤ load.operations * load.batchSize := by
  refine enough_iff.mpr (or_iff_not_imp_right.mpr fun none => ?_)
  rw [Nat.eq_zero_of_not_pos none] at enough
  exact Nat.le_zero.mp enough

theorem batchesFrom_congr {rounds' : Nat}
    (enough : load.operations ≤ next + rounds * load.batchSize)
    (enough' : load.operations ≤ next + rounds' * load.batchSize) :
    load.batchesFrom next rounds = load.batchesFrom next rounds' := by
  induction rounds generalizing next rounds' with
  | zero =>
      have done : load.operations ≤ next := by omega
      cases rounds' <;> simp [batchesFrom, done]
  | succ rounds ih =>
      cases rounds' with
      | zero =>
          have done : load.operations ≤ next := by omega
          simp [batchesFrom, done]
      | succ rounds' =>
          rw [Nat.add_one_mul] at enough enough'
          rw [batchesFrom, batchesFrom]
          split
          · rfl
          · rw [@ih _ rounds' (by omega) (by omega)]

end Load

theorem BulkRun.finish_eq {run : BulkRun} {load : Load} {b : Box Event} {rounds : Nat} :
    run.finish load b rounds = do
      let tally ← (load.batchesFrom run.next rounds).foldlM (load.putBatch b) run.tally
      return if load.operations ≤ run.next + rounds * load.batchSize then some tally else none := by
  induction rounds generalizing run with
  | zero => simp [finish, Load.batchesFrom]
  | succ rounds ih =>
      rw [finish, Load.batchesFrom, Nat.add_one_mul]
      split
      · rename_i done
        have enough : load.operations ≤ run.next + (rounds * load.batchSize + load.batchSize) := by
          omega
        simp [enough]
      · -- a batch that is smaller is the last one, and the rounds after it are not needed
        have reached : load.operations ≤ run.next + run.size load + rounds * load.batchSize ↔
            load.operations ≤ run.next + (rounds * load.batchSize + load.batchSize) := by
          rw [size]
          omega
        simp only [round, ih, reached, List.foldlM_cons, Load.putBatch, List.length_range',
          bind_assoc, pure_bind]
        rfl

end Workload

/-! ## What a batch adds -/

namespace Box

variable {last : ObjectId} {chunks : List (List ObjectId)}

theorem clear_of_new (new : ∀ x ∈ chunks.flatten, x = 0) : Clear last chunks := by
  induction chunks generalizing last with
  | nil => trivial
  | cons chunk chunks ih =>
      rw [List.flatten_cons] at new
      refine ⟨fun x member => .inl ?_, ih fun x member => new x (List.mem_append_right _ member)⟩
      rw [new x member]
      exact UInt64.zero_le

theorem BulkStored.size_of_new {T : Type} {b : Box T} {total : b.binding.Total} {e e' : Engine}
    {objects : List T} (stored : BulkStored total e chunks objects e')
    (whole : chunks.flatten = objects.map total.idOf)
    (new : ∀ object ∈ objects, total.idOf object = 0)
    (room : HasRoomForAll (e.lastId b.entity) chunks)
    (reached : ∀ id, e.committed.contains b.entity id = true → id ≤ e.lastId b.entity) :
    e'.committed.size b.entity = e.committed.size b.entity + objects.length := by
  have zero : ∀ x ∈ chunks.flatten, x = 0 := by
    rw [whole]
    exact List.forall_mem_map.mpr new
  have even : (bulkIds (e.lastId b.entity) chunks).length = objects.length := by
    rw [length_bulkIds, whole, List.length_map]
  have keys := total.map_fst_entries even
  have nodup : (bulkIds (e.lastId b.entity) chunks).Nodup := by
    refine (nodup_bulkIds room ?_).mpr (clear_of_new zero)
    rw [List.filter_eq_nil_iff.mpr (by simpa using zero)]
    exact List.nodup_nil
  have absent : ∀ id ∈ bulkIds (e.lastId b.entity) chunks,
      (!(e.committed.table b.entity).contains id) = true := by
    intro id member
    rcases mem_bulkIds room member with ⟨carried, saved⟩ | above
    · exact absurd (zero id carried) saved
    · rw [Bool.not_eq_true', ← Bool.not_eq_true]
      exact fun stored => Nat.not_lt.mpr (reached id stored) above
  rw [Snapshot.size, stored.table, size_insertMany (by rwa [keys]), keys,
    List.countP_eq_length.mpr absent, even]
  rfl

end Box

namespace Session

variable {s : Session} {events : List Event}

/-- A bulk put of new events on a session added all of them, or did not succeed and added none. It
    waits if another thread has the writer slot, and leaves the slot to whoever has it. -/
structure PutNew (s : Session) (events : List Event) (r : Except StoreError (List ObjectId))
    (v : Store × Engine) : Prop where
  store : v.1 = s.store
  writer : v.2.writer = s.host.machine.engine.writer
  size : v.2.committed.size eventBox.entity = s.eventCount + if r.isOk then events.length else 0
  waits : r = .error .waits ↔ events ≠ [] ∧ s.host.machine.engine.HeldByOther callerThread
  unchanged : r = .error .waits → v.2 = s.host.machine.engine

theorem Sound.putMany_leads (sound : s.Sound) (opened : s.store.closed = false)
    (new : ∀ event ∈ events, event.id = 0) :
    Leads (eventBox.putMany none) (events, s.store, s.host.machine.engine) fun r w =>
      s.PutNew events r w.2 := by
  by_cases none : events = []
  · -- nothing is put without a transaction, so this succeeds even if none can begin
    subst none
    unfold Box.putMany
    apply Ends.bind (Ends.ofStore (StoreM.ensureOpen_ends opened))
    exact Ends.bind Editing.current_ends (Leads.pure ⟨rfl, rfl, rfl, by simp, nofun⟩)
  by_cases free : s.host.machine.engine.writer = Option.none
  · have ready := sound.ready opened
    have reached : ∀ id, s.host.machine.engine.committed.contains eventBox.entity id = true →
        id ≤ s.host.machine.engine.lastId eventBox.entity :=
      fun id stored => (sound.numbered.committed eventBox.entity id stored).2
    have nobody : ¬ s.host.machine.engine.HeldByOther callerThread := by
      simp [Engine.HeldByOther, free]
    refine (Box.putMany_leads (b := eventBox) eventTotal none opened ready.size ready.able
      sound.exclusive free sound.knows reached fun _ _ => Box.quiet_of_simple rfl).mono ?_
    rintro (why | ids) ⟨found, store, e⟩ ended
    · obtain ⟨-, rfl, -, same, past, -⟩ := ended
      have size := congrArg (Snapshot.size · eventBox.entity) past.committed
      exact ⟨same, past.writer, size, by simp [nobody, StoreError.exhausted], nofun⟩
    · obtain ⟨room, -, -, same, stored⟩ := ended
      have size := stored.size_of_new Store.flatten_cut new room reached
      exact ⟨same, stored.past.writer, size, by simp [nobody], nofun⟩
  · refine (Box.putMany_unbegun (b := eventBox) none opened free).mono ?_
    rintro r w ⟨⟨why, rfl, unbegun⟩, rfl⟩
    refine ⟨rfl, rfl, rfl, ?_, fun _ => rfl⟩
    cases unbegun with
    | held own => simp [Engine.HeldByOther, own, StoreError.writerHeld]
    | waits other => simp [none, other]

theorem Sound.putMany_sound (sound : s.Sound) :
    (Runs.run (eventBox.putMany none).run (events, s)).2.2.Sound := by
  have lasting : Store.Lasting smallModel Written (Store.Tended (fun _ _ _ => True) s) := by
    rw [← sound.model]
    exact Store.Tended.lasting.mono fun _ _ _ _ => trivial
  have lasts : Editing.Lasts (Store.Tended (fun _ _ _ => True) s) (eventBox.putMany none) :=
    Box.putMany_lasts lasting Fixture.event.lawful
  exact sound.of_tended (lasts.shows sound.tended)

end Session

/-! ## The report -/

namespace Workload

section Tally

variable {t : Tally} {count : Nat} {succeeded : Bool}

theorem Tally.ok_add : (t.add count succeeded).ok = t.ok + if succeeded then count else 0 := by
  cases succeeded <;> rfl

theorem Tally.total_add : (t.add count succeeded).total = t.total + count := by
  cases succeeded
  · exact (Nat.add_assoc ..).symm
  · exact Nat.add_right_comm ..

end Tally

variable {s s' : Session} {load : Load} {t t' : Tally} {rounds : Nat}

/-- The tally and the session after some operations: each was counted once, as successful if it
    added an event. -/
structure Counted (s : Session) (t : Tally) (operations : Nat) (t' : Tally) (s' : Session) :
    Prop where
  sound : s'.Sound
  opened : s'.store.closed = false
  writer : s'.host.machine.engine.writer = s.host.machine.engine.writer
  total : t'.total = t.total + operations
  added : s'.eventCount + t.ok = s.eventCount + t'.ok

section Batches

variable (sound : s.Sound) (opened : s.store.closed = false)
include sound opened

theorem Load.putMany_run (batch : List Nat) :
    ∃ r objects s', Runs.run (eventBox.putMany none).run (batch.map load.event, s) =
        (r, objects, s') ∧ s'.Sound ∧ s'.store.closed = false ∧
      s.PutNew (batch.map load.event) r (s.store, s'.host.machine.engine) := by
  have new : ∀ event ∈ batch.map load.event, event.id = 0 :=
    List.forall_mem_map.mpr fun _ _ => rfl
  obtain ⟨⟨objects, store, e⟩, ⟨-, ⟨-, rfl⟩, same⟩, put⟩ :=
    sound.putMany_leads opened new (batch.map load.event, s) ⟨rfl, sound.shows⟩
  obtain rfl : store = s.store := put.store
  exact ⟨_, _, _, rfl, sound.putMany_sound, (congrArg Store.closed same).trans opened, put⟩

theorem Load.putBatch_counts (batch : List Nat)
    (able : batch = [] ∨ ¬ s.host.machine.engine.HeldByOther callerThread) :
    ∃ t' s', Runs.run (load.putBatch eventBox t batch).run s = (.ok t', s') ∧
      Counted s t batch.length t' s' := by
  obtain ⟨r, objects, s', ran, sound', opened', put⟩ := @Load.putMany_run s load sound opened batch
  have ended : r ≠ .error .waits := by
    intro waiting
    obtain ⟨some, other⟩ := put.waits.mp waiting
    exact able.elim (fun none => some (none ▸ rfl)) (absurd other)
  have size : s'.eventCount = s.eventCount + if r.isOk then batch.length else 0 := by
    rw [Session.eventCount, put.size, List.length_map]
  refine ⟨t.add batch.length r.isOk, s', ?_, sound', opened', put.writer, Tally.total_add, ?_⟩
  · unfold Load.putBatch
    rw [Alike.run_bind (succeedsOn_run ran ended)]
    exact Runs.run_pure _ _
  · rw [size, Tally.ok_add]
    omega

theorem Load.putBatch_waits {batch : List Nat} (some : batch ≠ [])
    (other : s.host.machine.engine.HeldByOther callerThread) :
    ∃ s', Runs.run (load.putBatch eventBox t batch).run s = (.error .waits, s') ∧
      s'.host.machine.engine = s.host.machine.engine := by
  obtain ⟨r, objects, s', ran, -, -, put⟩ := @Load.putMany_run s load sound opened batch
  obtain rfl : r = .error .waits := put.waits.mpr ⟨by simpa using some, other⟩
  refine ⟨s', ?_, put.unchanged rfl⟩
  unfold Load.putBatch
  exact Alike.run_bind_error (succeedsOn_waits ran)

theorem Load.putBatches_count (batches : List (List Nat))
    (able : (∀ batch ∈ batches, batch = []) ∨
      ¬ s.host.machine.engine.HeldByOther callerThread) :
    ∃ t' s', Runs.run (batches.foldlM (load.putBatch eventBox) t).run s = (.ok t', s') ∧
      Counted s t batches.flatten.length t' s' := by
  induction batches generalizing s t with
  | nil => exact ⟨t, s, rfl, sound, opened, rfl, rfl, rfl⟩
  | cons batch batches ih =>
      obtain ⟨t₁, s₁, first, counted⟩ := @Load.putBatch_counts s load t sound opened batch
        (able.imp_left fun none => none batch List.mem_cons_self)
      have able' : (∀ batch ∈ batches, batch = []) ∨
          ¬ s₁.host.machine.engine.HeldByOther callerThread := by
        rw [Engine.HeldByOther, counted.writer]
        exact able.imp_left fun none batch member => none batch (.tail _ member)
      obtain ⟨t', s', rest, later⟩ := @ih s₁ t₁ counted.sound counted.opened able'
      refine ⟨t', s', ?_, later.sound, later.opened, later.writer.trans counted.writer, ?_, ?_⟩
      · rw [List.foldlM_cons, Alike.run_bind first]
        exact rest
      · rw [later.total, counted.total, List.flatten_cons, List.length_append, Nat.add_assoc]
      · have added := counted.added
        have addedLater := later.added
        omega

theorem bulkPutsWithin_run (able : rounds * load.batchSize = 0 ∨ load.operations = 0 ∨
      ¬ s.host.machine.engine.HeldByOther callerThread) :
    ∃ t s', ((load.batchesFrom 0 rounds).foldlM (load.putBatch eventBox) {}).run s = (.ok t, s') ∧
      Counted s {} (load.batchesFrom 0 rounds).flatten.length t s' ∧
      (bulkPutsWithin rounds load).run s =
        (.ok (if load.operations ≤ rounds * load.batchSize then some t else none), s') := by
  obtain ⟨t, s', ran, counted⟩ :=
    @Load.putBatches_count s load {} sound opened (load.batchesFrom 0 rounds)
      ((or_assoc.mpr able).imp_left Load.batchesFrom_empty_iff.mpr)
  refine ⟨t, s', ran, counted, ?_⟩
  change Runs.run (bulkPutsWithin rounds load).run s = _
  rw [bulkPutsWithin, Alike.run_bind (boxFor_run opened sound.model), BulkRun.finish_eq,
    Nat.zero_add, Alike.run_bind ran]
  rfl

theorem bulkPutsWithin_waits (some : 0 < load.operations) (holds : 0 < load.batchSize)
    (other : s.host.machine.engine.HeldByOther callerThread) (rounds : Nat) :
    ∃ s', (bulkPutsWithin (rounds + 1) load).run s = (.error .waits, s') ∧
      s'.host.machine.engine = s.host.machine.engine := by
  have batch : List.range' 0 (min load.batchSize (load.operations - 0)) ≠ [] := by
    rw [Ne, List.range'_eq_nil_iff]
    omega
  obtain ⟨s', waits, unchanged⟩ :=
    @Load.putBatch_waits s load {} sound opened _ batch other
  refine ⟨s', ?_, unchanged⟩
  change Runs.run (bulkPutsWithin (rounds + 1) load).run s = _
  rw [bulkPutsWithin, Alike.run_bind (boxFor_run opened sound.model), BulkRun.finish_eq,
    Load.batchesFrom, if_neg (Nat.not_le.mpr some), List.foldlM_cons]
  exact Alike.run_bind_error (Alike.run_bind_error waits)

/-- A run has ended within so many rounds if their batches are all and it did not have to wait. -/
theorem bulkPutsWithin_eq_some :
    (bulkPutsWithin rounds load).run s = (.ok (some t), s') ↔
      load.operations ≤ rounds * load.batchSize ∧
        (load.operations = 0 ∨ ¬ s.host.machine.engine.HeldByOther callerThread) ∧
        ((load.batchesFrom 0 rounds).foldlM (load.putBatch eventBox) {}).run s = (.ok t, s') := by
  by_cases able : rounds * load.batchSize = 0 ∨ load.operations = 0 ∨
      ¬ s.host.machine.engine.HeldByOther callerThread
  · obtain ⟨t₁, s₁, ran, -, within⟩ := @bulkPutsWithin_run s load rounds sound opened able
    rw [within, ran]
    split <;> constructor
    · rintro ⟨⟩
      exact ⟨‹_›, able.elim (fun none => by omega) id, rfl⟩
    · rintro ⟨-, -, ⟨⟩⟩
      rfl
    · rintro ⟨⟩
    · rintro ⟨enough, -⟩
      contradiction
  · simp only [not_or, not_not, Nat.mul_eq_zero] at able
    obtain ⟨⟨rounds_ne, holds⟩, some, other⟩ := able
    obtain ⟨rounds, rfl⟩ := Nat.exists_eq_succ_of_ne_zero rounds_ne
    obtain ⟨_, waits, -⟩ := bulkPutsWithin_waits sound opened (Nat.pos_of_ne_zero some)
      (Nat.pos_of_ne_zero holds) other rounds
    rw [waits]
    constructor
    · rintro ⟨⟩
    · rintro ⟨-, none | free, -⟩
      · exact absurd none some
      · exact absurd other free

end Batches

/-- What a run reports that puts every event of its load once: batch after batch, all of whose
    events are counted as successful or as failed, and successful ones are those that were added. -/
structure Load.Accounted (load : Load) (s : Session) (t : Tally) (s' : Session) : Prop where
  batches : ∃ batches : List (List Nat), batches.flatten = List.range load.operations ∧
    (∀ batch ∈ batches, 0 < batch.length ∧ batch.length ≤ load.batchSize) ∧
      (batches.foldlM (load.putBatch eventBox) {}).run s = (.ok t, s')
  total : t.total = load.operations
  ok : s'.eventCount = s.eventCount + t.ok

/-- A run of bulk puts ends if and only if it has no events to put, or its batches hold events and no
    other thread has a write transaction. Then it accounts for all events, whatever the store
    refuses, and has as many rounds as it needs. While another thread has a write transaction a run
    of batches that hold events waits, and has put nothing. -/
theorem bulkPuts_accounts {arrays : Bool} {config : Config} (reachable : s.Reachable arrays config)
    (opened : s.store.closed = false) (load : Load) :
    ((∃ rounds t s', (bulkPutsWithin rounds load).run s = (.ok (some t), s')) ↔
      load.operations = 0 ∨
        0 < load.batchSize ∧ ¬ s.host.machine.engine.HeldByOther callerThread) ∧
    (∀ rounds t s', (bulkPutsWithin rounds load).run s = (.ok (some t), s') →
      load.Accounted s t s' ∧ (bulkPuts load).run s = (.ok (some t), s')) ∧
    (0 < load.operations → 0 < load.batchSize →
      s.host.machine.engine.HeldByOther callerThread →
        ∃ s', (bulkPuts load).run s = (.error .waits, s') ∧
          s'.host.machine.engine = s.host.machine.engine) := by
  have sound := reachable.sound
  have ended {rounds t s'} := @bulkPutsWithin_eq_some s s' load t rounds sound opened
  refine ⟨⟨?_, fun holds => ?_⟩, fun rounds t s' done => ?_, fun some holds other => ?_⟩
  · rintro ⟨rounds, t, s', done⟩
    obtain ⟨enough, free, -⟩ := ended.mp done
    rcases Load.enough_iff.mp (Load.enough_of_rounds enough) with none | holds
    · exact .inl none
    · exact free.imp_right fun free => ⟨holds, free⟩
  · have able : load.operations = 0 ∨ ¬ s.host.machine.engine.HeldByOther callerThread :=
      holds.imp_right And.right
    obtain ⟨t, s', ran, -⟩ :=
      @bulkPutsWithin_run s load load.operations sound opened (.inr able)
    exact ⟨_, t, s', ended.mpr ⟨Load.enough_iff.mpr (holds.imp_right And.left), able, ran⟩⟩
  · obtain ⟨enough, able, ran⟩ := ended.mp done
    have enough' := Load.enough_of_rounds enough
    have same : load.batchesFrom 0 rounds = load.batchesFrom 0 load.operations :=
      Load.batchesFrom_congr (by omega) (by omega)
    have whole : (load.batchesFrom 0 rounds).flatten = List.range load.operations := by
      rw [Load.flatten_batchesFrom, Nat.sub_zero, Nat.min_eq_right enough, List.range_eq_range']
    obtain ⟨t₁, s₁, ran₁, counted, -⟩ := @bulkPutsWithin_run s load rounds sound opened (.inr able)
    cases ran₁.symm.trans ran
    rw [whole, List.length_range] at counted
    refine ⟨⟨⟨_, whole, ?_, ran⟩, ?_, counted.added⟩, ended.mpr ⟨enough', able, same ▸ ran⟩⟩
    · exact Load.length_of_mem_batchesFrom (Load.enough_iff.mp enough')
    · exact counted.total.trans (Nat.zero_add _)
  · obtain ⟨rounds, operations⟩ := Nat.exists_eq_add_of_le' some
    rw [bulkPuts, operations]
    exact bulkPutsWithin_waits sound opened some holds other rounds

/-- With one id left a batch of two is refused and one of one event is put, and the report says
    so. -/
theorem bulkPuts_nearlyFull : ∃ s, Session.fresh true {} = .ok s ∧
    let full := nearlyFull s
    let load : Load := { operations := 3, batchSize := 2, payloadSize := 0 }
    full.Reachable true {} ∧ full.store.closed = false ∧
      ∃ s', (bulkPutsWithin 2 load).run full = (.ok (some ⟨1, 2⟩), s') ∧
        load.Accounted full ⟨1, 2⟩ s' ∧ (bulkPuts load).run full = (.ok (some ⟨1, 2⟩), s') := by
  have eval : (Session.fresh true {}).toOption.map (fun s =>
      ((bulkPutsWithin 2 { operations := 3, batchSize := 2, payloadSize := 0 }).run
        (nearlyFull s)).1.toOption) = some (some (some ⟨1, 2⟩)) := by
    decide +kernel
  obtain ⟨s, fresh, ran⟩ := Session.of_eval eval
  have opened : (nearlyFull s).store.closed = false := (Session.fresh_of_opened fresh).opened.closed
  have done := Prod.ext (y := (_, _)) (Session.ok_of_toOption ran) rfl
  have accounts := (bulkPuts_accounts (nearlyFull_reachable fresh) opened _).2.1 2 _ _ done
  exact ⟨s, fresh, nearlyFull_reachable fresh, opened, _, done, accounts⟩

/-- A run of batches of no events never puts its event. -/
theorem bulkPuts_endless : ∃ s, Session.fresh true {} = .ok s ∧ s.Reachable true {} ∧
    s.store.closed = false ∧ ∀ rounds t s',
      (bulkPutsWithin rounds { operations := 1, batchSize := 0 }).run s ≠ (.ok (some t), s') := by
  have eval : (Session.fresh true {}).toOption.map (fun s => s.store.closed) = some false := by
    decide +kernel
  obtain ⟨s, fresh, opened⟩ := Session.of_eval eval
  have reachable := Session.reachable_of_fresh fresh
  refine ⟨s, fresh, reachable, opened, fun rounds t s' ended => ?_⟩
  have enough := ((bulkPutsWithin_eq_some reachable.sound opened).mp ended).1
  rw [Nat.mul_zero] at enough
  exact Nat.not_succ_le_zero 0 enough

end Workload

end ObjectStore
