import ObjectStore.Proofs.Events.Refinement

/-! # What a bulk put loses

A bulk put that succeeds stores every event of its batch, unless a block of new ids holds an id that
an event of the same chunk or of a later one carries: then two events have one id, and the later of
them is the one that stays. Whether that happens is known before the put, from the sequence and the
ids that are carried (`Box.Clear`).
-/

namespace ObjectStore

open Catalog

/-- A bulk put that answered so lost no event: the ids are distinct, each event is found under its
    id, and there are as many events more as carried no id or one that was not stored. -/
structure Session.Lossless (s : Session) (events : List Event) (ids : List ObjectId)
    (s' : Session) : Prop where
  length : ids.length = events.length
  distinct : ids.Nodup
  found : ∀ (i : Nat) event id, events[i]? = some event → ids[i]? = some id →
    ((EventOp.get id).step s').1 = .ok (some { event with id })
  grown : ∃ before, (EventOp.count.step s).1 = .ok before ∧
    (EventOp.count.step s').1 = .ok (before + (events.map Event.id).countP fun id =>
      id = 0 || !s.host.machine.engine.committed.contains eventBox.entity id)

/-! ## Tables -/

section Tables

variable {t : Table} {entries : List (ObjectId × Bytes)}

theorem size_insertMany (distinct : (entries.map Prod.fst).Nodup) :
    (t.insertMany entries).size =
      t.size + (entries.map Prod.fst).countP fun id => !t.contains id := by
  induction entries generalizing t with
  | nil => simp
  | cons entry entries ih =>
      rw [List.map_cons, List.nodup_cons] at distinct
      have others :
          (entries.map Prod.fst).countP (fun id => !(t.insert entry.1 entry.2).contains id) =
            (entries.map Prod.fst).countP fun id => !t.contains id := by
        refine List.countP_congr fun id member => ?_
        have other : entry.1 ≠ id := fun same => distinct.1 (same ▸ member)
        simp [Std.ExtTreeMap.contains_insert, other]
      rw [Std.ExtTreeMap.insertMany_cons, ih distinct.2, others, Std.ExtTreeMap.size_insert,
        List.map_cons, List.countP_cons]
      cases held : t.contains entry.1 <;>
        simp only [Bool.not_true, Bool.not_false, if_true, Bool.false_eq_true, if_false] <;> omega

end Tables

namespace Session

variable {s s' : Session} {events : List Event} {ids : List ObjectId}

theorem step_leads {op : EventOp} {r : Except StoreError op.Answer} {v : Store × Engine}
    {Q : Except StoreError op.Answer → Store × Engine → Prop} (shows : Viewed.Shows s v)
    (done : op.step s = (r, s')) (leads : Leads op.perform v Q) :
    ∃ v, Viewed.Shows s' v ∧ Q r v := by
  obtain ⟨v, shown, holds⟩ := leads s shows
  rw [show Runs.run op.perform.run s = (r, s') from done] at shown holds
  exact ⟨v, shown, holds⟩

theorem Sound.knows (sound : s.Sound) :
    s.host.machine.engine.entities.contains eventBox.entity = true :=
  sound.entities ⟨10, "Event", false, eventBinding.name⟩ List.mem_cons_self

theorem open_of_putMany (sound : s.Sound)
    (done : (EventOp.putMany events).step s = (.ok ids, s')) :
    s.store.closed = false ∧ (events ≠ [] → s.host.machine.engine.writer = none) := by
  have opened : s.store.closed = false := by
    refine Bool.eq_false_iff.mpr fun closed => ?_
    have fails : Ends (EventOp.putMany events).perform (s.store, s.host.machine.engine)
        (.error .closed) (s.store, s.host.machine.engine) :=
      Ends.bind_error (Ends.bind_error (StoreM.ensureOpen_closed closed) ⟨rfl, rfl⟩) ⟨rfl, rfl⟩
    obtain ⟨v, -, ended, -⟩ := step_leads sound.shows done fails
    cases ended
  refine ⟨opened, fun some => Classical.byContradiction fun taken => ?_⟩
  have fails : Leads (EventOp.putMany events).perform (s.store, s.host.machine.engine)
      fun r _ => ∃ why, r = .error why := by
    refine (StoreM.boxFor_ends opened (sound.ready opened).bound).bind (Editing.answer_leads ?_)
    refine (Box.putMany_unbegun (b := eventBox) some opened taken).mono ?_
    rintro r w ⟨⟨why, failed, -⟩, -⟩
    exact ⟨why, failed⟩
  obtain ⟨v, -, why, ended⟩ := step_leads sound.shows done fails
  cases ended

theorem putMany_stored (sound : s.Sound)
    (done : (EventOp.putMany events).step s = (.ok ids, s')) :
    ∃ e', Viewed.Shows s' (s.store, e') ∧ s.store.Ready e' ∧ e'.Exclusive ∧
      e'.entities.contains eventBox.entity = true ∧
      Box.HasRoomForAll (s.host.machine.engine.lastId eventBox.entity)
        (s.store.cut (events.map Event.id)) ∧
      ids = Box.bulkIds (s.host.machine.engine.lastId eventBox.entity)
        (s.store.cut (events.map Event.id)) ∧
      e'.committed.table eventBox.entity =
        (s.host.machine.engine.committed.table eventBox.entity).insertMany
          (eventTotal.entries ids events) := by
  obtain ⟨opened, free⟩ := open_of_putMany sound done
  have ready := sound.ready opened
  have boxed : Ends (Store.boxFor eventBinding) (s.store, s.host.machine.engine) (.ok eventBox)
      (s.store, s.host.machine.engine) := StoreM.boxFor_ends opened ready.bound
  by_cases none : events = []
  · subst none
    have put : Ends (EventOp.putMany []).perform (s.store, s.host.machine.engine) (.ok [])
        (s.store, s.host.machine.engine) := by
      refine boxed.bind (Editing.answer_leads ?_)
      unfold Box.putMany
      apply Ends.bind (Ends.ofStore (StoreM.ensureOpen_ends opened))
      exact Ends.bind Editing.current_ends (Leads.pure ⟨rfl, rfl⟩)
    obtain ⟨v, shown, ended, rfl⟩ := step_leads sound.shows done put
    cases ended
    refine ⟨_, shown, ready, sound.exclusive, sound.knows, ?_, ?_, ?_⟩
    · simp [Box.HasRoomForAll]
    · simp [Box.bulkIds]
    · exact Std.ExtTreeMap.insertMany_nil.symm
  · have reached : ∀ id, s.host.machine.engine.committed.contains eventBox.entity id = true →
        id ≤ s.host.machine.engine.lastId eventBox.entity :=
      fun id stored => (sound.numbered.committed eventBox.entity id stored).2
    have put : Leads (EventOp.putMany events).perform (s.store, s.host.machine.engine) fun r w =>
        ∃ found, Box.BulkEnd (b := eventBox) eventTotal s.store s.host.machine.engine events r
          (found, w) := by
      refine boxed.bind (Editing.answer_leads (Leads.mono (Box.putMany_leads (b := eventBox)
        eventTotal none opened ready.size ready.able sound.exclusive (free none) sound.knows reached
        fun _ _ => Box.quiet_of_simple rfl) ?_))
      exact fun r w ended => ⟨w.1, ended⟩
    obtain ⟨⟨store', e'⟩, shown, found, room, numbered, -, rfl, stored⟩ :=
      step_leads sound.shows done put
    refine ⟨e', shown, ready.moved stored.past.schema.arrays, stored.past.exclusive sound.exclusive,
      ?_, room, numbered, ?_⟩
    · rw [stored.past.schema.entities]
      exact sound.knows
    · rw [stored.table, numbered]

theorem get_stored {e : Engine} {store : Store} {id : ObjectId} {event : Event}
    (shows : Viewed.Shows s (store, e)) (ready : store.Ready e) (exclusive : e.Exclusive)
    (known : e.entities.contains eventBox.entity = true) (fits : event.Fits)
    (stored : (e.committed.table eventBox.entity)[id]? = some (event.record id)) :
    ((EventOp.get id).step s).1 = .ok (some { event with id }) := by
  have read : Leads (eventBox.get none id) (store, e) fun r v =>
      r = .ok (some { event with id }) ∧ v.1 = store ∧ e.Past e.committed v.2 ∧
        ∀ entity, v.2.lastId entity = e.lastId entity := by
    refine Store.reading_leads ready.opened exclusive fun e₁ within => ?_
    exact Box.getIn_ends (b := eventBox) ready.opened (within.known.trans known) within.view
      stored (Event.decode_record fits) (Box.loads_of_simple rfl)
  have found : Leads (EventOp.get id).perform (store, e) fun r _ =>
      r = .ok (some { event with id }) :=
    (StoreM.boxFor_ends ready.opened ready.bound).bind (read.mono fun r w ended => ended.1)
  obtain ⟨v, -, ended⟩ := step_leads shows rfl found
  exact ended

theorem count_step {e : Engine} {store : Store} (shows : Viewed.Shows s (store, e))
    (ready : store.Ready e) (known : e.entities.contains eventBox.entity = true) :
    (EventOp.count.step s).1 = .ok (e.committed.table eventBox.entity).size := by
  have done : e.perform callerThread (.count none eventBox.entity 0) =
      .ok ((e.committed.table eventBox.entity).size, e) := by
    rw [Engine.perform, Engine.reading, Engine.count_eq known rfl]
    rfl
  have count : Ends EventOp.count.perform (store, e)
      (.ok (e.committed.table eventBox.entity).size) (store, e) := by
    apply (StoreM.boxFor_ends ready.opened ready.bound).bind
    apply Ends.bind (StoreM.ensureOpen_ends ready.opened)
    exact Ends.ofHost (HostM.request_ends done)
  obtain ⟨v, -, ended, -⟩ := step_leads shows rfl count
  exact ended

/-- A bulk put that succeeds loses nothing exactly if its blocks of new ids are clear of the ids its
    events carry. -/
theorem lossless_iff {arrays : Bool} {config : Config} (reachable : s.Reachable arrays config)
    (fits : ∀ event ∈ events, event.Fits)
    (distinct : ((events.map Event.id).filter (· ≠ 0)).Nodup)
    (done : (EventOp.putMany events).step s = (.ok ids, s')) :
    s.Lossless events ids s' ↔
      Box.Clear (s.host.machine.engine.lastId eventBox.entity)
        (s.store.cut (events.map Event.id)) := by
  have sound := reachable.sound
  obtain ⟨e', shown, ready, exclusive, known, room, numbered, table⟩ := putMany_stored sound done
  have whole : (s.store.cut (events.map Event.id)).flatten = events.map Event.id :=
    Store.flatten_cut
  have apart : ids.Nodup ↔ Box.Clear (s.host.machine.engine.lastId eventBox.entity)
      (s.store.cut (events.map Event.id)) := by
    rw [numbered]
    exact Box.nodup_bulkIds room (by rwa [whole])
  have even : ids.length = events.length := by
    rw [numbered, Box.length_bulkIds, whole, List.length_map]
  have keys : (eventTotal.entries ids events).map Prod.fst = ids :=
    eventTotal.map_fst_entries even
  refine ⟨fun lossless => apart.mp lossless.distinct, fun clear => ?_⟩
  have nodup := apart.mpr clear
  refine ⟨even, nodup, ?_, ?_⟩
  · intro i event id at_event at_id
    refine get_stored shown ready exclusive known
      (fits event (List.mem_of_getElem? at_event)) ?_
    rw [table]
    refine getElem?_insertMany (by rwa [keys]) ?_
    refine List.mem_of_getElem? (i := i) ?_
    simp only [Binding.Total.entries, List.getElem?_zipWith, at_id, at_event, eventTotal_record]
  · obtain ⟨opened, -⟩ := open_of_putMany sound done
    refine ⟨_, count_step sound.shows (sound.ready opened) sound.knows, ?_⟩
    rw [count_step shown ready known, table, size_insertMany (by rwa [keys]), keys, numbered,
      Box.countP_bulkIds room, whole]
    · rfl
    · -- an id past the sequence is new to the table, so its event adds to the count
      intro x above
      rw [Bool.not_eq_true', ← Bool.not_eq_true]
      intro stored
      exact Nat.not_lt.mpr (sound.numbered.committed eventBox.entity x stored).2 above

/-- The event that carries an id is out of the way of the new ids, and the second chunk starts past
    it. -/
theorem lossless_spread : ∃ s s', fresh true { chunkSize := 2 } = .ok s ∧
    (EventOp.putMany [{}, { id := 7 }, {}]).step s = (.ok [1, 7, 8], s') ∧
      s.Lossless [{}, { id := 7 }, {}] [1, 7, 8] s' := by
  have eval : (fresh true { chunkSize := 2 }).toOption.map (fun s =>
      (((EventOp.putMany [{}, { id := 7 }, {}]).step s).1.toOption,
        s.host.machine.engine.lastId eventBox.entity, s.store.cut ([0, 7, 0] : List ObjectId))) =
      some (some [1, 7, 8], 0, [[0, 7], [0]]) := by
    decide +kernel
  obtain ⟨s, opened, looked⟩ := of_eval eval
  obtain ⟨put, last, cut⟩ := by simpa only [Prod.mk.injEq] using looked
  have done := Prod.ext (y := (_, _)) (ok_of_toOption put) rfl
  have plain : ({} : Event).Fits := ⟨by decide, by decide⟩
  have carried : ({ id := 7 } : Event).Fits := ⟨by decide, by decide⟩
  have clear : Box.Clear (s.host.machine.engine.lastId eventBox.entity)
      (s.store.cut ([0, 7, 0] : List ObjectId)) := by
    rw [last, cut]
    exact ⟨by simp, by simp, trivial⟩
  exact ⟨s, _, opened, done, (lossless_iff (reachable_of_fresh opened) (by simp [plain, carried])
    (by decide) done).mpr clear⟩

/-- The new id of the second event is the one the first carries, and so only one of them stays. -/
theorem lossy_overlap : ∃ s s', fresh true {} = .ok s ∧
    (EventOp.putMany [{ id := 1 }, {}]).step s = (.ok [1, 1], s') ∧
      (EventOp.count.step s').1 = .ok 1 ∧ ¬ s.Lossless [{ id := 1 }, {}] [1, 1] s' := by
  have eval : (fresh true {}).toOption.map (fun s =>
      (((EventOp.putMany [{ id := 1 }, {}]).step s).1.toOption,
        (EventOp.count.step ((EventOp.putMany [{ id := 1 }, {}]).step s).2).1.toOption)) =
      some (some [1, 1], some 1) := by
    decide +kernel
  obtain ⟨s, opened, looked⟩ := of_eval eval
  obtain ⟨put, counted⟩ := by simpa only [Prod.mk.injEq] using looked
  have twice : ¬ ([1, 1] : List ObjectId).Nodup := by decide
  exact ⟨s, _, opened, Prod.ext (ok_of_toOption put) rfl, ok_of_toOption counted,
    fun lossless => twice lossless.distinct⟩

end Session

end ObjectStore
