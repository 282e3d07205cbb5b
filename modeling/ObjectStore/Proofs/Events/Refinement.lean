import ObjectStore.Proofs.Events.Operations
import ObjectStore.Proofs.Store.Reachable

/-! # The events of a store are a map

A store over an engine that keeps the events of a map answers every call as the map demands, and
what the engine keeps afterwards is the map after the call. From there the whole of a run follows,
whatever its calls and the settings of the store.
-/

namespace ObjectStore

open Catalog

/-- The store is open, has settings that were accepted, and knows the box of events. -/
structure Store.Ready (store : Store) (e : Engine) : Prop where
  opened : store.closed = false
  size : 0 < store.config.chunkSize ∧ store.config.chunkSize ≤ maxIdsPerBlock
  able : store.arrays = e.arrays
  strategy : store.strategy = .resultArray → e.arrays = true
  bound : store.model.bound? eventBinding.name = some eventBox.descriptor

/-- A store over an engine that keeps the events of a map. -/
structure Holds (m : EventMap) (v : Store × Engine) : Prop where
  ready : v.1.Ready v.2
  keeps : v.2.Keeps m

section Operations

variable {m m' : EventMap} {store : Store} {e e' : Engine} {event : Event} {id : ObjectId}

theorem Store.Ready.moved (ready : store.Ready e) (same : e'.arrays = e.arrays) : store.Ready e' :=
  ⟨ready.opened, ready.size, ready.able.trans same.symm,
    fun strategy => same.trans (ready.strategy strategy), ready.bound⟩

theorem Engine.Keeps.past {s : Snapshot} (keeps : e.Keeps m) (past : e.Past s e')
    (table : s.table eventBox.entity = m'.records)
    (sound : m'.Sound (e'.lastId eventBox.entity)) : e'.Keeps m' := by
  refine ⟨?_, past.writer.trans keeps.free, past.exclusive keeps.exclusive, ?_, sound⟩
  · rw [past.schema.entities]
    exact keeps.known
  · rw [past.committed]
    exact table

namespace Holds

theorem boxFor (holds : Holds m (store, e)) :
    Ends (Store.boxFor eventBinding) (store, e) (.ok eventBox) (store, e) :=
  StoreM.boxFor_ends holds.ready.opened holds.ready.bound

theorem past (holds : Holds m (store, e)) (past : e.Past e.committed e')
    (same : ∀ entity, e'.lastId entity = e.lastId entity) : Holds m (store, e') := by
  refine ⟨holds.ready.moved past.schema.arrays, holds.keeps.past past holds.keeps.table ?_⟩
  rw [same]
  exact holds.keeps.sound

theorem keep (holds : Holds m (store, e)) (same : e'.arrays = e.arrays) (keeps : e'.Keeps m') :
    Holds m' (store, e') :=
  ⟨holds.ready.moved same, keeps⟩

end Holds

/-! ## One event -/

theorem granted_right {next : ObjectId} (sound : m.Sound (e.lastId eventBox.entity))
    (room : Box.HasRoom (e.lastId eventBox.entity) [event.id])
    (granted : e.idForPut none eventBox.entity event.id =
      .ok (id, e.setLastId eventBox.entity next))
    (numbered : Box.assign (e.lastId eventBox.entity + 1) [event.id] = [⟨id, id ≠ event.id⟩]) :
    EventOp.RightPut (e.lastId eventBox.entity) m event (.ok id) := by
  refine ⟨room, Engine.idForPut_ne_zero granted, ?_⟩
  split
  · rename_i unsaved
    have new : e.lastId eventBox.entity + 1 = id := by
      simp only [Box.assign, unsaved, if_true, List.cons.injEq, Box.Assigned.mk.injEq] at numbered
      exact numbered.1.1
    have listed : id ∈ Box.chunkIds (e.lastId eventBox.entity) [event.id] := by
      rw [Box.chunkIds, numbered]
      exact List.mem_singleton_self id
    rcases (Box.mem_chunkIds room).mp listed with ⟨carried, nonzero⟩ | ⟨above, -⟩
    · exact absurd ((List.mem_singleton.mp carried).trans unsaved) nonzero
    · exact ⟨new.symm, sound.not_mem (.inr above)⟩
  · rename_i saved
    simp only [Box.assign, saved, if_false, List.cons.injEq, Box.Assigned.mk.injEq] at numbered
    exact numbered.1.1.symm

theorem putObject_leads {mode : PutMode} (holds : Holds m (store, e)) (fits : event.Fits)
    (new : mode = .put ∨ mode = .insert ∧ event.id ∉ m) :
    Leads (eventBox.putObject none mode) (event, store, e) fun r w =>
      EventOp.RightPut (e.lastId eventBox.entity) m event r ∧
        Holds (EventOp.after m (.put event) r) w.2 := by
  have keeps := holds.keeps
  have fresh : mode ≠ .update := by
    rintro rfl
    simp at new
  have saved : ¬ (mode = .update ∧ eventTotal.idOf event = 0) := fun both => fresh both.1
  by_cases room : Box.HasRoom (e.lastId eventBox.entity) [event.id]
  · obtain ⟨id, next, granted, numbered, grown, -⟩ :=
      Engine.idForPut_numbered keeps.known (show e.requireWritable none = .ok () from rfl) room
    have right := granted_right keeps.sound room granted numbered
    have absent : mode = .insert ∨ mode = .putNew → id ∉ m := by
      intro strict
      have given : event.id ∉ m := by
        rcases new with rfl | ⟨-, given⟩
        · simp at strict
        · exact given
      obtain ⟨-, -, carried⟩ := right
      split at carried
      · exact carried.2
      · rwa [carried]
    obtain ⟨e', put, kept⟩ := (keeps.setLastId grown).put mode right.2.1 fits absent
      fun update => absurd update fresh
    have written : Ends (eventBox.write none (eventTotal.idOf event) mode) (event, store, e)
        (.ok id) (event, store, e') := by
      refine Box.write_leads fresh granted (Box.storeUnder_ends (b := eventBox) eventTotal rfl ?_)
      rw [eventTotal_record]
      exact put
    refine Ends.leads
      (Box.putObject_ends (b := eventBox) eventTotal rfl holds.ready.opened saved written) ?_
    have done : (e.setLastId eventBox.entity next).perform callerThread
        (.put none eventBox.entity id (event.record id) mode) = .ok ((), e') :=
      Engine.changing_eq_ok.mpr put
    have same := Engine.arrays_of_perform (by rfl) done
    exact ⟨right, holds.keep same kept⟩
  · have writable : e.requireWritable (Option.map Txn.handle none) = .ok () := rfl
    obtain ⟨unsaved, -⟩ := Engine.idForPut_exhausted keeps.known writable room
    have failed : Ends (eventBox.write none (eventTotal.idOf event) mode) (event, store, e)
        (.error (.exhausted "id_for_put" eventBox.entity)) (event, store, e) :=
      Box.write_exhausted fresh keeps.known writable room
    refine Ends.leads
      (Box.putObject_error (b := eventBox) eventTotal rfl holds.ready.opened saved failed) ?_
    exact ⟨⟨room, unsaved, rfl⟩, holds⟩

/-- An insert over a stored event is refused. Its id was asked for nevertheless. -/
theorem insert_stored_leads (holds : Holds m (store, e)) (stored : event.id ∈ m) :
    Leads (eventBox.putObject none .insert) (event, store, e) fun r w =>
      r = .error (.engine "put" .idAlreadyExists
        s!"object {event.id} of entity type {eventBox.entity} already exists") ∧ Holds m w.2 := by
  have keeps := holds.keeps
  have nonzero : event.id ≠ 0 := fun zero => keeps.sound.not_mem (.inl zero) stored
  have saved : ¬ (PutMode.insert = .update ∧ eventTotal.idOf event = 0) := by simp
  have granted : e.idForPut none eventBox.entity event.id =
      .ok (event.id, e.observe eventBox.entity [event.id]) :=
    Engine.idForPut_eq_ok.mpr ⟨keeps.known, rfl, by rw [if_neg nonzero]; exact ⟨rfl, rfl⟩⟩
  have kept : (e.observe eventBox.entity [event.id]).Keeps m := keeps.setLastId le_foldl_max
  have refused := kept.put_stored stored (eventTotal.record event.id event)
  have failed : Ends (eventBox.write none (eventTotal.idOf event) .insert) (event, store, e)
      (.error (.engine "put" (Refusal.alreadyStored eventBox.entity event.id).status
        s!"object {event.id} of entity type {eventBox.entity} already exists"))
      (event, store, e.observe eventBox.entity [event.id]) :=
    Box.write_leads PutMode.noConfusion granted
      (Box.storeUnder_refused (b := eventBox) eventTotal rfl refused rfl)
  refine Ends.leads
    (Box.putObject_error (b := eventBox) eventTotal rfl holds.ready.opened saved failed) ?_
  exact ⟨rfl, holds.keep rfl kept⟩

theorem update_leads (holds : Holds m (store, e)) (fits : event.Fits) :
    Leads (eventBox.update none) (event, store, e) fun r w =>
      EventOp.Right store (e.lastId eventBox.entity) m (.update event) r ∧
        Holds (EventOp.after m (.update event) r) w.2 := by
  have keeps := holds.keeps
  have opened := holds.ready.opened
  simp only [EventOp.Right, Box.update]
  split
  · rename_i unsaved
    have failed : Ends (eventBox.putObject none .update) (event, store, e)
        (.error (.misuse (.updateUnsaved "Event"))) (event, store, e) :=
      Box.putObject_unsaved (b := eventBox) eventTotal opened unsaved
    exact Ends.bind_error failed ⟨rfl, holds⟩
  · rename_i nonzero
    have saved : ¬ (PutMode.update = .update ∧ eventTotal.idOf event = 0) :=
      fun both => nonzero both.2
    split
    · rename_i stored
      obtain ⟨e', put, kept⟩ := keeps.put .update nonzero fits (by simp) fun _ => stored
      have done : e.perform callerThread
          (.put none eventBox.entity event.id (event.record event.id) .update) = .ok ((), e') :=
        Engine.changing_eq_ok.mpr put
      have same := Engine.arrays_of_perform (by rfl) done
      have written : Ends (eventBox.write none (eventTotal.idOf event) .update) (event, store, e)
          (.ok event.id) (event, store, e') := by
        rw [Box.write_update_eq]
        apply Box.storeUnder_ends (b := eventBox) eventTotal rfl
        rw [eventTotal_record]
        exact put
      apply Ends.bind (Box.putObject_ends (b := eventBox) eventTotal rfl opened saved written)
      exact Leads.pure ⟨rfl, holds.keep same kept⟩
    · rename_i missing
      have refused := keeps.put_missing nonzero missing (eventTotal.record event.id event)
      have failed : Ends (eventBox.write none (eventTotal.idOf event) .update) (event, store, e)
          (.error (.engine "put" (Refusal.notStored eventBox.entity event.id).status
            s!"object {event.id} of entity type {eventBox.entity} does not exist"))
          (event, store, e) := by
        rw [Box.write_update_eq]
        exact Box.storeUnder_refused (b := eventBox) eventTotal rfl refused rfl
      exact Ends.bind_error
        (Box.putObject_error (b := eventBox) eventTotal rfl opened saved failed) ⟨rfl, holds⟩

/-! ## Removing -/

theorem removeId_leads (holds : Holds m (store, e)) :
    Leads (eventBox.removeId none id) (store, e) fun r w =>
      EventOp.Right store (e.lastId eventBox.entity) m (.removeId id) r ∧
        Holds (EventOp.after m (.removeId id) r) w := by
  have keeps := holds.keeps
  unfold Box.removeId
  apply Ends.bind (StoreM.ensureOpen_ends holds.ready.opened)
  simp only [EventOp.Right]
  split
  · rename_i stored
    obtain ⟨e', removed, kept⟩ := keeps.remove stored
    have done : e.perform callerThread (.remove none eventBox.entity id) = .ok ((), e') :=
      Engine.changing_eq_ok.mpr removed
    apply Ends.bind (Ends.ofHost (HostM.perform_ends done))
    exact Leads.pure ⟨rfl, holds.keep (Engine.arrays_of_perform (by rfl) done) kept⟩
  · rename_i missing
    have refused : e.perform callerThread (.remove none eventBox.entity id) =
        .error (.refused .missing) := by
      rw [Engine.perform, keeps.remove_missing missing]
      rfl
    apply Ends.bind (Ends.ofHost (HostM.perform_refused refused))
    exact Leads.throw ⟨rfl, holds⟩

theorem removeIds_leads {ids : List ObjectId} (holds : Holds m (store, e)) :
    Leads (eventBox.removeIds none ids) (store, e) fun r w =>
      EventOp.Right store (e.lastId eventBox.entity) m (.removeIds ids) r ∧
        Holds (EventOp.after m (.removeIds ids) r) w := by
  have keeps := holds.keeps
  unfold Box.removeIds
  apply Ends.bind (StoreM.ensureOpen_ends holds.ready.opened)
  cases ids with
  | nil => exact Leads.pure ⟨⟨0, rfl, Nat.zero_add _⟩, holds⟩
  | cons first ids =>
      obtain ⟨dropped, e', removed, kept, sum⟩ := keeps.removeMany (first :: ids)
      have done : e.perform callerThread (.removeMany none eventBox.entity (first :: ids)) =
          .ok (dropped, e') := removed
      refine Ends.leads (Ends.ofHost (HostM.request_ends done)) ?_
      exact ⟨⟨dropped, rfl, sum⟩, holds.keep (Engine.arrays_of_perform (by rfl) done) kept⟩

theorem removeAll_leads (holds : Holds m (store, e)) :
    Leads eventBox.removeAll (store, e) fun r w =>
      EventOp.Right store (e.lastId eventBox.entity) m .removeAll r ∧
        Holds (EventOp.after m .removeAll r) w := by
  obtain ⟨e', removed, kept⟩ := holds.keeps.removeAll
  have done : e.perform callerThread (.removeAll none eventBox.entity) = .ok (m.size, e') := removed
  unfold Box.removeAll
  apply Ends.bind (StoreM.ensureOpen_ends holds.ready.opened)
  refine Ends.leads (Ends.ofHost (HostM.request_ends done)) ?_
  exact ⟨rfl, holds.keep (Engine.arrays_of_perform (by rfl) done) kept⟩

/-! ## A batch -/

theorem putMany_leads {events : List Event} (holds : Holds m (store, e))
    (fits : ∀ event ∈ events, event.Fits) :
    Leads (eventBox.putMany none) (events, store, e) fun r w =>
      EventOp.RightPutMany store (e.lastId eventBox.entity) events r ∧
        Holds (EventOp.after m (.putMany events) r) w.2 := by
  have keeps := holds.keeps
  have ready := holds.ready
  by_cases none : events = []
  · subst none
    unfold Box.putMany
    apply Ends.bind (Ends.ofStore (StoreM.ensureOpen_ends ready.opened))
    apply Ends.bind Editing.current_ends
    refine Leads.pure ⟨?_, holds⟩
    simp [EventOp.RightPutMany, Box.HasRoomForAll, Box.bulkIds]
  · have reached : ∀ id, e.committed.contains eventBox.entity id = true →
        id ≤ e.lastId eventBox.entity := by
      intro id stored
      rw [keeps.contains, Std.ExtTreeMap.contains_iff_mem] at stored
      exact Std.not_lt.mp fun past => keeps.sound.not_mem (.inr past) stored
    refine (Box.putMany_leads (b := eventBox) eventTotal none ready.opened ready.size ready.able
      keeps.exclusive keeps.free keeps.known reached
      fun _ _ => Box.quiet_of_simple rfl).mono ?_
    have whole : (store.cut (events.map eventTotal.idOf)).flatten = events.map eventTotal.idOf :=
      Store.flatten_cut
    rintro (why | ids) ⟨found, store', e'⟩ ended
    · obtain ⟨full, rfl, rfl, rfl, past, grown⟩ := ended
      refine ⟨⟨full, ?_, rfl⟩, ready.moved past.schema.arrays,
        keeps.past past keeps.table (keeps.sound.mono grown)⟩
      refine Classical.byContradiction fun none => full (Box.hasRoomForAll_of_carried ?_)
      rw [whole]
      intro id listed zero
      obtain ⟨event, member, rfl⟩ := List.mem_map.mp listed
      exact none ⟨event, member, zero⟩
    · obtain ⟨room, rfl, rfl, rfl, stored⟩ := ended
      refine ⟨⟨room, rfl, ?_, fun id => Box.ne_zero_of_mem_bulkIds room, ?_⟩,
        ready.moved stored.past.schema.arrays, keeps.past stored.past ?_ ?_⟩
      · rw [Box.length_bulkIds, whole, List.length_map]
      · intro i event found nonzero
        refine Box.getElem?_bulkIds ?_ nonzero
        rw [whole, List.getElem?_map, found]
        rfl
      · rw [stored.table, keeps.table, ← EventMap.records_setAll]
        rfl
      · rw [stored.last]
        refine (keeps.sound.mono (Box.last_le_bulkLast room)).setAll ?_ fits
        exact fun id member => ⟨Box.ne_zero_of_mem_bulkIds room member, Box.le_bulkLast room member⟩

/-! ## Reading -/

theorem count_leads (holds : Holds m (store, e)) :
    Leads (eventBox.count none) (store, e) fun r w => r = .ok m.size ∧ Holds m w := by
  have done : e.perform callerThread (.count none eventBox.entity 0) = .ok (m.size, e) := by
    rw [Engine.perform, Engine.reading, Engine.count_eq holds.keeps.known rfl, holds.keeps.size_eq]
    rfl
  rw [Box.count, Box.countMax]
  apply Ends.bind (StoreM.ensureOpen_ends holds.ready.opened)
  exact Ends.leads (Ends.ofHost (HostM.request_ends done)) ⟨rfl, holds⟩

theorem Holds.reading {α : Type} {program : Txn → StoreM α} {r : Except StoreError α}
    (holds : Holds m (store, e))
    (body : ∀ e₁, e.Within callerThread .read e.committed e₁ →
      Ends (program ⟨e.nextHandle, .read⟩) (store, e₁) r (store, e₁)) :
    Leads (Box.reading none program) (store, e) fun r' w => r' = r ∧ Holds m w := by
  refine (Store.reading_leads holds.ready.opened holds.keeps.exclusive body).mono ?_
  rintro r' ⟨store', e'⟩ ⟨same, rfl, past, last⟩
  exact ⟨same, holds.past past last⟩

theorem get_leads (holds : Holds m (store, e)) :
    Leads (eventBox.get none id) (store, e) fun r w => r = .ok m[id]? ∧ Holds m w := by
  have keeps := holds.keeps
  refine holds.reading fun e₁ within => ?_
  have known : e₁.entities.contains eventBox.entity = true := within.known.trans keeps.known
  have stored := keeps.record?_eq id
  cases found : m[id]? with
  | none =>
      rw [found] at stored
      exact Box.getIn_missing holds.ready.opened known within.view stored
  | some event =>
      rw [found] at stored
      exact Box.getIn_ends holds.ready.opened known within.view stored
        (keeps.decode_record found) (Box.loads_of_simple rfl)

theorem Holds.readMany_ends {selection : Selection} {existingOnly : Bool}
    (holds : Holds m (store, e)) (objects : List (Option Event))
    (within : e.Within callerThread .read e.committed e')
    (selected : eventBox.selected e.committed selection =
      objects.map (Option.map fun event => event.record event.id))
    (stored : ∀ event, some event ∈ objects → ∃ id : ObjectId, m[id]? = some event) :
    Ends (eventBox.readMany ⟨e.nextHandle, .read⟩ selection existingOnly) (store, e')
      (.ok (Box.placed existingOnly objects)) (store, e') := by
  have known : e'.entities.contains eventBox.entity = true := within.known.trans holds.keeps.known
  have read : List.Forall₂ eventBox.Reads (eventBox.selected e.committed selection) objects := by
    rw [selected]
    refine Box.forall₂_reads fun event listed => ?_
    obtain ⟨id, found⟩ := stored event listed
    exact holds.keeps.decode_record found
  exact Box.readMany_ends_of_simple known within.view read holds.ready.opened
    (fun strategy => within.schema.arrays.trans (holds.ready.strategy strategy)) rfl

theorem Holds.readIds_ends {ids : List ObjectId} {existingOnly : Bool} (holds : Holds m (store, e))
    (within : e.Within callerThread .read e.committed e') :
    Ends (eventBox.readMany ⟨e.nextHandle, .read⟩ (.ids ids) existingOnly) (store, e')
      (.ok (Box.placed existingOnly (ids.map fun id => m[id]?))) (store, e') := by
  refine holds.readMany_ends _ within ?_ ?_
  · rw [Box.selected, List.map_map]
    exact List.map_congr_left fun id _ => holds.keeps.record?_eq id
  · intro event listed
    obtain ⟨id, -, found⟩ := List.mem_map.mp listed
    exact ⟨id, found⟩

theorem getMany_leads {ids : List ObjectId} (holds : Holds m (store, e)) :
    Leads (eventBox.getMany none ids) (store, e) fun r w =>
      r = .ok (ids.map fun id => m[id]?) ∧ Holds m w :=
  holds.reading fun _ within => holds.readIds_ends within

theorem getManyExisting_leads {ids : List ObjectId} (holds : Holds m (store, e)) :
    Leads (eventBox.getManyExisting none ids) (store, e) fun r w =>
      r = .ok (ids.filterMap fun id => m[id]?) ∧ Holds m w := by
  refine holds.reading fun e₁ within => ?_
  apply Ends.bind (holds.readIds_ends within)
  rw [Box.reduceOption_placed, Box.reduceOption_eq, List.filterMap_map]
  exact Ends.pure

theorem getAll_leads (holds : Holds m (store, e)) :
    Leads (eventBox.getAll none) (store, e) fun r w => r = .ok m.values ∧ Holds m w := by
  refine holds.reading fun e₁ within => ?_
  refine Ends.bind (holds.readMany_ends (m.values.map some) within ?_ ?_) ?_
  · rw [Box.selected, holds.keeps.recordList_eq, List.map_map, List.map_map]
    rfl
  · intro event listed
    obtain ⟨event, member, same⟩ := List.mem_map.mp listed
    cases same
    rw [values_eq] at member
    obtain ⟨entry, entries, rfl⟩ := List.mem_map.mp member
    exact ⟨entry.1, Std.ExtTreeMap.mem_toList_iff_getElem?_eq_some.mp entries⟩
  · rw [Box.reduceOption_placed, Box.reduceOption_eq, List.filterMap_map]
    have same : m.values.filterMap ((fun event => event) ∘ some) = m.values := List.filterMap_some
    rw [same]
    exact Ends.pure

/-! ## Runs -/

theorem EventOp.right_pool {op : EventOp} {r : Except StoreError op.Answer} {last : ObjectId}
    {pool : EncoderPool} :
    op.Right { store with pool } last m r ↔ op.Right store last m r := by
  cases op with
  | putMany => cases r <;> exact Iff.rfl
  | _ => exact Iff.rfl

/-- Every call ends as the map demands, and keeps the map. -/
theorem perform_leads {op : EventOp} (holds : Holds m (store, e)) (fits : op.Fits) :
    Leads op.perform (store, e) fun r w =>
      op.Right store (e.lastId eventBox.entity) m r ∧ Holds (op.after m r) w := by
  cases op with
  | put event =>
      exact holds.boxFor.bind (Editing.answer_leads (putObject_leads holds fits (.inl rfl)))
  | insert event =>
      refine holds.boxFor.bind (Editing.answer_leads ?_)
      simp only [EventOp.Right]
      split
      · rename_i stored
        refine (insert_stored_leads holds stored).mono ?_
        rintro r w ⟨rfl, kept⟩
        exact ⟨rfl, kept⟩
      · rename_i missing
        refine (putObject_leads holds fits (.inr ⟨rfl, missing⟩)).mono ?_
        rintro (why | id) w right <;> exact right
  | update event => exact holds.boxFor.bind (Editing.answer_leads (update_leads holds fits))
  | putMany events => exact holds.boxFor.bind (Editing.answer_leads (putMany_leads holds fits))
  | removeId id => exact holds.boxFor.bind (removeId_leads holds)
  | removeIds ids => exact holds.boxFor.bind (removeIds_leads holds)
  | removeAll => exact holds.boxFor.bind (removeAll_leads holds)
  | count => exact holds.boxFor.bind (count_leads holds)
  | get id => exact holds.boxFor.bind (get_leads holds)
  | getMany ids => exact holds.boxFor.bind (getMany_leads holds)
  | getManyExisting ids => exact holds.boxFor.bind (getManyExisting_leads holds)
  | getAll => exact holds.boxFor.bind (getAll_leads holds)

end Operations

namespace Session

variable {s : Session} {m : EventMap}

/-- A session that holds the events of a map. -/
def Holding (s : Session) (m : EventMap) : Prop :=
  ∃ v, Viewed.Shows s v ∧ Holds m v

theorem Holding.step (h : s.Holding m) (op : EventOp) (fits : op.Fits) :
    op.Right s.store (s.host.machine.engine.lastId eventBox.entity) m (op.step s).1 ∧
      (op.step s).2.Holding (op.after m (op.step s).1) := by
  obtain ⟨⟨store, e⟩, shows, holds⟩ := h
  obtain ⟨v, shown, right, kept⟩ := perform_leads holds fits s shows
  obtain ⟨⟨-, rfl⟩, same⟩ := shows
  refine ⟨?_, v, shown, kept⟩
  rw [same]
  exact EventOp.right_pool.mpr right

theorem Holding.agrees (h : s.Holding m) : s.Agrees m where
  count := (h.step .count trivial).1
  get id := (h.step (.get id) trivial).1
  getMany ids := (h.step (.getMany ids) trivial).1
  getManyExisting ids := (h.step (.getManyExisting ids) trivial).1
  getAll := (h.step .getAll trivial).1

theorem Holding.refines {ops : List EventOp} (h : s.Holding m) (fits : ∀ op ∈ ops, op.Fits) :
    s.Refines m ops := by
  induction ops generalizing s m with
  | nil => exact h.agrees
  | cons op ops ih =>
      obtain ⟨right, kept⟩ := h.step op (fits op List.mem_cons_self)
      exact ⟨h.agrees, right, ih kept fun op member => fits op (List.mem_cons_of_mem _ member)⟩

theorem Sound.ready (h : s.Sound) (opened : s.store.closed = false) :
    s.store.Ready s.host.machine.engine where
  opened := opened
  size := h.size
  able := h.able
  strategy := h.strategy
  bound := by
    rw [h.model]
    rfl

theorem Fresh.holding {config : Config} (h : s.Fresh config) : s.Holding ∅ := by
  refine ⟨(s.store, s.host.machine.engine), h.sound.shows, h.sound.ready h.opened.closed, ?_⟩
  refine ⟨h.entities ⟨10, "Event", false, eventBinding.name⟩ List.mem_cons_self, h.writer,
    h.exclusive, ?_, EventMap.sound_empty⟩
  rw [h.committed]
  rfl

/-- From an empty store on, whatever calls are made, the store is a map of events. -/
theorem fresh_refines {arrays : Bool} {config : Config} {ops : List EventOp}
    (opened : fresh arrays config = .ok s) (fits : ∀ op ∈ ops, op.Fits) : s.Refines ∅ ops :=
  (fresh_of_opened opened).holding.refines fits

/-- A batch that takes its new ids beside one that is carried, an insert over it, and removals of
    which some find nothing. -/
theorem fresh_refines_batch : ∃ s, fresh true { chunkSize := 2 } = .ok s ∧
    let batch : EventOp := .putMany [{ id := 3, source := "a" }, {}, { id := 3, source := "b" }]
    (batch.step s).1 = .ok [3, 1, 3] ∧
      s.Refines ∅ [batch, .insert { id := 3 }, .update {}, .removeIds [3, 9, 3], .removeId 3] := by
  have eval : (fresh true { chunkSize := 2 }).toOption.map (fun s =>
      ((EventOp.putMany [{ id := 3, source := "a" }, {}, { id := 3, source := "b" }]).step s).1) =
        some (.ok [3, 1, 3]) := by
    decide +kernel
  obtain ⟨s, opened, answered⟩ := of_eval eval
  have empty : ({} : Event).Fits := ⟨by decide, by decide⟩
  have plain : ({ id := 3 } : Event).Fits := ⟨by decide, by decide⟩
  have first : ({ id := 3, source := "a" } : Event).Fits := ⟨by decide, by decide⟩
  have last : ({ id := 3, source := "b" } : Event).Fits := ⟨by decide, by decide⟩
  refine ⟨s, opened, answered, fresh_refines opened ?_⟩
  simp [EventOp.Fits, empty, plain, first, last]

end Session

end ObjectStore
