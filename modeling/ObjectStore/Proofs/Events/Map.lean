import ObjectStore.Proofs.Engine.OwnTransaction
import ObjectStore.Proofs.Store.Objects

/-! # Events as a map

The events a store should hold are a map by id. `Engine.Keeps` says that an engine keeps exactly
these events, between calls: the committed records of the entity type are those of the map, every
id is one its sequence has reached, and no write transaction is open. The lemmas below say what
each engine call on events does to the map.
-/

namespace ObjectStore

open Catalog

namespace Catalog

/-- The box of events. -/
@[reducible] def eventBox : Box Event := ⟨⟨10, "Event", false, eventBinding.name⟩, eventBinding⟩

end Catalog

/-- Events by id. -/
abbrev EventMap := Std.ExtTreeMap ObjectId Event

namespace EventMap

variable {m : EventMap} {id last : ObjectId} {event : Event}

theorem contains_eq_false : m.contains id = false ↔ id ∉ m := by
  rw [Bool.eq_false_iff, ne_eq, Std.ExtTreeMap.contains_iff_mem]

/-- The map with an event under an id, which the event then carries. -/
def set (m : EventMap) (id : ObjectId) (event : Event) : EventMap :=
  m.insert id { event with id }

/-- The records of the events of a map. -/
def records (m : EventMap) : Table :=
  m.map fun id event => event.record id

@[simp] theorem getElem?_records : m.records[id]? = m[id]?.map fun event => event.record id := by
  simp [records, Std.ExtTreeMap.getElem?_map]

theorem contains_records : m.records.contains id = m.contains id := by
  simp [records]

@[simp] theorem records_set : (m.set id event).records = m.records.insert id (event.record id) := by
  ext other : 1
  simp only [set, getElem?_records, Std.ExtTreeMap.getElem?_insert]
  split
  · rename_i same
    rw [Std.compare_eq_iff_eq.mp same]
    rfl
  · simp

/-- The events of a map carry their ids, which are nonzero and at most `last`, and can be read back
    from their records. -/
def Sound (m : EventMap) (last : ObjectId) : Prop :=
  ∀ id event, m[id]? = some event → id ≠ 0 ∧ id ≤ last ∧ event.id = id ∧ event.Fits

theorem Sound.mono {last' : ObjectId} (h : m.Sound last) (grown : last ≤ last') :
    m.Sound last' := by
  intro id event found
  obtain ⟨nonzero, reached, rest⟩ := h id event found
  exact ⟨nonzero, Std.le_trans reached grown, rest⟩

theorem Sound.set (h : m.Sound last) (nonzero : id ≠ 0) (reached : id ≤ last) (fits : event.Fits) :
    (m.set id event).Sound last := by
  intro other found at_other
  simp only [EventMap.set, Std.ExtTreeMap.getElem?_insert] at at_other
  split at at_other
  · rename_i same
    cases at_other
    rw [← Std.compare_eq_iff_eq.mp same]
    exact ⟨nonzero, reached, rfl, fits.source, fits.payload⟩
  · exact h other found at_other

/-- The map without the events of some ids. -/
def without (m : EventMap) (ids : List ObjectId) : EventMap :=
  ids.foldl (fun m id => m.erase id) m

theorem getElem?_without {ids : List ObjectId} :
    (m.without ids)[id]? = if id ∈ ids then none else m[id]? := by
  induction ids generalizing m with
  | nil => simp [without]
  | cons first ids ih =>
      rw [without, List.foldl_cons]
      apply (@ih (m.erase first)).trans
      simp only [List.mem_cons]
      grind

theorem records_without {ids : List ObjectId} :
    (m.without ids).records = ids.foldl (fun table id => table.erase id) m.records := by
  ext other : 1
  rw [getElem?_records, getElem?_without, Snapshot.getElem?_eraseAll, getElem?_records]
  split <;> rfl

theorem Sound.without {ids : List ObjectId} (h : m.Sound last) : (m.without ids).Sound last := by
  intro other event found
  rw [getElem?_without] at found
  split at found
  · cases found
  · exact h other event found

/-- Dropping different events one after another drops as many. -/
theorem size_without {ids : List ObjectId} (distinct : ids.Nodup) (stored : ∀ id ∈ ids, id ∈ m) :
    ids.length + (m.without ids).size = m.size := by
  induction ids generalizing m with
  | nil => simp [EventMap.without]
  | cons first ids ih =>
      rw [List.nodup_cons] at distinct
      have later : ∀ id ∈ ids, id ∈ (m.erase first : EventMap) := by
        intro id member
        rw [Std.ExtTreeMap.mem_erase]
        refine ⟨?_, stored id (List.mem_cons_of_mem _ member)⟩
        rintro same
        rw [Std.compare_eq_iff_eq] at same
        exact distinct.1 (same ▸ member)
      have rest : ids.length + (EventMap.without (m.erase first) ids).size = (m.erase first).size :=
        ih distinct.2 later
      have here : first ∈ m := stored first List.mem_cons_self
      rw [Std.ExtTreeMap.size_erase, if_pos (Std.ExtTreeMap.contains_iff_mem.mpr here)] at rest
      have some : 0 < m.size := by
        refine Nat.pos_of_ne_zero fun none => ?_
        rw [← Std.ExtTreeMap.eq_empty_iff_size_eq_zero] at none
        subst none
        simp at here
      rw [EventMap.without, List.foldl_cons, List.length_cons]
      rw [EventMap.without] at rest
      omega

/-- The map with events under ids, one after another. -/
def setAll (m : EventMap) (ids : List ObjectId) (events : List Event) : EventMap :=
  (ids.zip events).foldl (fun m entry => m.set entry.1 entry.2) m

theorem records_setAll {ids : List ObjectId} {events : List Event} :
    (m.setAll ids events).records = m.records.insertMany (eventTotal.entries ids events) := by
  induction ids generalizing m events with
  | nil => exact Std.ExtTreeMap.insertMany_nil.symm
  | cons id ids ih =>
      cases events with
      | nil => exact Std.ExtTreeMap.insertMany_nil.symm
      | cons event events =>
          rw [Binding.Total.entries, List.zipWith_cons_cons, Std.ExtTreeMap.insertMany_cons,
            eventTotal_record, ← records_set]
          exact ih

theorem Sound.setAll {ids : List ObjectId} {events : List Event} (h : m.Sound last)
    (reached : ∀ id ∈ ids, id ≠ 0 ∧ id ≤ last) (fits : ∀ event ∈ events, event.Fits) :
    (m.setAll ids events).Sound last := by
  induction ids generalizing m events with
  | nil => exact h
  | cons id ids ih =>
      cases events with
      | nil => exact h
      | cons event events =>
          obtain ⟨nonzero, bound⟩ := reached id List.mem_cons_self
          exact ih (h.set nonzero bound (fits event List.mem_cons_self))
            (fun id member => reached id (List.mem_cons_of_mem _ member))
            (fun event member => fits event (List.mem_cons_of_mem _ member))

theorem Sound.not_mem (h : m.Sound last) (past : id = 0 ∨ last < id) : id ∉ m := by
  intro member
  obtain ⟨event, found⟩ :=
    Option.isSome_iff_exists.mp (Std.ExtTreeMap.isSome_getElem?_iff_mem.mpr member)
  obtain ⟨nonzero, reached, -⟩ := h id event found
  cases past with
  | inl zero => exact nonzero zero
  | inr past => exact Std.not_le.mpr past reached

theorem sound_empty : (∅ : EventMap).Sound last := by
  intro id event found
  simp at found

end EventMap

/-- The engine keeps exactly the events of a map, and no write transaction is open. -/
structure Engine.Keeps (e : Engine) (m : EventMap) : Prop where
  known : e.entities.contains eventBox.entity = true
  free : e.writer = none
  exclusive : e.Exclusive
  table : e.committed.table eventBox.entity = m.records
  sound : m.Sound (e.lastId eventBox.entity)

namespace Engine.Keeps

variable {e e' : Engine} {m : EventMap} {id : ObjectId} {event : Event}

theorem contains (h : e.Keeps m) : e.committed.contains eventBox.entity id = m.contains id := by
  rw [Snapshot.contains, h.table, EventMap.contains_records]

theorem record?_eq (h : e.Keeps m) (id : ObjectId) : e.committed.record? eventBox.entity id =
    m[id]?.map fun event => event.record event.id := by
  rw [Snapshot.record?, h.table, EventMap.getElem?_records]
  cases found : m[id]? with
  | none => rfl
  | some event =>
      obtain ⟨-, -, carried, -⟩ := h.sound id event found
      rw [Option.map_some, Option.map_some, carried]

theorem recordList_eq (h : e.Keeps m) : e.committed.recordList eventBox.entity =
    m.values.map fun event => event.record event.id := by
  rw [Snapshot.recordList, h.table, EventMap.records, values_eq, Std.ExtTreeMap.toList_map,
    values_eq, List.map_map, List.map_map]
  refine List.map_congr_left fun entry member => ?_
  obtain ⟨-, -, carried, -⟩ :=
    h.sound entry.1 entry.2 (Std.ExtTreeMap.mem_toList_iff_getElem?_eq_some.mp member)
  simp only [Function.comp_apply, carried]

/-- The record of an event of the map is read back as this event. -/
theorem decode_record (h : e.Keeps m) (found : m[id]? = some event) :
    eventBinding.decode (event.record event.id) = .ok event := by
  obtain ⟨-, -, -, fits⟩ := h.sound id event found
  exact Event.decode_record fits

theorem size_eq (h : e.Keeps m) : e.committed.size eventBox.entity = m.size := by
  rw [Snapshot.size, h.table, EventMap.records, Std.ExtTreeMap.size_map]

/-- A sequence may go on. -/
theorem setLastId (h : e.Keeps m) (grown : e.lastId eventBox.entity ≤ id) :
    (e.setLastId eventBox.entity id).Keeps m := by
  refine ⟨h.known, h.free, ⟨h.exclusive.below, h.exclusive.taken, h.exclusive.single⟩, h.table, ?_⟩
  rw [lastId_setLastId, if_pos rfl]
  exact h.sound.mono grown

/-- A write made alone that leaves the records of a map leaves that map. -/
theorem of_table (h : e.Keeps m) {m' : EventMap} {s : Snapshot}
    (table : s.table eventBox.entity = m'.records) (sound : m'.Sound (e.lastId eventBox.entity)) :
    Engine.Keeps { e with committed := s } m' :=
  ⟨h.known, h.free, ⟨h.exclusive.below, h.exclusive.taken, h.exclusive.single⟩, table, sound⟩

theorem put (h : e.Keeps m) (mode : PutMode) (nonzero : id ≠ 0) (fits : event.Fits)
    (new : mode = .insert ∨ mode = .putNew → id ∉ m) (old : mode = .update → id ∈ m) :
    ∃ e', e.put callerThread none eventBox.entity id (event.record id) mode = .ok e' ∧
      e'.Keeps (m.set id event) := by
  have checked : Snapshot.checkPut mode eventBox.entity id
      (e.committed.contains eventBox.entity id) = .ok () := by
    refine Snapshot.checkPut_eq_ok.mpr ⟨nonzero, ?_, ?_⟩ <;> rw [h.contains]
    · exact fun insert => EventMap.contains_eq_false.mpr (new insert)
    · exact fun update => Std.ExtTreeMap.contains_iff_mem.mpr (old update)
  refine ⟨_, put_eq_ok.mpr ⟨h.known, e.committed, _, .alone h.free, checked, rfl⟩, ?_⟩
  have observed : (e.observe eventBox.entity [id]).Keeps m := h.setLastId le_foldl_max
  refine observed.of_table ?_ (observed.sound.set nonzero ?_ fits)
  · rw [Snapshot.insert_table, if_pos rfl, h.table, EventMap.records_set]
  · exact mem_le_lastId_observe (List.mem_singleton_self id)

theorem put_stored (h : e.Keeps m) (stored : id ∈ m) (record : Bytes) :
    e.put callerThread none eventBox.entity id record .insert =
      .error (.refused (.alreadyStored eventBox.entity id)) := by
  have nonzero : id ≠ 0 := fun zero => h.sound.not_mem (.inl zero) stored
  have contained : e.committed.contains eventBox.entity id = true := by
    rw [h.contains]
    exact Std.ExtTreeMap.contains_iff_mem.mpr stored
  have known := h.known
  simp only [Engine.put, requireEntity, known, if_true, write, requireWriterFree, h.free,
    Snapshot.checkPut, nonzero, if_false, contained, bind, Except.bind, mapError_error]

theorem put_missing (h : e.Keeps m) (nonzero : id ≠ 0) (missing : id ∉ m) (record : Bytes) :
    e.put callerThread none eventBox.entity id record .update =
      .error (.refused (.notStored eventBox.entity id)) := by
  have contained : e.committed.contains eventBox.entity id = false := by
    rw [h.contains]
    exact EventMap.contains_eq_false.mpr missing
  have known := h.known
  simp only [Engine.put, requireEntity, known, if_true, write, requireWriterFree, h.free,
    Snapshot.checkPut, nonzero, if_false, contained, bind, Except.bind, mapError_error]

theorem remove (h : e.Keeps m) (stored : id ∈ m) :
    ∃ e', e.remove callerThread none eventBox.entity id = .ok e' ∧ e'.Keeps (m.without [id]) := by
  have contained : e.committed.contains eventBox.entity id = true := by
    rw [h.contains]
    exact Std.ExtTreeMap.contains_iff_mem.mpr stored
  refine ⟨_, remove_eq_ok.mpr ⟨h.known, e.committed, contained, .alone h.free⟩, ?_⟩
  refine h.of_table ?_ h.sound.without
  rw [Snapshot.table_eq_of_records Snapshot.unlinkObject_records, Snapshot.eraseMany_table,
    if_pos rfl, h.table, EventMap.records_without]

theorem remove_missing (h : e.Keeps m) (missing : id ∉ m) :
    e.remove callerThread none eventBox.entity id = .error (.refused .missing) := by
  have contained : e.committed.contains eventBox.entity id = false := by
    rw [h.contains]
    exact EventMap.contains_eq_false.mpr missing
  have known := h.known
  simp only [Engine.remove, requireEntity, known, if_true, write, requireWriterFree, h.free,
    contained, Bool.false_eq_true, if_false, bind, Except.bind, mapError_error]

theorem removeMany (h : e.Keeps m) (ids : List ObjectId) :
    ∃ count e', e.removeMany callerThread none eventBox.entity ids = .ok (count, e') ∧
      e'.Keeps (m.without ids) ∧ count + (m.without ids).size = m.size := by
  let stored : List ObjectId :=
    (Std.ExtTreeSet.ofList (ids.filter (e.committed.contains eventBox.entity)) : IdSet).toList
  have mem_stored : ∀ id, id ∈ stored ↔ id ∈ ids ∧ id ∈ m := by
    intro id
    simp only [stored, Std.ExtTreeSet.mem_toList, Std.ExtTreeSet.mem_ofList, List.contains_iff_mem,
      List.mem_filter, h.contains, Std.ExtTreeMap.contains_iff_mem]
  have same : m.without stored = m.without ids := by
    ext id : 1
    rw [EventMap.getElem?_without, EventMap.getElem?_without]
    by_cases held : id ∈ m
    · simp only [mem_stored, held, and_true]
    · rw [Std.ExtTreeMap.getElem?_eq_none held]
      split <;> split <;> rfl
  refine ⟨_, _, removeMany_eq_ok.mpr ⟨h.known, e.committed, .alone h.free, rfl⟩, ?_, ?_⟩
  · refine h.of_table ?_ h.sound.without
    rw [Snapshot.removeMany, Snapshot.table_eq_of_records Snapshot.unlinkObjects_records,
      Snapshot.eraseMany_table, if_pos rfl, h.table, ← same, EventMap.records_without]
  · have distinct : stored.Nodup := by
      refine Std.ExtTreeSet.distinct_toList.imp fun other same => ?_
      exact other (Std.compare_eq_iff_eq.mpr same)
    rw [← same]
    exact EventMap.size_without distinct fun id member => ((mem_stored id).mp member).2

theorem removeAll (h : e.Keeps m) :
    ∃ e', e.removeAll callerThread none eventBox.entity = .ok (m.size, e') ∧ e'.Keeps ∅ := by
  have size : (e.committed.ids eventBox.entity).length = m.size := by
    rw [Snapshot.ids, h.table, Std.ExtTreeMap.length_keys, EventMap.records,
      Std.ExtTreeMap.size_map]
  refine ⟨_, removeAll_eq_ok.mpr ⟨h.known, e.committed, .alone h.free, size.symm⟩, ?_⟩
  refine h.of_table ?_ EventMap.sound_empty
  rw [Snapshot.table_eq_of_records Snapshot.unlinkObjects_records, Snapshot.setTable_table,
    if_pos rfl]
  rfl

end Engine.Keeps

end ObjectStore
