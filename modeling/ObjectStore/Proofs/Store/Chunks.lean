import ObjectStore.Proofs.Store.Lists
import ObjectStore.Proofs.Store.Numbering
import ObjectStore.Proofs.Store.Objects
import ObjectStore.Proofs.Store.OwnTransaction

/-! # Storing a chunk

A chunk, or on the other tier a single object, is stored under the ids its numbering gives it, as
long as there are enough of them, and the sequence ends where the numbering ends.

An object may have related ones here, if storing these changes no record and no sequence.
-/

namespace ObjectStore

/-- What a call for ids says when a sequence cannot go on. -/
def StoreError.exhausted (operation : String) (entity : EntityId) : StoreError :=
  .engine operation .illegalState s!"id sequence of entity type {entity} is exhausted"

/-! ## One id -/

namespace Engine

variable {e : Engine} {txn : Option Handle} {entity : EntityId} {current : ObjectId}

theorem idForPut_numbered (known : e.entities.contains entity = true)
    (writable : e.requireWritable txn = .ok ()) (room : Box.HasRoom (e.lastId entity) [current]) :
    ∃ id next, e.idForPut txn entity current = .ok (id, e.setLastId entity next) ∧
      Box.assign (e.lastId entity + 1) [current] = [⟨id, id ≠ current⟩] ∧
      e.lastId entity ≤ next ∧ max next id = Box.lastAfter (e.lastId entity) [current] := by
  by_cases zero : current = 0
  · subst zero
    have enough : (e.lastId entity).toNat + 1 ≤ maxId := room
    have bound : (e.lastId entity).toNat ≠ maxId := by omega
    have next : (e.lastId entity + 1).toNat = (e.lastId entity).toNat + 1 := by
      rw [UInt64.toNat_add, Nat.mod_eq_of_lt]
      · rfl
      · rw [maxId] at enough
        exact Nat.lt_of_le_of_lt enough (by decide)
    have nonzero : e.lastId entity + 1 ≠ 0 := by
      intro wrapped
      rw [wrapped] at next
      simp at next
    refine ⟨e.lastId entity + 1, e.lastId entity + 1, ?_, ?_, ?_, ?_⟩
    · exact idForPut_eq_ok.mpr ⟨known, writable, by rw [if_pos rfl]; exact ⟨bound, rfl, rfl⟩⟩
    · simp only [Box.assign, if_true, nonzero, ne_eq, not_false_eq_true, decide_true]
    · rw [UInt64.le_iff_toNat_le]
      omega
    · have block : (UInt64.ofNat ((e.lastId entity).toNat + List.count 0 [(0 : ObjectId)])).toNat =
          (e.lastId entity).toNat + 1 := Box.toNat_block room
      simp only [Box.lastAfter, List.foldl_cons, List.foldl_nil]
      rw [← UInt64.toNat_inj, toNat_max, toNat_max, block, next]
      simp
  · refine ⟨current, max (e.lastId entity) current, ?_, ?_, ?_, ?_⟩
    · exact idForPut_eq_ok.mpr ⟨known, writable, by rw [if_neg zero]; exact ⟨rfl, rfl⟩⟩
    · simp [Box.assign, zero]
    · rw [UInt64.le_iff_toNat_le, toNat_max]
      omega
    · simp only [Box.lastAfter, List.count_singleton, beq_iff_eq, zero, if_false, Nat.add_zero,
        UInt64.ofNat_toNat, List.foldl_cons, List.foldl_nil]
      rw [← UInt64.toNat_inj, toNat_max, toNat_max]
      omega

theorem idForPut_exhausted (known : e.entities.contains entity = true)
    (writable : e.requireWritable txn = .ok ())
    (full : ¬ Box.HasRoom (e.lastId entity) [current]) :
    current = 0 ∧ e.idForPut txn entity current = .error (.refused (.exhausted entity)) := by
  have bound : (e.lastId entity).toNat ≤ maxId := Nat.le_of_lt_succ (e.lastId entity).toNat_lt
  have zero : current = 0 := by
    refine Classical.byContradiction fun nonzero => full ?_
    simp only [Box.HasRoom, List.count_singleton, beq_iff_eq, nonzero, if_false]
    exact bound
  subst zero
  have last : (e.lastId entity).toNat = maxId := by
    have none : ¬ (e.lastId entity).toNat + 1 ≤ maxId := full
    omega
  refine ⟨rfl, ?_⟩
  simp only [idForPut, requireEntity, known, if_true, writable, last, bind, Except.bind, refuse]

end Engine

namespace Box

variable {T : Type} {b : Box T} {base e e' : Engine} {s s' : Snapshot} {store : Store}

/-- In the caller's write transaction on `base`, which is at `s`, every id that is stored is one the
    sequence has reached. -/
structure Writing (b : Box T) (base : Engine) (s : Snapshot) (e : Engine) : Prop where
  within : base.Within callerThread .write s e
  known : e.entities.contains b.entity = true
  reached : ∀ id, s.contains b.entity id = true → id ≤ e.lastId b.entity

/-- The record of an object, once its related objects are stored. -/
def encodeUnder (b : Box T) (txn : Txn) (id : ObjectId) : Editing T Bytes := do
  if b.descriptor.hasRelations then b.binding.putRelated txn id
  b.encode id (← Editing.current)

namespace Writing

theorem unstored (writing : b.Writing base s e) {id : ObjectId} (past : e.lastId b.entity < id) :
    s.contains b.entity id = false := by
  rw [Bool.eq_false_iff]
  exact fun stored => Std.not_le.mpr past (writing.reached id stored)

theorem later (writing : b.Writing base s e) (within : base.Within callerThread .write s' e')
    (records : s'.records = s.records) (grown : e.lastId b.entity ≤ e'.lastId b.entity) :
    b.Writing base s' e' := by
  refine ⟨within, ?_, fun id stored => Std.le_trans (writing.reached id ?_) grown⟩
  · rw [within.known, ← writing.within.known]
    exact writing.known
  · rwa [Snapshot.contains, Snapshot.table_eq_of_records records] at stored

end Writing

/-- What goes with an object can be stored, which changes neither the object nor any record or
    sequence. -/
def Quiet (b : Box T) (base : Engine) (store : Store) (object : T) : Prop :=
  b.descriptor.hasRelations = true → ∀ {s e id}, b.Writing base s e → id ≠ 0 →
    ∃ s' e', Ends (b.binding.putRelated ⟨base.nextHandle, .write⟩ id) (object, store, e) (.ok ())
        (object, store, e') ∧ b.Writing base s' e' ∧ s'.records = s.records ∧
      ∀ entity, e'.lastId entity = e.lastId entity

theorem quiet_of_simple (simple : b.descriptor.hasRelations = false) {object : T} :
    b.Quiet base store object := by
  intro related
  rw [simple] at related
  cases related

section Total

variable (total : b.binding.Total) {object : T} {objects : List T} {id current : ObjectId}
include total

/-- The chunks of the batch were stored under their ids, and the sequence is past them. -/
structure Stored (base : Engine) (s : Snapshot) (e : Engine) (chunks : List (List ObjectId))
    (objects : List T) (s' : Snapshot) (e' : Engine) : Prop where
  writing : b.Writing base s' e'
  table : s'.table b.entity = (s.table b.entity).insertMany
    (total.entries (bulkIds (e.lastId b.entity) chunks) objects)
  others : ∀ entity, entity ≠ b.entity → s'.table entity = s.table entity
  last : ∀ entity, e'.lastId entity =
    if b.entity = entity then bulkLast (e.lastId entity) chunks else e.lastId entity

theorem stored_of_inserted {chunk : List ObjectId} {s₂ : Snapshot} (writing : b.Writing base s e)
    (room : HasRoom (e.lastId b.entity) chunk) (even : chunk.length = objects.length)
    (records : s₂.records = s.records) (within : base.Within callerThread .write s' e')
    (inserted : ∀ entity, s'.table entity = if b.entity = entity then
      (s₂.table entity).insertMany (total.entries (chunkIds (e.lastId b.entity) chunk) objects)
      else s₂.table entity)
    (last : ∀ entity, e'.lastId entity =
      if b.entity = entity then lastAfter (e.lastId entity) chunk else e.lastId entity) :
    Stored total base s e [chunk] objects s' e' := by
  have here : e'.lastId b.entity = lastAfter (e.lastId b.entity) chunk := by rw [last, if_pos rfl]
  refine ⟨⟨within, ?_, ?_⟩, ?_, ?_, last⟩
  · rw [within.known, ← writing.within.known]
    exact writing.known
  · intro id stored
    rw [here]
    rw [Snapshot.contains, inserted, if_pos rfl, Std.ExtTreeMap.contains_insertMany_list,
      total.map_fst_entries (by simp [chunkIds, even]), Bool.or_eq_true, List.contains_iff_mem,
      Snapshot.table_eq_of_records records] at stored
    cases stored with
    | inl old => exact Std.le_trans (writing.reached id old) (last_le_lastAfter room)
    | inr new => exact le_lastAfter room new
  · rw [inserted, if_pos rfl, Snapshot.table_eq_of_records records, bulkIds, bulkIds,
      List.append_nil]
  · intro entity other
    rw [inserted, if_neg (Ne.symm other), Snapshot.table_eq_of_records records]

theorem encodeUnder_ends (quiet : b.Quiet base store object) (writing : b.Writing base s e)
    (nonzero : id ≠ 0) :
    ∃ s' e', Ends (b.encodeUnder ⟨base.nextHandle, .write⟩ id) (object, store, e)
        (.ok (total.record id object)) (object, store, e') ∧
      b.Writing base s' e' ∧ s'.records = s.records ∧
      ∀ entity, e'.lastId entity = e.lastId entity := by
  cases related : b.descriptor.hasRelations with
  | true =>
      obtain ⟨s', e', put, writing, records, same⟩ := quiet related writing nonzero
      refine ⟨s', e', ?_, writing, records, same⟩
      simp only [encodeUnder, related, if_true]
      exact Ends.bind put (Ends.bind Editing.current_ends (Ends.ofStore (encode_ends total)))
  | false =>
      refine ⟨s, e, ?_, writing, rfl, fun _ => rfl⟩
      simp only [encodeUnder, related, Bool.false_eq_true, if_false]
      exact Ends.bind Editing.current_ends (Ends.ofStore (encode_ends total))

theorem encodeAll_ends {ids : List ObjectId} (even : ids.length = objects.length)
    (quiet : ∀ object ∈ objects, b.Quiet base store object) (nonzero : ∀ id ∈ ids, id ≠ 0)
    (writing : b.Writing base s e) :
    ∃ s' e', Ends (Editing.forEach (b.encodeUnder ⟨base.nextHandle, .write⟩) ids)
        (objects, store, e) (.ok (List.zipWith total.record ids objects)) (objects, store, e') ∧
      b.Writing base s' e' ∧ s'.records = s.records ∧
      ∀ entity, e'.lastId entity = e.lastId entity := by
  induction ids generalizing objects s e with
  | nil =>
      have none : objects = [] := List.length_eq_zero_iff.mp even.symm
      subst none
      exact ⟨s, e, Editing.forEach_nil ⟨rfl, rfl⟩, writing, rfl, fun _ => rfl⟩
  | cons id ids ih =>
      cases objects with
      | nil => cases even
      | cons object objects =>
          obtain ⟨s₁, e₁, first, writing₁, records₁, same₁⟩ :=
            encodeUnder_ends total (quiet object List.mem_cons_self) writing
              (nonzero id List.mem_cons_self)
          obtain ⟨s₂, e₂, rest, writing₂, records₂, same₂⟩ := ih (Nat.succ.inj even)
            (fun object member => quiet object (List.mem_cons_of_mem _ member))
            (fun id member => nonzero id (List.mem_cons_of_mem _ member)) writing₁
          refine ⟨s₂, e₂, ?_, writing₂, records₂.trans records₁,
            fun entity => (same₂ entity).trans (same₁ entity)⟩
          refine Editing.forEach_cons (first.leads ?_)
          simp only [Editing.Rest]
          exact rest.leads ⟨rfl, rfl⟩

/-! ## A chunk -/

omit total in
theorem allocateBlock_ends {currents : List ObjectId} (writing : b.Writing base s e)
    (room : HasRoom (e.lastId b.entity) currents) (size : currents.length ≤ maxIdsPerBlock) :
    ∃ first e', Ends (Store.allocateBlock (some base.nextHandle) b.entity (currents.count 0)) e
        (.ok first) e' ∧
      assign first currents = assign (e.lastId b.entity + 1) currents ∧
      base.Within callerThread .write s e' ∧
      ∀ entity, e'.lastId entity = if b.entity = entity then
        .ofNat ((e.lastId b.entity).toNat + currents.count 0) else e.lastId entity := by
  by_cases none : currents.count 0 = 0
  · refine ⟨0, e, ?_, assign_of_count_eq_zero none, writing.within, fun entity => ?_⟩
    · rw [none]
      exact Store.allocateBlock_none
    · split
      · rename_i same
        rw [none, ← same, ← UInt64.toNat_inj]
        simp
      · rfl
  · have bounded : currents.count 0 ≤ maxIdsPerBlock := Nat.le_trans List.count_le_length size
    have served := Engine.idsForPut_eq_ok.mpr ⟨⟨Nat.pos_of_ne_zero none, bounded⟩, writing.known,
      writing.within.writable, room, rfl, rfl⟩
    refine ⟨_, _, Store.allocateBlock_ends none served, ?_, writing.within.setLastId,
      fun entity => ?_⟩
    · have next : (UInt64.ofNat ((e.lastId b.entity).toNat + 1)) = e.lastId b.entity + 1 := by
        rw [UInt64.ofNat_add, UInt64.ofNat_toNat]
        rfl
      rw [next]
    · rw [Engine.lastId_setLastId]

omit total in
theorem allocateBlock_exhausted {currents : List ObjectId} (writing : b.Writing base s e)
    (full : ¬ HasRoom (e.lastId b.entity) currents) (size : currents.length ≤ maxIdsPerBlock) :
    Ends (Store.allocateBlock (some base.nextHandle) b.entity (currents.count 0)) e
      (.error (.exhausted "ids_for_put" b.entity)) e := by
  have some : currents.count 0 ≠ 0 := by
    intro none
    refine full ?_
    have bound := (e.lastId b.entity).toNat_lt
    simp only [HasRoom, none, Engine.maxId]
    omega
  have bounded : currents.count 0 ≤ maxIdsPerBlock := Nat.le_trans List.count_le_length size
  have refused : e.perform callerThread
      (.idsForPut (Option.some base.nextHandle) b.entity (currents.count 0)) =
        .error (.refused (.exhausted b.entity)) := by
    have known := writing.known
    have writable := writing.within.writable
    simp only [Engine.perform, Engine.idsForPut, some, Nat.not_lt.mpr bounded, or_self, if_false,
      Engine.requireEntity, known, if_true, writable, bind, Except.bind, Engine.refuse]
    exact if_neg full
  rw [Store.allocateBlock, if_neg some]
  exact HostM.request_refused refused rfl

omit total in
/-- Where no object of a chunk carries an id, its ids are new, and no other chunk is stored by a put
    that needs new ones. -/
theorem checkPutMany_numbered {last : ObjectId} {entity : EntityId} {currents : List ObjectId}
    (room : HasRoom last currents) (new : ∀ id, last < id → s.contains entity id = false) :
    s.checkPutMany (if currents.all (· = 0) then PutMode.putNew else .put) entity ∅
      (chunkIds last currents) = .ok () := by
  refine Snapshot.checkPutMany_ok (fun id => ne_zero_of_mem_chunkIds room) ?_ ?_
  · split <;> exact PutMode.noConfusion
  · split
    · rename_i unsaved
      have zero : ∀ id ∈ currents, id = 0 := by simpa using unsaved
      intro _
      constructor
      · refine (nodup_assign (room_next room).1 ?_).mpr fun x member => .inl (zero x member)
        rw [List.filter_eq_nil_iff.mpr fun id member => by simp [zero id member]]
        exact List.nodup_nil
      · intro id member
        rcases (mem_chunkIds room).mp member with ⟨carried, nonzero⟩ | ⟨above, -⟩
        · exact absurd (zero id carried) nonzero
        · exact ⟨new id above, Std.ExtTreeSet.not_mem_empty⟩
    · exact fun strict => absurd rfl strict

omit total in
theorem checkPutMany_chunkIds {currents : List ObjectId} (writing : b.Writing base s e)
    (room : HasRoom (e.lastId b.entity) currents) (records : s'.records = s.records) :
    s'.checkPutMany (if currents.all (· = 0) then PutMode.putNew else .put) b.entity ∅
      (chunkIds (e.lastId b.entity) currents) = .ok () := by
  refine checkPutMany_numbered room fun id above => ?_
  rw [Snapshot.contains, Snapshot.table_eq_of_records records]
  exact writing.unstored above

theorem writeChunk_ends {currents : List ObjectId} (carried : objects.map total.idOf = currents)
    (arrays : base.arrays = true) (size : currents.length ≤ maxIdsPerBlock)
    (quiet : ∀ object ∈ objects, b.Quiet base store object) (writing : b.Writing base s e)
    (room : HasRoom (e.lastId b.entity) currents) :
    ∃ s' e', Ends (b.writeChunk ⟨base.nextHandle, .write⟩) (objects, store, e)
        (.ok (assign (e.lastId b.entity + 1) currents)) (objects, store, e') ∧
      Stored total base s e [currents] objects s' e' := by
  obtain ⟨first, e₁, allocated, numbered, within₁, last₁⟩ := allocateBlock_ends writing room size
  let ids := chunkIds (e.lastId b.entity) currents
  have even : currents.length = objects.length := by rw [← carried, List.length_map]
  have evenIds : ids.length = objects.length := by simp [ids, chunkIds, even]
  have nonzero : ∀ id ∈ ids, id ≠ 0 := fun id => ne_zero_of_mem_chunkIds room
  have here : e₁.lastId b.entity = .ofNat ((e.lastId b.entity).toNat + currents.count 0) := by
    rw [last₁, if_pos rfl]
  have writing₁ : b.Writing base s e₁ := by
    refine writing.later within₁ rfl ?_
    rw [UInt64.le_iff_toNat_le, here, toNat_block room]
    omega
  obtain ⟨s₂, e₂, encoded, writing₂, records, last₂⟩ :=
    encodeAll_ends total evenIds quiet nonzero writing₁
  obtain ⟨e₃, wrote, within₃⟩ := writing₂.within.wrote
    (s₂.insertMany b.entity (ids.zip (List.zipWith total.record ids objects)))
  have served : e₂.perform callerThread (.putMany (some base.nextHandle) b.entity ids
      (List.zipWith total.record ids objects)
      (if currents.all (· = 0) then PutMode.putNew else .put)) =
        .ok ((), e₃.observe b.entity ids) := by
    refine Engine.changing_eq_ok.mpr (Engine.putMany_eq_ok.mpr ⟨?_, writing₂.known, ?_, _, _,
      wrote, checkPutMany_chunkIds writing room records, rfl⟩)
    · rw [writing₂.within.schema.arrays]
      exact arrays
    · rw [List.length_zipWith, evenIds, Nat.min_self]
  refine ⟨_, e₃.observe b.entity ids, ?_,
    stored_of_inserted total writing room even records within₃.setLastId ?_ ?_⟩
  · apply Ends.bind Editing.current_ends
    refine Ends.bind (Ends.ofStore (mapM_ends fun object => idOf_ends total)) ?_
    rw [carried]
    apply Ends.bind (Ends.ofStore (Ends.ofHost allocated))
    rw [numbered]
    apply Ends.bind encoded
    exact Ends.bind (Ends.ofStore (Ends.ofHost (HostM.request_ends served))) Ends.pure
  · intro entity
    exact (Snapshot.insertMany_table ..).trans (by rw [total.zip_records])
  · intro entity
    apply Engine.lastId_observe.trans
    rw [wrote.lastId_eq, last₂]
    split
    · rename_i same
      subst same
      rw [here]
      exact foldl_max_chunkIds room
    · rename_i other
      rw [last₁, if_neg other]

theorem writeChunk_refused {currents : List ObjectId} (carried : objects.map total.idOf = currents)
    (size : currents.length ≤ maxIdsPerBlock) (writing : b.Writing base s e)
    (full : ¬ HasRoom (e.lastId b.entity) currents) :
    Ends (b.writeChunk ⟨base.nextHandle, .write⟩) (objects, store, e)
      (.error (.exhausted "ids_for_put" b.entity)) (objects, store, e) := by
  apply Ends.bind Editing.current_ends
  refine Ends.bind (Ends.ofStore (mapM_ends fun object => idOf_ends total)) ?_
  rw [carried]
  exact Ends.bind_error (Ends.ofStore (Ends.ofHost (allocateBlock_exhausted writing full size)))
    ⟨rfl, rfl⟩

/-! ## An object -/

omit total in
theorem storeUnder_eq {txn : Txn} {mode : PutMode} :
    b.storeUnder (some txn) id mode = (do
      let record ← b.encodeUnder txn id
      HostM.request "put" (.put (some txn.handle) b.entity id record mode)
      return id) := by
  simp only [storeUnder, encodeUnder, Option.map_some]
  split <;> simp

theorem writeOne_ends (carried : total.idOf object = current)
    (quiet : b.Quiet base store object) (writing : b.Writing base s e)
    (room : HasRoom (e.lastId b.entity) [current]) :
    ∃ assigned s' e', Ends (b.writeOne ⟨base.nextHandle, .write⟩) (object, store, e)
        (.ok assigned) (object, store, e') ∧
      [assigned] = assign (e.lastId b.entity + 1) [current] ∧
      Stored total base s e [[current]] [object] s' e' := by
  obtain ⟨id, next, granted, numbered, grown, last⟩ :=
    Engine.idForPut_numbered writing.known writing.within.writable room
  have nonzero : id ≠ 0 := Engine.idForPut_ne_zero granted
  have writing₁ : b.Writing base s (e.setLastId b.entity next) := by
    refine writing.later writing.within.setLastId rfl ?_
    rw [Engine.lastId_setLastId, if_pos rfl]
    exact grown
  obtain ⟨s₂, e₂, encoded, writing₂, records, last₂⟩ :=
    encodeUnder_ends total quiet writing₁ nonzero
  obtain ⟨e₃, wrote, within₃⟩ := writing₂.within.wrote
    (s₂.insert b.entity id (total.record id object))
  have served : e₂.perform callerThread (.put (some base.nextHandle) b.entity id
      (total.record id object) .put) = .ok ((), e₃.observe b.entity [id]) := by
    refine Engine.changing_eq_ok.mpr (Engine.put_eq_ok.mpr ⟨writing₂.known, _, _, wrote, ?_, rfl⟩)
    exact Snapshot.checkPut_eq_ok.mpr ⟨nonzero, by simp, by simp⟩
  have written : Ends (b.write (some ⟨base.nextHandle, .write⟩) current .put) (object, store, e)
      (.ok id) (object, store, e₃.observe b.entity [id]) := by
    refine write_leads PutMode.noConfusion granted ?_
    rw [storeUnder_eq]
    apply Ends.bind encoded
    exact Ends.bind (Ends.ofStore (Ends.ofHost (HostM.request_ends served))) Ends.pure
  refine ⟨_, _, e₃.observe b.entity [id], ?_, numbered.symm,
    stored_of_inserted total writing room rfl records within₃.setLastId ?_ ?_⟩
  · unfold writeOne
    apply Ends.bind (currentId_ends total)
    rw [carried]
    exact Ends.bind written Ends.pure
  · intro entity
    rw [chunkIds, numbered, Snapshot.insert_table]
    split
    · exact Std.ExtTreeMap.insertMany_list_singleton.symm
    · rfl
  · intro entity
    apply Engine.lastId_observe.trans
    rw [wrote.lastId_eq, last₂, Engine.lastId_setLastId]
    split
    · rename_i same
      subst same
      exact last
    · rfl

omit total in
theorem write_exhausted {txn : Option Txn} {mode : PutMode} (new : mode ≠ .update)
    (known : e.entities.contains b.entity = true)
    (writable : e.requireWritable (txn.map Txn.handle) = .ok ())
    (full : ¬ HasRoom (e.lastId b.entity) [current]) :
    Ends (b.write txn current mode) (object, store, e) (.error (.exhausted "id_for_put" b.entity))
      (object, store, e) := by
  obtain ⟨-, refused⟩ := Engine.idForPut_exhausted known writable full
  refine Leads.mono (write_refused new refused rfl) ?_
  rintro r w ⟨rfl, rfl⟩
  exact ⟨rfl, rfl⟩

theorem writeOne_refused (carried : total.idOf object = current) (writing : b.Writing base s e)
    (full : ¬ HasRoom (e.lastId b.entity) [current]) :
    Ends (b.writeOne ⟨base.nextHandle, .write⟩) (object, store, e)
      (.error (.exhausted "id_for_put" b.entity)) (object, store, e) := by
  unfold writeOne
  apply Ends.bind (currentId_ends total)
  rw [carried]
  exact Ends.bind_error
    (write_exhausted PutMode.noConfusion writing.known writing.within.writable full) ⟨rfl, rfl⟩

end Total

end Box

end ObjectStore
