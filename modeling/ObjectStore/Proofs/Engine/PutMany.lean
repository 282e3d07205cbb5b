import ObjectStore.Proofs.Engine.FailedCalls
import ObjectStore.Proofs.Engine.Tidy

/-! # Storing many at once

A call that stores many records checks all of them before it stores the first: against what is
stored, and against the ids that come earlier in the list. That is what storing them one after
another would find, so the two succeed together, leave the same engine, and fail of the same
(`Machine.putMany_as_putEach`). Only, the one call that fails has stored nothing.
-/

namespace ObjectStore

namespace Snapshot

variable {s s' : Snapshot} {entity entity' : EntityId} {id : ObjectId} {ids : List ObjectId}
  {seen seen' : IdSet} {mode : PutMode} {record : Bytes} {entries : List (ObjectId × Bytes)}

theorem checkPutMany_congr
    (same : ∀ id, (s.contains entity id || seen.contains id) =
      (s'.contains entity id || seen'.contains id)) :
    s.checkPutMany mode entity seen ids = s'.checkPutMany mode entity seen' ids := by
  induction ids generalizing seen seen' with
  | nil => rfl
  | cons first ids ih =>
      rw [checkPutMany, checkPutMany, same first]
      refine bind_congr fun _ => ih fun id => ?_
      have before := same id
      simp only [Std.ExtTreeSet.contains_insert]
      grind

theorem checkPutMany_insert : (s.insert entity id record).checkPutMany mode entity seen ids =
    s.checkPutMany mode entity (seen.insert id) ids := by
  refine checkPutMany_congr fun other => ?_
  simp only [contains, insert_table, if_true, Std.ExtTreeMap.contains_insert,
    Std.ExtTreeSet.contains_insert]
  grind

theorem insertMany_nil (tidy : s.Tidy) : s.insertMany entity [] = s := by
  refine tidy.setTable.ext tidy (fun entity' id => ?_) fun relation source => rfl
  simp only [record?, List.foldl_nil, setTable_table]
  split <;> simp [*]

theorem insertMany_cons : s.insertMany entity ((id, record) :: entries) =
    (s.insert entity id record).insertMany entity entries := by
  simp only [insertMany, insert, List.foldl_cons, setTable_table, if_true, setTable_setTable]

theorem record?_insertMany : (s.insertMany entity entries).record? entity' id =
    if entity = entity' then (entries.reverse.lookup id).or (s.record? entity' id)
    else s.record? entity' id := by
  have filled : ∀ table : Table,
      (entries.foldl (fun table entry => table.insert entry.1 entry.2) table)[id]? =
        (entries.reverse.lookup id).or table[id]? := by
    induction entries with
    | nil => exact fun table => by simp
    | cons entry entries ih =>
        intro table
        rw [List.foldl_cons, ih, List.reverse_cons, List.lookup_append, Option.or_assoc,
          Std.ExtTreeMap.getElem?_insert, List.lookup_cons]
        grind
  simp only [record?, insertMany, setTable_table]
  split
  · subst entity'
    exact filled _
  · rfl

end Snapshot

namespace Engine

variable {e : Engine} {thread : ThreadId} {txn : Option Handle} {s s' : Snapshot}
  {entity : EntityId} {id : ObjectId} {ids ids' : List ObjectId} {record : Bytes}
  {records : List Bytes} {mode : PutMode}

theorem observe_nil (tidy : e.Tidy) : e.observe entity [] = e := by
  have same : e.sequences = (e.observe entity []).sequences := by
    refine eq_of_getD tidy.sequences tidy.setLastId.sequences fun entity' => ?_
    change e.lastId entity' = (e.observe entity []).lastId entity'
    rw [lastId_observe]
    split <;> rfl
  rw [observe_eq_recount, recount, ← same]

theorem observe_observe :
    (e.observe entity ids).observe entity ids' = e.observe entity (ids ++ ids') := by
  have reset {id id' : ObjectId} :
      (e.setLastId entity id).setLastId entity id' = e.setLastId entity id' := by
    simp only [setLastId, mk.injEq, true_and, and_true]
    ext entity' : 1
    grind
  rw [observe, lastId_observe, if_pos rfl, ← List.foldl_append]
  exact reset

theorem withView_observe :
    (e.observe entity ids).withView txn s = (e.withView txn s).observe entity ids := by
  cases txn <;> rfl

/-- Store records one after another, as long as none is refused. -/
def putEach (e : Engine) (thread : ThreadId) (txn : Option Handle) (entity : EntityId)
    (mode : PutMode) (entries : List (ObjectId × Bytes)) : Except Halt Engine :=
  entries.foldlM (fun e entry => e.put thread txn entity entry.1 entry.2 mode) e

/-- Records of an entity type can be stored, one by one or many at once. -/
structure Stores (e : Engine) (txn : Option Handle) (entity : EntityId) (s : Snapshot) : Prop where
  writes : e.WritesOn txn s
  arrays : e.arrays = true
  defined : e.entities.contains entity = true
  tidy : e.Tidy

namespace Stores

theorem put_eq (h : e.Stores txn entity s) : e.put thread txn entity id record mode =
    ((Snapshot.checkPut mode entity id (s.contains entity id)).mapError .refused).map
      fun _ => (e.withView txn (s.insert entity id record)).observe entity [id] := by
  have known : e.requireEntity entity = .ok () := requireEntity_eq_ok.mpr h.defined
  rw [put, known, h.writes.write_eq]
  cases Snapshot.checkPut mode entity id (s.contains entity id) <;> rfl

theorem putMany_eq (h : e.Stores txn entity s) (even : ids.length = records.length) :
    e.putMany thread txn entity ids records mode =
      ((s.checkPutMany mode entity ∅ ids).mapError .refused).map
        fun _ => (e.withView txn (s.insertMany entity (ids.zip records))).observe entity ids := by
  have known : e.requireEntity entity = .ok () := requireEntity_eq_ok.mpr h.defined
  have able : e.requireArrays "put_many" = .ok () := requireArrays_eq_ok.mpr h.arrays
  rw [putMany, able, known, if_pos even, h.writes.write_eq]
  cases s.checkPutMany mode entity ∅ ids <;> rfl

theorem put (h : e.Stores txn entity s) :
    ((e.withView txn (s.insert entity id record)).observe entity [id]).Stores txn entity
      (s.insert entity id record) where
  writes := h.writes.withView.observe
  arrays := by cases txn <;> exact h.arrays
  defined := by cases txn <;> exact h.defined
  tidy := (h.tidy.wrote h.writes.wrote .setTable).setLastId

theorem eq_of_putMany {e' : Engine} (h : e.Stores txn entity s)
    (even : ids.length = records.length)
    (done : e.putMany thread txn entity ids records mode = .ok e') :
    e' = (e.withView txn (s.insertMany entity (ids.zip records))).observe entity ids := by
  rw [h.putMany_eq even] at done
  cases checked : s.checkPutMany mode entity ∅ ids with
  | error why =>
      rw [checked] at done
      cases done
  | ok =>
      rw [checked] at done
      exact (Except.ok.inj done).symm

/-- Storing many is storing one after another. -/
theorem putMany_eq_putEach (h : e.Stores txn entity s) (even : ids.length = records.length) :
    e.putMany thread txn entity ids records mode =
      e.putEach thread txn entity mode (ids.zip records) := by
  induction ids generalizing e s records with
  | nil =>
      obtain rfl := List.length_eq_zero_iff.mp even.symm
      have tidy : s.Tidy := h.tidy.snapshots.view h.writes.view
      rw [h.putMany_eq rfl, List.zip_nil_left, Snapshot.insertMany_nil tidy, h.writes.withView_self,
        observe_nil h.tidy]
      rfl
  | cons id ids ih =>
      obtain ⟨record, records, rfl⟩ := List.exists_cons_of_length_eq_add_one even.symm
      have later : ids.length = records.length := Nat.succ.inj even
      rw [h.putMany_eq even, List.zip_cons_cons, putEach, List.foldlM_cons, h.put_eq]
      rw [Snapshot.checkPutMany, Std.ExtTreeSet.contains_empty, Bool.or_false,
        Snapshot.insertMany_cons]
      cases Snapshot.checkPut mode entity id (s.contains entity id) with
      | error why => rfl
      | ok =>
          change _ = Engine.putEach _ _ _ _ _ _
          rw [← ih h.put later, h.put.putMany_eq later, Snapshot.checkPutMany_insert,
            withView_observe, observe_observe, withView_withView]
          rfl

theorem putMany_ne_waits (h : e.Stores txn entity s) (even : ids.length = records.length) :
    e.putMany thread txn entity ids records mode ≠ .error .waits := by
  rw [h.putMany_eq even]
  cases s.checkPutMany mode entity ∅ ids <;> nofun

end Stores

end Engine

namespace Machine

variable {m : Machine} {thread : ThreadId} {txn : Option Handle} {entity : EntityId}
  {ids : List ObjectId} {id : ObjectId} {records : List Bytes} {record : Bytes} {mode : PutMode}
  {entries : List (ObjectId × Bytes)}

/-- Store records one after another, until one fails. -/
def putEach (m : Machine) (thread : ThreadId) (txn : Option Handle) (entity : EntityId)
    (mode : PutMode) : List (ObjectId × Bytes) → Except Stop Unit × Machine
  | [] => (.ok (), m)
  | (id, record) :: entries =>
    match m.act thread (.put txn entity id record mode) with
    | (.ok (), m) => m.putEach thread txn entity mode entries
    | (.error stop, m) => (.error stop, m)

theorem putEach_eq :
    (m.putEach thread txn entity mode entries).1 =
        (m.ended thread (Engine.changing (m.engine.putEach thread txn entity mode entries))).1 ∧
      (∀ other, (m.putEach thread txn entity mode entries).2.slot other =
        (m.ended thread (Engine.changing (m.engine.putEach thread txn entity mode entries))).2.slot
          other) ∧
      ∀ e, m.engine.putEach thread txn entity mode entries = .ok e →
        (m.putEach thread txn entity mode entries).2.engine = e := by
  induction entries generalizing m with
  | nil => exact ⟨rfl, fun other => slot_ended_ok.symm, fun e ended => Except.ok.inj ended⟩
  | cons entry entries ih =>
      obtain ⟨id, record⟩ := entry
      rw [putEach, act_eq_ended fun _ => rfl, Engine.perform, Engine.putEach, List.foldlM_cons]
      rcases m.engine.put thread txn entity id record mode with (why | -) | e
      · exact ⟨rfl, fun _ => rfl, fun _ done => by cases done⟩
      · exact ⟨rfl, fun _ => rfl, fun _ done => by cases done⟩
      · obtain ⟨result, slots, engine⟩ := @ih (m.ended thread (.ok ((), e))).2
        refine ⟨result.trans ?_, fun other => (slots other).trans ?_, engine⟩
        · change (ended _ _ (Engine.changing (e.putEach thread txn entity mode entries))).1 =
            (m.ended thread (Engine.changing (e.putEach thread txn entity mode entries))).1
          rcases e.putEach thread txn entity mode entries with (why | -) | e' <;> rfl
        · exact slot_ended_congr fun _ => slot_ended_ok

theorem putEach_stopped {stop : Stop}
    (stopped : (m.putEach thread txn entity mode entries).1 = .error stop) :
    ∃ before entry after, entries = before ++ entry :: after ∧
      (m.putEach thread txn entity mode before).1 = .ok () ∧
      ((m.putEach thread txn entity mode before).2.act thread
        (.put txn entity entry.1 entry.2 mode)).1 = .error stop := by
  induction entries generalizing m with
  | nil => cases stopped
  | cons entry entries ih =>
      rw [putEach] at stopped
      split at stopped
      · rename_i m' acted
        obtain ⟨before, first, after, rfl, went, failed⟩ := ih stopped
        refine ⟨entry :: before, first, after, rfl, ?_⟩
        rw [putEach, acted]
        exact ⟨went, failed⟩
      · rename_i stop' m' acted
        cases stopped
        exact ⟨[], entry, entries, rfl, rfl, congrArg Prod.fst acted⟩

/-- How it ends to store many at once, `many`, beside storing them one after another. -/
structure AsEach (m : Machine) (thread : ThreadId) (txn : Option Handle) (entity : EntityId)
    (mode : PutMode) (entries : List (ObjectId × Bytes)) (many : Except Stop Unit × Machine) :
    Prop where
  result : many.1 = (m.putEach thread txn entity mode entries).1
  slots (other : ThreadId) :
    many.2.slot other = (m.putEach thread txn entity mode entries).2.slot other
  engine : many.1 = .ok () →
    many.2.engine = (m.putEach thread txn entity mode entries).2.engine
  /-- Of the records of one id the last stays; nothing else is changed but the sequence. -/
  stored : many.1 = .ok () → ∃ s s', m.engine.view txn = .ok s ∧ many.2.engine.view txn = .ok s' ∧
    s'.links = s.links ∧ ∀ entity' id, s'.record? entity' id =
      if entity = entity' then (entries.reverse.lookup id).or (s.record? entity' id)
      else s.record? entity' id
  sequence : many.1 = .ok () → ∀ entity', many.2.engine.lastId entity' =
    if entity = entity' then (entries.map Prod.fst).foldl max (m.engine.lastId entity')
    else m.engine.lastId entity'
  /-- It fails with the status of the first that fails, and changes nothing. -/
  refused {stop : Stop} : many.1 = .error stop → many.2.engine = m.engine ∧
    ∃ status, stop = .failed status ∧ ∃ before entry after, entries = before ++ entry :: after ∧
      (m.putEach thread txn entity mode before).1 = .ok () ∧
      ((m.putEach thread txn entity mode before).2.act thread
        (.put txn entity entry.1 entry.2 mode)).1 = .error (.failed status)

/-- Storing many at once is storing them one after another, all or none. -/
theorem putMany_as_putEach (arises : m.engine.Arises true)
    (defined : m.engine.entities.contains entity = true) (may : m.engine.MayWrite txn)
    (even : ids.length = records.length) :
    m.AsEach thread txn entity mode (ids.zip records)
      (m.act thread (.putMany txn entity ids records mode)) := by
  obtain ⟨s, writes⟩ := arises.writesOn may
  have stores : m.engine.Stores txn entity s := ⟨writes, arises.arrays_eq, defined, arises.tidy⟩
  have same : m.engine.putEach thread txn entity mode (ids.zip records) = _ :=
    (stores.putMany_eq_putEach even).symm
  obtain ⟨result, slots, engine⟩ := @putEach_eq m thread txn entity mode (ids.zip records)
  rw [same] at result slots engine
  rw [act_eq_ended fun _ => rfl, Engine.perform]
  rcases outcome : m.engine.putMany thread txn entity ids records mode with (why | -) | e
  · rw [outcome] at result slots
    refine ⟨result.symm, fun other => (slots other).symm, ?_, ?_, ?_, ?_⟩
    · rintro ⟨⟩
    · rintro ⟨⟩
    · rintro ⟨⟩
    · rintro _ ⟨⟩
      exact ⟨rfl, _, rfl, putEach_stopped result⟩
  · exact absurd outcome (stores.putMany_ne_waits even)
  · rw [outcome] at result slots
    have zipped : (ids.zip records).map Prod.fst = ids := List.map_fst_zip (Nat.le_of_eq even)
    obtain rfl := stores.eq_of_putMany even outcome
    refine ⟨result.symm, fun other => (slots other).symm, fun _ => (engine _ outcome).symm,
      fun _ => ?_, fun _ entity' => ?_, fun failed => by cases failed⟩
    · refine ⟨s, _, writes.view, writes.withView.observe.view, Snapshot.insertMany_links, ?_⟩
      exact fun entity' id => Snapshot.record?_insertMany
    · rw [zipped]
      change Engine.lastId (Engine.observe _ entity ids) entity' = _
      rw [Engine.lastId_observe, writes.wrote.lastId_eq]

/-- In a write transaction that has stored a record: of a list that names an id twice the later
record stays, and the second of two insertions under a new id takes the first one back. -/
theorem putMany_repeated_as_putEach :
    let m := ((fresh true).run [(0, .defineEntity 1 "Note"), (0, .begin .write),
      (0, .put (some 1) 1 3 [9] .put)]).2
    (∃ s', (m.act 0 (.putMany (some 1) 1 [5, 3, 5] [[1], [2], [3]] .put)).2.engine.view (some 1) =
        .ok s' ∧ s'.record? 1 5 = some [3] ∧ s'.record? 1 3 = some [2]) ∧
      (m.act 0 (.putMany (some 1) 1 [4, 4] [[1], [2]] .insert)).1 =
        .error (.failed .idAlreadyExists) ∧
      (m.act 0 (.putMany (some 1) 1 [4, 4] [[1], [2]] .insert)).2.engine = m.engine := by
  intro m
  have arises : m.engine.Arises true := arises_run .fresh
  have may : m.engine.MayWrite (some 1) := ⟨_, rfl⟩
  have known : m.engine.entities.contains 1 = true := rfl
  have overwritten : m.AsEach 0 (some 1) 1 .put ([5, 3, 5].zip [[1], [2], [3]])
      (m.act 0 (.putMany (some 1) 1 [5, 3, 5] [[1], [2], [3]] .put)) :=
    putMany_as_putEach arises known may rfl
  have inserted : m.AsEach 0 (some 1) 1 .insert ([4, 4].zip [[1], [2]])
      (m.act 0 (.putMany (some 1) 1 [4, 4] [[1], [2]] .insert)) :=
    putMany_as_putEach arises known may rfl
  have failed : (m.act 0 (.putMany (some 1) 1 [4, 4] [[1], [2]] .insert)).1 =
      .error (.failed .idAlreadyExists) := rfl
  obtain ⟨s, s', -, left, -, records⟩ := overwritten.stored rfl
  exact ⟨⟨s', left, records 1 5, records 1 3⟩, failed, (inserted.refused failed).1⟩

end Machine

end ObjectStore
