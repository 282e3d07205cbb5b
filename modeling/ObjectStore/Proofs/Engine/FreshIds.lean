import ObjectStore.Proofs.Engine.Runs

/-! # Fresh ids

The engine gives ids in two calls, one at a time and in blocks. It draws them from the sequence of
the entity type, except that a nonzero candidate is granted as it is. No snapshot holds an id that
its sequence has not reached, and every id ever granted is one the sequence has reached, so an id
drawn next, which lies past the sequence, is new. A sequence that cannot go on refuses, and stays.
-/

namespace ObjectStore

namespace Served

/-- The ids an answer grants for an entity type. -/
inductive Grants : Served → EntityId → ObjectId → Prop where
  | single {txn : Option Handle} {entity : EntityId} {candidate id : ObjectId} :
      Grants ⟨.idForPut txn entity candidate, id⟩ entity id
  | block {txn : Option Handle} {entity : EntityId} {count : Nat} {first id : ObjectId} :
      first ≤ id → id.toNat < first.toNat + count →
      Grants ⟨.idsForPut txn entity count, first⟩ entity id

/-- The ids an answer grants that the engine drew from the sequence. -/
inductive Draws : Served → EntityId → ObjectId → Prop where
  | single {txn : Option Handle} {entity : EntityId} {id : ObjectId} :
      Draws ⟨.idForPut txn entity 0, id⟩ entity id
  | block {txn : Option Handle} {entity : EntityId} {count : Nat} {first id : ObjectId} :
      first ≤ id → id.toNat < first.toNat + count →
      Draws ⟨.idsForPut txn entity count, first⟩ entity id

end Served

/-- An id granted by a call that was served. -/
def Taken.Granted (taken : Taken) (entity : EntityId) (id : ObjectId) : Prop :=
  ∃ answer, taken.result = .ok answer ∧ Served.Grants ⟨taken.call, answer⟩ entity id

namespace Engine

variable {e e' : Engine} {thread : ThreadId} {served : Served} {entity : EntityId} {id : ObjectId}

/-! ## What one call grants -/

theorem toNat_last_add {count : Nat} (room : (e.lastId entity).toNat + count ≤ maxId) :
    (UInt64.ofNat ((e.lastId entity).toNat + count)).toNat = (e.lastId entity).toNat + count := by
  simp only [maxId] at room
  rw [UInt64.toNat_ofNat']
  omega

theorem granted_le_lastId (done : e.perform thread served.call = .ok (served.answer, e'))
    (grants : served.Grants entity id) : id ≤ e'.lastId entity := by
  cases grants with
  | @single txn entity candidate id =>
      obtain ⟨-, -, granted⟩ := idForPut_eq_ok.mp done
      split at granted
      · obtain ⟨-, rfl, rfl⟩ := granted
        simp
      · obtain ⟨asked, rfl⟩ := granted
        have same : id = candidate := asked
        rw [same]
        exact mem_le_lastId_observe (List.mem_singleton_self _)
  | @block txn entity count first id above below =>
      obtain ⟨size, -, -, room, rfl, rfl⟩ := idsForPut_eq_ok.mp done
      have start : (e.lastId entity).toNat + 1 ≤ maxId := by omega
      rw [toNat_last_add start] at below
      rw [lastId_setLastId, if_pos rfl, UInt64.le_iff_toNat_le, toNat_last_add room]
      omega

/-- What is drawn lies past the sequence, and drawing it changes no snapshot. -/
theorem lastId_lt_drawn (done : e.perform thread served.call = .ok (served.answer, e'))
    (draws : served.Draws entity id) :
    e.lastId entity < id ∧ e'.committed = e.committed ∧ e'.txns = e.txns := by
  cases draws with
  | single =>
      obtain ⟨-, -, granted⟩ := idForPut_eq_ok.mp done
      obtain ⟨room, rfl, rfl⟩ := (if_pos rfl).mp granted
      have bound := (e.lastId entity).toNat_lt
      simp only [maxId] at room
      refine ⟨?_, rfl, rfl⟩
      rw [UInt64.lt_iff_toNat_lt, UInt64.toNat_add]
      simp only [UInt64.reduceToNat]
      omega
  | @block txn entity count first id above below =>
      obtain ⟨size, -, -, room, rfl, rfl⟩ := idsForPut_eq_ok.mp done
      have start : (e.lastId entity).toNat + 1 ≤ maxId := by omega
      refine ⟨?_, rfl, rfl⟩
      rw [UInt64.le_iff_toNat_le, toNat_last_add start] at above
      rw [UInt64.lt_iff_toNat_lt]
      omega

theorem Reaches.unused {s : Snapshot} (h : e.Reaches s) (past : e.lastId entity < id) :
    s.contains entity id = false := by
  cases held : s.contains entity id with
  | false => rfl
  | true => exact absurd (h entity id held).2 (Std.not_le.mpr past)

end Engine

namespace Machine

variable {m : Machine} {thread : ThreadId} {call : Call} {txn : Option Handle}
  {entity : EntityId}

/-- A call is refused because a sequence is at its end. The engine stays as it is. -/
def Exhausts (m : Machine) (thread : ThreadId) (call : Call) (entity : EntityId) : Prop :=
  m.step thread call =
      some (.error (.exhausted entity), m.onSlot thread (Refusal.exhausted entity).recordIn) ∧
    (Refusal.exhausted entity).status = .illegalState

theorem exhausts_of_perform
    (refused : m.engine.perform thread call = Engine.refuse (.exhausted entity)) :
    m.Exhausts thread call entity := by
  refine ⟨?_, rfl⟩
  simp only [step, refused, Engine.refuse]

theorem step_idsForPut {count : Nat} (known : m.engine.entities.contains entity = true)
    (writable : m.engine.requireWritable txn = .ok ())
    (size : 0 < count ∧ count ≤ maxIdsPerBlock) :
    let last := (m.engine.lastId entity).toNat
    if last + count ≤ Engine.maxId then
      m.step thread (.idsForPut txn entity count) = some (.ok (.ofNat (last + 1)),
        { m with engine := m.engine.setLastId entity (.ofNat (last + count)) })
    else m.Exhausts thread (.idsForPut txn entity count) entity := by
  intro last
  split
  · rename_i room
    exact step_of_perform (Engine.idsForPut_eq_ok.mpr ⟨size, known, writable, room, rfl, rfl⟩)
  · rename_i full
    have sized : ¬ (count = 0 ∨ maxIdsPerBlock < count) := by omega
    have required : m.engine.requireEntity entity = .ok () := Engine.requireEntity_eq_ok.mpr known
    refine exhausts_of_perform ?_
    simp only [last] at full
    simp only [Engine.perform, Engine.idsForPut, sized, if_false, required, writable, full, bind,
      Except.bind]

theorem step_idForPut_exhausted (known : m.engine.entities.contains entity = true)
    (writable : m.engine.requireWritable txn = .ok ())
    (full : (m.engine.lastId entity).toNat = Engine.maxId) :
    m.Exhausts thread (.idForPut txn entity 0) entity := by
  have required : m.engine.requireEntity entity = .ok () := Engine.requireEntity_eq_ok.mpr known
  refine exhausts_of_perform ?_
  simp only [Engine.perform, Engine.idForPut, required, writable, full, bind, Except.bind, if_true]

/-! ## Runs -/

variable {calls : List (ThreadId × Call)}

theorem lastId_le_run : m.engine.lastId entity ≤ (m.run calls).2.engine.lastId entity := by
  refine run_keeps (P := fun e => m.engine.lastId entity ≤ e.lastId entity) (Q := fun _ => True)
    (fun held _ done => ?_) (Std.le_refl _) fun _ _ => trivial
  exact Std.le_trans held (Engine.lastId_le_of_perform done)

theorem granted_le_run {taken : Taken} {id : ObjectId} (member : taken ∈ (m.run calls).1)
    (granted : taken.Granted entity id) : id ≤ (m.run calls).2.engine.lastId entity := by
  induction calls generalizing m with
  | nil => cases member
  | cons first calls ih =>
      obtain ⟨thread, call⟩ := first
      simp only [run] at member ⊢
      split at member
      · rename_i result m₁ stepped
        cases member with
        | tail _ later => exact ih later
        | head =>
            obtain ⟨answer, ended, grants⟩ := granted
            rcases step_eq_some stepped with ⟨answer', served, done, -⟩ | ⟨why, failed, -⟩
            · cases served.symm.trans ended
              have reached : id ≤ m₁.engine.lastId entity :=
                @Engine.granted_le_lastId _ _ _ ⟨call, answer⟩ _ _ done grants
              exact Std.le_trans reached lastId_le_run
            · cases failed.symm.trans ended
      · exact ih member

/-- How ids are issued after the calls of `history`. -/
structure Issues (m : Machine) (history : List Taken) : Prop where
  /-- An id drawn now is new: nonzero, larger than any granted before, and stored nowhere. -/
  fresh {thread : ThreadId} {call : Call} {answer : call.Answer} {m' : Machine} {entity : EntityId}
    {id : ObjectId} : m.step thread call = some (.ok answer, m') →
      Served.Draws ⟨call, answer⟩ entity id →
      id ≠ 0 ∧ (∀ taken ∈ history, ∀ earlier, taken.Granted entity earlier → earlier < id) ∧
        m'.engine.committed.contains entity id = false ∧
        ∀ (txn : Handle) (t : OpenTxn), m'.engine.txns[txn]? = some t →
          t.state.contains entity id = false
  /-- A block is granted exactly if it ends within 64 bits. -/
  block {thread : ThreadId} {txn : Option Handle} {entity : EntityId} {count : Nat} :
      m.engine.entities.contains entity = true → m.engine.requireWritable txn = .ok () →
      1 ≤ count → count ≤ 10000 →
      let last := (m.engine.lastId entity).toNat
      if last + count ≤ 0xffffffffffffffff then
        m.step thread (.idsForPut txn entity count) = some (.ok (.ofNat (last + 1)),
          { m with engine := m.engine.setLastId entity (.ofNat (last + count)) })
      else m.Exhausts thread (.idsForPut txn entity count) entity
  /-- A sequence at its end grants no single id. -/
  single {thread : ThreadId} {txn : Option Handle} {entity : EntityId} :
      m.engine.entities.contains entity = true → m.engine.requireWritable txn = .ok () →
      (m.engine.lastId entity).toNat = 0xffffffffffffffff →
      m.Exhausts thread (.idForPut txn entity 0) entity

/-- Whatever calls any threads have made on a new engine, the ids it draws are fresh, and it goes on
    drawing them up to the largest one. -/
theorem run_issues_fresh_ids (arrays : Bool) (calls : List (ThreadId × Call)) :
    ((fresh arrays).run calls).2.Issues ((fresh arrays).run calls).1 := by
  have numbered : ((fresh arrays).run calls).2.engine.Numbered := (arises_run .fresh).numbered
  refine ⟨?_, ?_, step_idForPut_exhausted⟩
  · intro thread call answer m' entity id stepped draws
    rcases step_eq_some stepped with ⟨answer', served, done, -⟩ | ⟨why, failed, -⟩
    · cases served
      obtain ⟨past, committed, txns⟩ :=
        @Engine.lastId_lt_drawn _ _ _ ⟨call, answer⟩ _ _ done draws
      refine ⟨?_, ?_, ?_, ?_⟩
      · rintro rfl
        exact UInt64.not_lt_zero past
      · intro taken member earlier granted
        exact Std.lt_of_le_of_lt (granted_le_run member granted) past
      · rw [committed]
        exact numbered.committed.unused past
      · intro txn t found
        rw [txns] at found
        exact (numbered.opened found).unused past
    · cases failed
  · intro thread txn entity count known writable nonempty bounded
    exact step_idsForPut known writable ⟨nonempty, bounded⟩

/-- An id written by a transaction that was aborted is not drawn again: a block of three starts past
    it, and is new up to its last id. -/
theorem block_past_aborted_put :
    let run := (fresh true).run
      [(0, .defineEntity 1 "Note"), (0, .begin .write), (0, .put (some 1) 1 5 [7] .put),
        (1, .idForPut none 1 0), (0, .abort 1)]
    run.2.step 1 (.idsForPut none 1 3) =
        some (.ok 7, { run.2 with engine := run.2.engine.setLastId 1 9 }) ∧
      (9 : ObjectId) ≠ 0 ∧
      (∀ taken ∈ run.1, ∀ earlier, taken.Granted 1 earlier → earlier < 9) ∧
      run.2.engine.committed.contains 1 9 = false := by
  intro run
  have issues : run.2.Issues run.1 := run_issues_fresh_ids true _
  have drawn : run.2.step 1 (.idsForPut none 1 3) =
      some (.ok 7, { run.2 with engine := run.2.engine.setLastId 1 9 }) :=
    (if_pos (by decide)).mp (@Issues.block _ _ issues 1 none 1 3 rfl rfl (by decide) (by decide))
  have last : Served.Draws ⟨.idsForPut none 1 3, (7 : ObjectId)⟩ 1 9 :=
    .block (by decide) (by decide)
  obtain ⟨nonzero, new, unused, -⟩ := issues.fresh drawn last
  exact ⟨drawn, nonzero, new, unused⟩

end Machine

end ObjectStore
