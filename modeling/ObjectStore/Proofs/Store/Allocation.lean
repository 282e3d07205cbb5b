import ObjectStore.Proofs.Store.Calls

/-! # Allocated ids

An id that the engine hands out is never 0, so an allocation that is served is served at once. One
that is refused fails with the detail of the second attempt, which is the same.
-/

namespace ObjectStore

variable {e e' : Engine} {entity : EntityId} {txn : Option Handle} {candidate id : ObjectId}
  {why : Refusal} {message : String}

namespace Engine

theorem idForPut_ne_zero (done : e.idForPut txn entity candidate = .ok (id, e')) : id ≠ 0 := by
  obtain ⟨-, -, granted⟩ := idForPut_eq_ok.mp done
  split at granted
  · obtain ⟨room, rfl, -⟩ := granted
    have bound := (e.lastId entity).toNat_lt
    intro zero
    have wrapped := congrArg UInt64.toNat zero
    rw [UInt64.toNat_add] at wrapped
    simp only [maxId, UInt64.reduceToNat] at room wrapped
    omega
  · obtain ⟨rfl, -⟩ := granted
    assumption

end Engine

namespace Store

theorem askId_ends (done : e.idForPut txn entity candidate = .ok (id, e')) :
    Ends (askId txn entity candidate) e (.ok id) e' := by
  unfold askId
  exact Ends.bind (HostM.perform_ends done) Ends.pure

theorem onCallerSlot_ends {change : ErrorSlot → ErrorSlot} :
    Ends (onCallerSlot change) e (.ok ()) e := by
  rintro h ⟨plain, rfl⟩
  exact ⟨_, ⟨plain, rfl⟩, rfl, rfl⟩

theorem allocateOne_ends (done : e.idForPut txn entity candidate = .ok (id, e')) :
    Ends (allocateOne txn entity candidate) e (.ok id) e' := by
  unfold allocateOne
  apply (askId_ends done).bind
  rw [if_pos (Engine.idForPut_ne_zero done)]
  exact Ends.pure

theorem askId_run {h : Host} (plain : h.faults = [])
    (refused : h.machine.engine.idForPut txn entity candidate = .error (.refused why))
    (detail : why.detail? = some message) :
    ∃ h' : Host, askId txn entity candidate h = (.ok 0, h') ∧
      (h'.faults = [] ∧ h'.calls = .idForPut txn entity candidate :: h.calls) ∧
      h'.machine.engine = h.machine.engine ∧
      (h'.machine.slot callerThread).last = some ⟨why.status, message⟩ := by
  let after : Host := { h.note callerThread (.idForPut txn entity candidate) with
    machine := h.machine.onSlot callerThread why.recordIn }
  have called : h.call callerThread (.idForPut txn entity candidate) =
      some (.failed why.status none, after) := Host.call_refused plain refused
  refine ⟨after, ?_, ⟨Host.faults_note.trans plain, by simp [after, Host.note]⟩, rfl, ?_⟩
  · unfold askId
    exact HostM.bind_run (HostM.perform_run.trans (by rw [called]))
  · simp only [after, Machine.slot_onSlot, Refusal.recordIn, detail, ErrorSlot.record]

theorem allocateOne_run {h h₁ h₂ : Host} {detail : LastError}
    (first : askId txn entity candidate h = (.ok 0, h₁))
    (second : askId txn entity candidate
      { h₁ with machine := h₁.machine.onSlot callerThread ErrorSlot.pin } = (.ok 0, h₂))
    (recorded : (h₂.machine.slot callerThread).last = some detail) :
    allocateOne txn entity candidate h =
      (.error (.engine "id_for_put" detail.status detail.message),
        { h₂ with machine := h₂.machine.onSlot callerThread fun slot => slot.clear.unpin }) := by
  let pinned : Host := { h₁ with machine := h₁.machine.onSlot callerThread ErrorSlot.pin }
  let cleared : Host :=
    { h₂ with machine := h₂.machine.onSlot callerThread fun slot => slot.clear.unpin }
  rw [allocateOne, HostM.bind_run first, if_neg (not_not_intro rfl)]
  rw [HostM.bind_run (show onCallerSlot ErrorSlot.pin h₁ = (.ok (), pinned) from rfl)]
  rw [HostM.bind_run second, if_neg (not_not_intro rfl)]
  rw [HostM.bind_run (show (get : HostM Host) h₂ = (.ok h₂, h₂) from rfl)]
  rw [HostM.bind_run
    (show onCallerSlot (fun slot => slot.clear.unpin) h₂ = (.ok (), cleared) from rfl)]
  rw [recorded]
  rfl

/-- A refused id is asked for twice, and fails with the detail the second time leaves. -/
theorem allocateOne_refused (refused : e.idForPut txn entity candidate = .error (.refused why))
    (detail : why.detail? = some message) :
    Ends (allocateOne txn entity candidate) e
      (.error (.engine "id_for_put" why.status message)) e := by
  rintro h ⟨plain, rfl⟩
  obtain ⟨h₁, first, ⟨plain₁, -⟩, same₁, -⟩ := askId_run plain refused detail
  let pinned : Host := { h₁ with machine := h₁.machine.onSlot callerThread ErrorSlot.pin }
  rw [← same₁] at refused
  obtain ⟨h₂, second, ⟨plain₂, -⟩, same₂, recorded⟩ :=
    askId_run (show pinned.faults = [] from plain₁) refused detail
  have ran := allocateOne_run first second recorded
  refine ⟨_, ⟨?_, ?_⟩, ?_, rfl⟩ <;>
    rw [show Runs.run (allocateOne txn entity candidate).run h = _ from ran]
  · exact plain₂
  · exact same₂.trans same₁

theorem allocateBlock_none : Ends (allocateBlock txn entity 0) e (.ok 0) e := by
  rw [allocateBlock, if_pos rfl]
  exact Ends.pure

theorem allocateBlock_ends {count : Nat} (some : count ≠ 0)
    (done : e.idsForPut txn entity count = .ok (id, e')) :
    Ends (allocateBlock txn entity count) e (.ok id) e' := by
  rw [allocateBlock, if_neg some]
  exact HostM.request_ends done

end Store

end ObjectStore
