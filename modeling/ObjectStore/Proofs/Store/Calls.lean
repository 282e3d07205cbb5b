import ObjectStore.Store.Allocation
import ObjectStore.Proofs.Store.Logic

/-! # Engine calls of a program

What each call a program makes on its engine leads to. A call that is served answers and moves the
engine as `Engine.perform` says; one that is refused fails with the refusal, and at one that waits
the program ends. In both cases the engine stays as it was.
-/

namespace ObjectStore

variable {e e' : Engine} {call : Call} {answer : call.Answer} {why : Refusal} {operation : String}
  {message : String}

/-! ## The host -/

namespace Machine

variable {m : Machine} {thread : ThreadId} {change : ErrorSlot → ErrorSlot}

@[simp] theorem slot_onSlot : (m.onSlot thread change).slot thread = change (m.slot thread) := by
  simp [slot, onSlot]

end Machine

namespace Host

variable {h : Host} {thread : ThreadId}

theorem meet_plain (plain : h.faults = []) {name : String} : h.meet name = (none, h) := by
  simp [meet, plain]

@[simp] theorem faults_note : (h.note thread call).faults = h.faults := by
  simp only [note]
  split <;> rfl

@[simp] theorem machine_note : (h.note thread call).machine = h.machine := by
  simp only [note]
  split <;> rfl

theorem call_served (plain : h.faults = [])
    (done : h.machine.engine.perform thread call = .ok (answer, e)) :
    h.call thread call = some (.done answer,
      { h.note thread call with machine := { h.machine with engine := e } }) := by
  simp only [Host.call, meet_plain (faults_note.trans plain), machine_note,
    Machine.step, done, bind, Option.bind, pure]

theorem call_refused (plain : h.faults = [])
    (refused : h.machine.engine.perform thread call = .error (.refused why)) :
    h.call thread call = some (.failed why.status none,
      { h.note thread call with machine := h.machine.onSlot thread why.recordIn }) := by
  simp only [Host.call, meet_plain (faults_note.trans plain), machine_note,
    Machine.step, refused, bind, Option.bind, pure]

theorem call_waits (plain : h.faults = [])
    (waits : h.machine.engine.perform thread call = .error .waits) :
    h.call thread call = none := by
  simp only [Host.call, meet_plain (faults_note.trans plain), machine_note,
    Machine.step, waits, bind, Option.bind]

end Host

/-! ## Performing and requesting -/

namespace HostM

theorem bind_run {α β : Type} {program : HostM α} {f : α → HostM β} {h h' : Host} {a : α}
    (ran : program h = (.ok a, h')) : (program >>= f) h = f a h' := by
  simp only [bind, ExceptT.bind, ExceptT.bindCont, ExceptT.mk, StateT.bind, ran]

/-- A call is made on the host it finds; one that waits is not made. -/
theorem perform_run {h : Host} :
    perform call h = match h.call callerThread call with
      | some (reply, h') => (.ok reply, h')
      | none => (.error .waits, h) := by
  simp only [perform, bind, ExceptT.bind, ExceptT.bindCont, ExceptT.mk, StateT.bind, get, getThe,
    MonadStateOf.get, liftM, monadLift, MonadLift.monadLift, ExceptT.lift, StateT.get, Functor.map,
    StateT.map, pure]
  cases h.call callerThread call <;> rfl

theorem perform_ends (done : e.perform callerThread call = .ok (answer, e')) :
    Ends (perform call) e (.ok (.done answer)) e' := by
  rintro h ⟨plain, rfl⟩
  have ran := perform_run.trans (by rw [Host.call_served plain done])
  refine ⟨e', ⟨?_, ?_⟩, ?_, rfl⟩ <;> rw [show Runs.run (perform call).run h = _ from ran]
  exact Host.faults_note.trans plain

theorem perform_refused (refused : e.perform callerThread call = .error (.refused why)) :
    Ends (perform call) e (.ok (.failed why.status none)) e := by
  rintro h ⟨plain, rfl⟩
  have ran := perform_run.trans (by rw [Host.call_refused plain refused])
  refine ⟨_, ⟨?_, ?_⟩, ?_, rfl⟩ <;> rw [show Runs.run (perform call).run h = _ from ran]
  · exact Host.faults_note.trans plain
  · rfl

theorem perform_waits (waits : e.perform callerThread call = .error .waits) :
    Ends (perform call) e (.error .waits) e := by
  rintro h ⟨plain, rfl⟩
  have ran := perform_run.trans (by rw [Host.call_waits plain waits])
  refine ⟨_, ⟨?_, ?_⟩, ?_, rfl⟩ <;> rw [show Runs.run (perform call).run h = _ from ran]
  exact plain

theorem failure_leads {status : Status} {Q : Except StoreError StoreError → Engine → Prop}
    (any : ∀ message, Q (.ok (.engine operation status message)) e) :
    Leads (failure operation status) e Q := by
  rintro h ⟨plain, rfl⟩
  exact ⟨_, ⟨plain, rfl⟩, any _⟩

theorem request_ends (done : e.perform callerThread call = .ok (answer, e')) :
    Ends (request operation call) e (.ok answer) e' := by
  unfold request
  exact (perform_ends done).bind Ends.pure

theorem request_leads {Q : Except StoreError call.Answer → Engine → Prop}
    (served : ∀ answer e', e.perform callerThread call = .ok (answer, e') → Q (.ok answer) e')
    (unserved : ∀ error, (∀ answer e', e.perform callerThread call ≠ .ok (answer, e')) →
      Q (.error error) e) :
    Leads (request operation call) e Q := by
  unfold request
  cases ended : e.perform callerThread call with
  | ok done =>
      obtain ⟨answer, e'⟩ := done
      exact (perform_ends ended).bind (Leads.pure (served answer e' ended))
  | error halt =>
      have none : ∀ answer e', e.perform callerThread call ≠ .ok (answer, e') := by
        simp [ended]
      cases halt with
      | refused why =>
          refine (perform_refused ended).bind (Leads.bind (failure_leads fun message => ?_))
          exact Leads.throw (unserved _ none)
      | waits => exact (perform_waits ended).bind_error (unserved _ none)

theorem request_waits (waits : e.perform callerThread call = .error .waits) :
    Ends (request operation call) e (.error .waits) e := by
  unfold request
  exact (perform_waits waits).bind_error (And.intro rfl rfl)

theorem request_fails (refused : e.perform callerThread call = .error (.refused why)) :
    Leads (request operation call) e fun r e' =>
      (∃ message, r = .error (.engine operation why.status message)) ∧ e' = e := by
  unfold request
  refine (perform_refused refused).bind (Leads.bind (failure_leads fun message => ?_))
  rw [Onward]
  apply Leads.throw
  exact ⟨⟨message, rfl⟩, rfl⟩

theorem failure_run {h : Host} {status : Status}
    (recorded : (h.machine.slot callerThread).last = some ⟨status, message⟩) :
    (failure operation status h).1 = .ok (.engine operation status message) := by
  have told : (h.machine.slot callerThread).messageFor status = message := by
    simp only [ErrorSlot.messageFor, recorded, if_true]
  rw [← told]
  rfl

/-- A refusal with a detail is what the call fails with. -/
theorem request_refused (refused : e.perform callerThread call = .error (.refused why))
    (detail : why.detail? = some message) :
    Ends (request operation call) e (.error (.engine operation why.status message)) e := by
  rintro h ⟨plain, rfl⟩
  let after : Host :=
    { h.note callerThread call with machine := h.machine.onSlot callerThread why.recordIn }
  have ran : perform call h = (.ok (.failed why.status none), after) :=
    perform_run.trans (by rw [Host.call_refused plain refused])
  have recorded : (after.machine.slot callerThread).last = some ⟨why.status, message⟩ := by
    simp only [after, Machine.slot_onSlot, Refusal.recordIn, detail, ErrorSlot.record]
  have failed : request operation call h =
      (.error (.engine operation why.status message), (failure operation why.status after).2) := by
    have fails : failure operation why.status after =
        (.ok (.engine operation why.status message), (failure operation why.status after).2) :=
      Prod.ext (failure_run recorded) rfl
    rw [request, bind_run ran]
    exact bind_run fails
  refine ⟨_, ⟨?_, ?_⟩, ?_, rfl⟩ <;>
    rw [show Runs.run (request operation call).run h = _ from failed]
  · exact Host.faults_note.trans plain
  · rfl

end HostM

end ObjectStore
