import ObjectStore.Proofs.Errors.Blame
import ObjectStore.Proofs.Store.Twins

/-! # What the errors of calls say

A program makes a call and looks at how it ended (`Performs`). If the call is refused, what the
program does about it makes no call, and the error it ends in, if any, is fetched from the slot that
the refusal was just recorded in (`Complains`). So it is about this call, whatever was in the slot
before: only a refusal without a detail would leave that there, and such a one gets its message from
the program itself.

Asking for an id leaves no status, so an id that is refused is asked for again, on a slot that was
emptied before. Of the two refusals, which are the same, the error is about the second.

A call that waits is not made, and the program comes to no error.
-/

namespace ObjectStore

variable {extra : Call → Refusal → String → Prop} {call : Call} {why : Refusal}
  {operation message : String} {status : Status}

theorem Refusal.messageFor_recordIn {slot : ErrorSlot} (detail : why.detail? = some message) :
    (why.recordIn slot).messageFor why.status = message := by
  simp only [recordIn, detail, ErrorSlot.record, ErrorSlot.messageFor, if_true]

namespace Host

variable {h h' : Host} {e : Engine}

theorem Made.one (plain : h.faults = []) (same : h.machine.engine.after [call] = e)
    {machine : Machine} (left : machine.engine = e) :
    h.Made [call] { h.note callerThread call with machine } :=
  ⟨faults_note.trans plain, by simp [note], left.trans same.symm⟩

theorem Made.slot (plain : h.faults = []) (change : ErrorSlot → ErrorSlot) :
    h.Made [] { h with machine := h.machine.onSlot callerThread change } :=
  ⟨plain, rfl, rfl⟩

/-- How a call of the caller ended, and what host it left. -/
inductive Performed (h : Host) (call : Call) : Reply call.Answer → Host → Prop where
  | served {answer : call.Answer} {h' : Host} (made : h.Made [call] h')
      (done : h.machine.engine.perform callerThread call = .ok (answer, h'.machine.engine)) :
      Performed h call (.done answer) h'
  | refused {why : Refusal} {h' : Host} (made : h.Made [call] h')
      (refusal : h.machine.engine.perform callerThread call = .error (.refused why))
      (told : h'.machine.slot callerThread = why.recordIn (h.machine.slot callerThread)) :
      Performed h call (.failed why.status none) h'

end Host

theorem HostM.perform_performed {h : Host} (plain : h.faults = []) (call : Call) :
    (∃ reply h', perform call h = (.ok reply, h') ∧ h.Performed call reply h') ∨
      h.machine.engine.perform callerThread call = .error .waits ∧
        perform call h = (.error .waits, h) := by
  cases ended : h.machine.engine.perform callerThread call with
  | ok done =>
      obtain ⟨answer, e⟩ := done
      refine .inl ⟨_, _, perform_run.trans (by rw [Host.call_served plain ended]), ?_⟩
      exact .served (.one plain (Engine.after_served ended) rfl) ended
  | error halt =>
      cases halt with
      | refused why =>
          refine .inl ⟨_, _, perform_run.trans (by rw [Host.call_refused plain ended]), ?_⟩
          exact .refused (.one plain (Engine.after_unserved ended) rfl) ended
            Machine.slot_onSlot
      | waits =>
          exact .inr ⟨rfl, perform_run.trans (by rw [Host.call_waits plain ended])⟩

/-! ## Programs that look at how a call ended -/

section Replies

variable {m : Type → Type} [Monad m] {W : Type} [Runs m W] [Hosts W] {α : Type}

/-- The program makes a call and answers how it ended, or the call waits. -/
def Performs (call : Call) (p : ExceptT StoreError m (Reply call.Answer)) : Prop :=
  ∀ w : W, (Hosts.host w).faults = [] →
    (∃ reply w', Runs.run p.run w = (.ok reply, w') ∧
      (Hosts.host w).Performed call reply (Hosts.host w')) ∨
    ∃ w', Runs.run p.run w = (.error .waits, w') ∧ Hosts.host w' = Hosts.host w

/-- The program answers the error of a call that ended in a status, fetched from the slot. -/
def Fetches (operation : String) (status : Status) (p : ExceptT StoreError m StoreError) : Prop :=
  ∀ w : W, ∃ w', Runs.run p.run w = (.ok (.engine operation status
      (((Hosts.host w).machine.slot callerThread).messageFor status)), w') ∧
    ((Hosts.host w).faults = [] → (Hosts.host w).Made [] (Hosts.host w'))

theorem Fetches.throw_run {p : ExceptT StoreError m StoreError}
    (fetches : Fetches operation status p) (w : W) :
    ∃ w', Runs.run (p >>= fun error => throw error : ExceptT StoreError m α).run w =
        (.error (.engine operation status
          (((Hosts.host w).machine.slot callerThread).messageFor status)), w') ∧
      ((Hosts.host w).faults = [] → (Hosts.host w).Made [] (Hosts.host w')) := by
  obtain ⟨w', ran, made⟩ := fetches w
  exact ⟨w', (Alike.run_bind ran).trans (Runs.run_pure _ _), made⟩

/-- What is done about a refused call: no call, and an error is about the refusal that was recorded
last. -/
structure Complains (extra : Call → Refusal → String → Prop) (call : Call) (why : Refusal)
    (p : ExceptT StoreError m α) : Prop where
  quiet (w : W) : (Hosts.host w).faults = [] →
    (Hosts.host w).Made [] (Hosts.host (Runs.run p.run w).2)
  about (w : W) {slot : ErrorSlot} {operation : String} {status : Status} {message : String} :
    (Hosts.host w).machine.slot callerThread = why.recordIn slot →
    (Runs.run p.run w).1 = .error (.engine operation status message) →
      operation = call.name ∧ status = why.status ∧
        (why.detail? = some message ∨ extra call why message)

namespace Complains

theorem pure {a : α} : Complains extra call why (Pure.pure a : ExceptT StoreError m α) := by
  have ran (w : W) : Runs.run (Pure.pure a : ExceptT StoreError m α).run w = (.ok a, w) :=
    Runs.run_pure _ _
  refine ⟨fun w plain => ?_, fun w _ _ _ _ _ failed => ?_⟩
  · rw [ran]
    exact .nil plain
  · rw [ran] at failed
    cases failed

theorem throw {error : StoreError} (about : ∀ operation status message,
    error = .engine operation status message → operation = call.name ∧ status = why.status ∧
      (why.detail? = some message ∨ extra call why message)) :
    Complains extra call why (MonadExcept.throw error : ExceptT StoreError m α) := by
  have ran (w : W) :
      Runs.run (MonadExcept.throw error : ExceptT StoreError m α).run w = (.error error, w) :=
    Runs.run_pure _ _
  refine ⟨fun w plain => ?_, fun w _ _ _ _ _ failed => ?_⟩
  · rw [ran]
    exact .nil plain
  · rw [ran] at failed
    exact about _ _ _ (Except.error.inj failed)

theorem fetched {p : ExceptT StoreError m StoreError} (told : why ≠ .missing)
    (fetches : Fetches call.name why.status p) :
    Complains extra call why
      (p >>= fun error => MonadExcept.throw error : ExceptT StoreError m α) := by
  refine ⟨fun w plain => ?_, fun w slot _ _ _ recorded failed => ?_⟩
  · obtain ⟨w', ran, made⟩ := fetches.throw_run w
    rw [ran]
    exact made plain
  · obtain ⟨w', ran, -⟩ := fetches.throw_run w
    obtain ⟨message, detail⟩ := Refusal.detail_of_ne_missing told
    rw [ran, recorded, Refusal.messageFor_recordIn detail] at failed
    cases failed
    exact ⟨rfl, rfl, .inl detail⟩

end Complains

/-- A program that makes a call, and complains if it is refused, reports. -/
theorem Reports.performing {p : ExceptT StoreError m (Reply call.Answer)}
    {f : Reply call.Answer → ExceptT StoreError m α} (performs : Performs call p)
    (id : Host.isIdForPut call = false) (served : ∀ answer, Reports extra (f (.done answer)))
    (refused : ∀ why : Refusal, (why = .missing → call.needsObject = true) →
      Complains extra call why (f (.failed why.status none))) :
    Reports extra (p >>= f) := by
  intro w plain
  rcases performs w plain with ⟨reply, w', ran, ended⟩ | ⟨w', ran, stays⟩
  case inr =>
    rw [Alike.run_bind_error ran, stays]
    exact ⟨[], .nil plain, fun _ _ _ failed => by cases failed⟩
  rw [Alike.run_bind ran]
  cases ended with
  | served made => exact (served _ w' made.plain).next made
  | @refused why _ made refusal told =>
      have complains := refused why (Engine.halted_of_perform refusal)
      refine ⟨[call], made.append (complains.quiet w' made.plain), fun _ _ _ failed => ?_⟩
      obtain ⟨rfl, rfl, detail⟩ := complains.about w' told failed
      exact .once id refusal detail

end Replies

/-! ## Calls that have to succeed -/

namespace HostM

theorem perform_performs : Performs call (perform call) :=
  fun h plain => (perform_performed plain call).imp_right fun waits => ⟨h, waits.2, rfl⟩

theorem failure_fetches : Fetches operation status (failure operation status) :=
  fun _ => ⟨_, rfl, fun plain => .slot plain _⟩

theorem request_reports (object : call.needsObject = false) (id : Host.isIdForPut call = false) :
    Reports extra (request call.name call) := by
  refine .performing perform_performs id (fun _ => .pure) fun why misses => ?_
  exact .fetched (fun missing => absurd (misses missing) (by simp [object])) failure_fetches

end HostM

namespace StoreM

theorem perform_performs : Performs call (ofHost (HostM.perform call)) := by
  intro s plain
  rcases HostM.perform_performed plain call with ⟨reply, host, ran, ended⟩ | ⟨-, ran⟩
  · exact .inl ⟨reply, { s with host }, ofHost_run ran, ended⟩
  · exact .inr ⟨s, ofHost_run ran, rfl⟩

theorem failure_fetches : Fetches operation status (ofHost (HostM.failure operation status)) := by
  intro s
  obtain ⟨host, ran, made⟩ := @HostM.failure_fetches operation status s.host
  exact ⟨{ s with host }, ofHost_run ran, made⟩

end StoreM

/-! ## Ids -/

namespace Store

variable {txn : Option Handle} {entity : EntityId} {candidate : ObjectId} {h : Host}

theorem askId_made (plain : h.faults = [])
    (refused : h.machine.engine.perform callerThread (.idForPut txn entity candidate) =
      .error (.refused why)) (detail : why.detail? = some message) :
    ∃ h' : Host, askId txn entity candidate h = (.ok 0, h') ∧
      h.Made [.idForPut txn entity candidate] h' ∧
      h'.machine.engine = h.machine.engine ∧
      (h'.machine.slot callerThread).last = some ⟨why.status, message⟩ := by
  obtain ⟨h', ran, ⟨plain', calls⟩, same, recorded⟩ := askId_run plain refused detail
  exact ⟨h', ran, ⟨plain', calls, by rw [same, Engine.after_unserved refused]⟩, same, recorded⟩

theorem allocateOne_served (plain : h.faults = []) {id : ObjectId} {e : Engine}
    (done : h.machine.engine.perform callerThread (.idForPut txn entity candidate) = .ok (id, e)) :
    ∃ h', allocateOne txn entity candidate h = (.ok id, h') ∧
      h.Made [.idForPut txn entity candidate] h' := by
  rcases HostM.perform_performed plain (.idForPut txn entity candidate) with
    ⟨reply, h', ran, ended⟩ | ⟨waits, -⟩
  case inr => cases waits.symm.trans done
  cases ended with
  | refused made refusal => cases refusal.symm.trans done
  | served made done' =>
      cases done.symm.trans done'
      have asked : askId txn entity candidate h = (.ok id, h') := HostM.bind_run ran
      refine ⟨h', ?_, made⟩
      rw [allocateOne, HostM.bind_run asked, if_pos (Engine.idForPut_ne_zero done)]
      rfl

/-- An id that is refused is refused twice, and the error is about the second time. -/
theorem allocateOne_reports : Reports extra (allocateOne txn entity candidate) := by
  intro (h : Host) (plain : h.faults = [])
  change Accounted extra h (allocateOne txn entity candidate h).1
    (allocateOne txn entity candidate h).2
  cases ended : h.machine.engine.perform callerThread (.idForPut txn entity candidate) with
  | ok done =>
      obtain ⟨h', ran, made⟩ := allocateOne_served plain ended
      rw [ran]
      exact ⟨_, made, fun _ _ _ failed => by cases failed⟩
  | error halt =>
      obtain ⟨why, rfl, told⟩ := Engine.idForPut_tells _ ended
      obtain ⟨message, detail⟩ := Refusal.detail_of_ne_missing told
      obtain ⟨h₁, first, made₁, same₁, -⟩ := askId_made plain ended detail
      have pinned := Host.Made.slot made₁.plain ErrorSlot.pin
      obtain ⟨h₂, second, made₂, -, recorded⟩ :=
        askId_made pinned.plain (same₁ ▸ ended) detail
      have unpinned := Host.Made.slot made₂.plain fun slot => slot.clear.unpin
      have made := made₁.append (pinned.append (made₂.append unpinned))
      rw [allocateOne_run first second recorded]
      refine ⟨_, made, fun operation status message' failed => ?_⟩
      cases failed
      exact .twice ended (.inl detail)

theorem allocateBlock_reports {count : Nat} : Reports extra (allocateBlock txn entity count) := by
  unfold allocateBlock
  split
  · exact .pure
  · exact HostM.request_reports rfl rfl

end Store

end ObjectStore
