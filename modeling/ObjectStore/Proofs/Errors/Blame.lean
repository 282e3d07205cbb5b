import ObjectStore.Proofs.Engine.Halted
import ObjectStore.Proofs.Store.Alike

/-! # Which call an error is about

A store fetches what it says of a failed engine call from a slot after the fact, and aborts the
transaction of a failed program only then. So it has to be made sure that the error it ends in is
about the call that failed, and neither about an earlier one, whose detail may still be in the slot,
nor about an abort.

`Reports p` says so of a program. It goes by the calls the program makes: they are kept by the host,
and those before a call decide what the engine makes of it. If the program fails with an engine
error, then the last call it made, but for aborts, was refused, and the error has the status and the
detail of this very refusal. It is put together along the binds of a program. A program that comes
to a call which waits does not fail.
-/

namespace ObjectStore

namespace Host

variable {h h' h'' : Host} {made later : List Call}

/-- What is left of a host by calls of the caller, and by what is done about its error slot. -/
structure Made (h : Host) (made : List Call) (h' : Host) : Prop where
  plain : h'.faults = []
  calls : h'.calls = made.reverse ++ h.calls
  engine : h'.machine.engine = h.machine.engine.after made

theorem Made.nil (plain : h.faults = []) : h.Made [] h :=
  ⟨plain, rfl, rfl⟩

theorem Made.append (first : h.Made made h') (rest : h'.Made later h'') :
    h.Made (made ++ later) h'' := by
  refine ⟨rest.plain, ?_, ?_⟩
  · rw [rest.calls, first.calls, List.reverse_append, List.append_assoc]
  · rw [rest.engine, first.engine, Engine.after_append]

end Host

/-! ## The call an error is about -/

/-- An error is about the last call that was made, but for aborts: the engine refused this call, and
the error has its name, the status of the refusal and the detail that the refusal left, or what
`extra` has for a message. An id was refused the same way once before. -/
inductive Reported (extra : Call → Refusal → String → Prop) (e : Engine) :
    List Call → String → Status → String → Prop where
  | refused {before aborts : List Call} {call : Call} {why : Refusal} {message : String}
      (refusal : (e.after before).perform callerThread call = .error (.refused why))
      (told : why.detail? = some message ∨ extra call why message)
      (retried : Host.isIdForPut call = true → ∃ earlier, before = earlier ++ [call] ∧
        (e.after earlier).perform callerThread call = .error (.refused why))
      (dropped : ∀ later ∈ aborts, ∃ txn, later = .abort txn) :
      Reported extra e (before ++ call :: aborts) call.name why.status message

section Calls

variable {extra : Call → Refusal → String → Prop} {e : Engine} {calls made : List Call}
  {call : Call} {why : Refusal} {operation message : String} {status : Status} {txn : Handle}

theorem Reported.once (id : Host.isIdForPut call = false)
    (refusal : e.perform callerThread call = .error (.refused why))
    (told : why.detail? = some message ∨ extra call why message) :
    Reported extra e [call] call.name why.status message :=
  @Reported.refused extra e [] [] call why message refusal told (by simp [id]) (by simp)

theorem Reported.twice (refusal : e.perform callerThread call = .error (.refused why))
    (told : why.detail? = some message ∨ extra call why message) :
    Reported extra e [call, call] call.name why.status message :=
  @Reported.refused extra e [call] [] call why message (by rwa [Engine.after_unserved refusal]) told
    (fun _ => ⟨[], rfl, refusal⟩) (by simp)

theorem Reported.prepend (h : Reported extra (e.after calls) made operation status message) :
    Reported extra e (calls ++ made) operation status message := by
  cases h with
  | refused refusal told retried dropped =>
      rw [← List.append_assoc]
      refine .refused (by rwa [Engine.after_append]) told (fun id => ?_) dropped
      obtain ⟨earlier, rfl, refusal'⟩ := retried id
      exact ⟨calls ++ earlier, (List.append_assoc ..).symm, by rwa [Engine.after_append]⟩

theorem Reported.abort (h : Reported extra e made operation status message) :
    Reported extra e (made ++ [.abort txn]) operation status message := by
  cases h with
  | refused refusal told retried dropped =>
      rw [List.append_assoc, List.cons_append]
      refine .refused refusal told retried fun later member => ?_
      rcases List.mem_append.mp member with member | member
      · exact dropped later member
      · exact ⟨txn, List.mem_singleton.mp member⟩

end Calls

/-- A program ended on a host as `r` says, and left another. If it ended with an engine error, then
that is about a call of the program. -/
def Accounted {α : Type} (extra : Call → Refusal → String → Prop) (h : Host)
    (r : Except StoreError α) (h' : Host) : Prop :=
  ∃ made, h.Made made h' ∧ ∀ operation status message,
    r = .error (.engine operation status message) →
      Reported extra h.machine.engine made operation status message

namespace Accounted

variable {extra : Call → Refusal → String → Prop} {α β : Type} {h h₁ h' : Host}
  {r : Except StoreError α} {made : List Call} {why : StoreError}

theorem ok {a : α} (plain : h.faults = []) : Accounted extra h (.ok a) h :=
  ⟨[], .nil plain, fun _ _ _ ended => by cases ended⟩

theorem plain (account : Accounted extra h r h') : h'.faults = [] := by
  obtain ⟨made, after, -⟩ := account
  exact after.plain

theorem error (account : Accounted extra h (.error why : Except StoreError α) h') :
    Accounted extra h (.error why : Except StoreError β) h' := by
  obtain ⟨made, after, about⟩ := account
  exact ⟨made, after, fun operation status message ended =>
    about operation status message (congrArg Except.error (Except.error.inj ended))⟩

theorem next (first : h.Made made h₁) (rest : Accounted extra h₁ r h') :
    Accounted extra h r h' := by
  obtain ⟨later, after, about⟩ := rest
  refine ⟨made ++ later, first.append after, fun operation status message ended => ?_⟩
  rw [first.engine] at about
  exact (about operation status message ended).prepend

theorem andThen {a : α} {r : Except StoreError β} (first : Accounted extra h (.ok a) h₁)
    (rest : Accounted extra h₁ r h') : Accounted extra h r h' := by
  obtain ⟨made, after, -⟩ := first
  exact rest.next after

end Accounted

/-! ## Programs -/

/-- A world with a host. -/
class Hosts (W : Type) where
  host : W → Host

instance : Hosts Host := ⟨id⟩

instance : Hosts Session := ⟨Session.host⟩

instance {σ : Type} : Hosts (σ × Session) := ⟨fun w => w.2.host⟩

section Reports

variable {extra : Call → Refusal → String → Prop} {m : Type → Type} [Monad m] {W : Type}
  [Runs m W] [Hosts W] {α β : Type} {p : ExceptT StoreError m α}
  {f : α → ExceptT StoreError m β}

/-- If the program fails with an engine error, the error is about the call that failed. -/
def Reports (extra : Call → Refusal → String → Prop) (p : ExceptT StoreError m α) : Prop :=
  ∀ w : W, (Hosts.host w).faults = [] →
    Accounted extra (Hosts.host w) (Runs.run p.run w).1 (Hosts.host (Runs.run p.run w).2)

/-- An error that no engine call is to blame for. -/
def StoreError.Own (why : StoreError) : Prop :=
  ∀ operation status message, why ≠ .engine operation status message

namespace Reports

theorem pure {a : α} : Reports extra (Pure.pure a : ExceptT StoreError m α) := by
  intro w plain
  rw [show Runs.run (Pure.pure a : ExceptT StoreError m α).run w = (.ok a, w) from
    Runs.run_pure _ _]
  exact .ok plain

theorem throw {why : StoreError} (own : why.Own) :
    Reports extra (MonadExcept.throw why : ExceptT StoreError m α) := by
  intro w plain
  rw [show Runs.run (MonadExcept.throw why : ExceptT StoreError m α).run w = (.error why, w) from
    Runs.run_pure _ _]
  exact ⟨[], .nil plain, fun operation status message ended =>
    absurd (Except.error.inj ended) (own operation status message)⟩

/-- What is known of the answer may be used of what goes on with it. -/
theorem bind_of (first : Reports extra p) (rest : ∀ w a, (Hosts.host w).faults = [] →
    (Runs.run p.run w).1 = .ok a → Reports extra (f a)) : Reports extra (p >>= f) := by
  intro w plain
  have account := first w plain
  have rest := fun a => rest w a plain
  cases ran : Runs.run p.run w with
  | mk r w₁ =>
      rw [ran] at account rest
      cases r with
      | ok a =>
          rw [Alike.run_bind ran]
          exact account.andThen (rest a rfl w₁ account.plain)
      | error why =>
          rw [Alike.run_bind_error ran]
          exact account.error

theorem bind (first : Reports extra p) (rest : ∀ a, Reports extra (f a)) :
    Reports extra (p >>= f) :=
  first.bind_of fun _ a _ _ => rest a

theorem forM {list : List β} {step : β → ExceptT StoreError m Unit}
    (each : ∀ b, Reports extra (step b)) : Reports extra (list.forM step) := by
  induction list with
  | nil => exact .pure
  | cons b list ih => exact (each b).bind fun _ => ih

theorem mapM [LawfulMonad m] {γ : Type} {list : List γ} {step : γ → ExceptT StoreError m β}
    (each : ∀ c, Reports extra (step c)) : Reports extra (list.mapM step) := by
  induction list with
  | nil => exact .pure
  | cons c list ih =>
      rw [List.mapM_cons]
      exact (each c).bind fun _ => ih.bind fun _ => .pure

end Reports

end Reports

section Lifts

variable {extra : Call → Refusal → String → Prop} {α σ : Type}

theorem Reports.ofHost {program : HostM α} (h : Reports extra program) :
    Reports extra (StoreM.ofHost program) :=
  fun s plain => h s.host plain

theorem Reports.ofStore {program : StoreM α} (h : Reports extra program) :
    Reports extra (Editing.ofStore program : Editing σ α) :=
  fun w plain => h w.2 plain

end Lifts

end ObjectStore
