import ObjectStore.Proofs.Engine.OpenTransaction
import ObjectStore.Proofs.Engine.FailedCalls

/-! # Why a call is not served

The engine refuses a call with a detail, unless what is missing is the very object that the call is
for, and it lets a call wait for the writer slot only while another thread has that
(`Engine.halted_of_perform`).
-/

namespace ObjectStore

theorem Refusal.detail_of_ne_missing {why : Refusal} (told : why ≠ .missing) :
    ∃ message, why.detail? = some message := by
  cases why with
  | missing => exact absurd rfl told
  | _ => exact ⟨_, rfl⟩

/-- Whether a call is for a single object, which has to be there. -/
def Call.needsObject : Call → Bool
  | get .. | remove .. => true
  | _ => false

namespace Engine

variable {e e' : Engine} {thread : ThreadId} {call : Call} {misses : Prop}

/-- A reason not to serve a thread: a refusal with a detail, or without one where something may be
missing, or another thread that has the writer slot. -/
def Halted (e : Engine) (thread : ThreadId) (misses : Prop) : Halt → Prop
  | .refused why => why = .missing → misses
  | .waits => e.HeldByOther thread

/-- Part of a call is served, or there is a reason not to. -/
def Halting {α : Type} (e : Engine) (thread : ThreadId) (misses : Prop) (x : Except Halt α) :
    Prop :=
  ∀ halt, x = .error halt → e.Halted thread misses halt

namespace Halting

variable {α β : Type} {x x' : Except Halt α}

theorem ok {a : α} : e.Halting thread misses (.ok a : Except Halt α) :=
  fun _ failed => by cases failed

theorem refuse {why : Refusal} (told : why = .missing → misses) :
    e.Halting thread misses (refuse why : Except Halt α) := by
  rintro _ ⟨⟩
  exact told

theorem bind {f : α → Except Halt β} (first : e.Halting thread misses x)
    (next : ∀ a, e.Halting thread misses (f a)) : e.Halting thread misses (x >>= f) := by
  cases x with
  | ok a => exact next a
  | error halt =>
      rintro _ ⟨⟩
      exact first halt rfl

theorem map {f : α → β} (h : e.Halting thread misses x) : e.Halting thread misses (x.map f) := by
  cases x with
  | ok a => exact ok
  | error halt =>
      rintro _ ⟨⟩
      exact h halt rfl

theorem ite {c : Prop} [Decidable c] (yes : e.Halting thread misses x)
    (no : e.Halting thread misses x') : e.Halting thread misses (if c then x else x') := by
  split
  · exact yes
  · exact no

theorem requireEntity {entity : EntityId} : e.Halting thread misses (e.requireEntity entity) :=
  .ite .ok (.refuse (by simp))

theorem requireArrays {name : String} : e.Halting thread misses (e.requireArrays name) :=
  .ite .ok (.refuse (by simp))

theorem endpoints {relation : RelationId} : e.Halting thread misses (e.endpoints relation) := by
  unfold Engine.endpoints
  split
  · exact .ok
  · exact .refuse (by simp)

theorem openTxn {txn : Handle} : e.Halting thread misses (e.openTxn txn) := by
  unfold Engine.openTxn
  split
  · exact .ok
  · exact .refuse (by simp)

theorem writeTxn {txn : Handle} : e.Halting thread misses (e.writeTxn txn) := by
  refine .bind openTxn fun t => ?_
  cases t.mode with
  | read => exact .refuse (by simp)
  | write => exact .ok

theorem requireWritable {txn : Option Handle} :
    e.Halting thread misses (e.requireWritable txn) := by
  cases txn with
  | none => exact .ok
  | some txn => exact .bind writeTxn fun _ => .ok

theorem requireWriterFree : e.Halting thread misses (e.requireWriterFree thread) := by
  cases held : e.writer with
  | none =>
      simp only [Engine.requireWriterFree, held]
      exact .ok
  | some owner =>
      simp only [Engine.requireWriterFree, held]
      split
      · exact .refuse (by simp)
      · rintro _ ⟨⟩
        exact ⟨owner, ‹_›, held⟩

theorem view {txn : Option Handle} : e.Halting thread misses (e.view txn) := by
  cases txn with
  | none => exact .ok
  | some txn => exact .bind openTxn fun _ => .ok

/-- A write misses what its change of the snapshot misses. -/
theorem write {txn : Option Handle} {change : Snapshot → Except Refusal (α × Snapshot)}
    (changes : ∀ s, change s = .error .missing → misses) :
    e.Halting thread misses (e.write thread txn change) := by
  have told (s : Snapshot) : e.Halting thread misses ((change s).mapError .refused) := by
    cases changed : change s with
    | ok a => exact .ok
    | error why =>
        refine .refuse fun missing => changes s ?_
        rw [changed, missing]
  cases txn with
  | some txn => exact .bind writeTxn fun t => .bind (told _) fun _ => .ok
  | none => exact .bind requireWriterFree fun _ => .bind (told _) fun _ => .ok

theorem checkPut {mode : PutMode} {entity : EntityId} {id : ObjectId} {stored : Bool} :
    Snapshot.checkPut mode entity id stored ≠ .error .missing := by
  unfold Snapshot.checkPut
  split
  · simp
  · split <;> simp

theorem checkPutMany {s : Snapshot} {mode : PutMode} {entity : EntityId} {seen : IdSet}
    {ids : List ObjectId} : s.checkPutMany mode entity seen ids ≠ .error .missing := by
  induction ids generalizing seen with
  | nil => simp [Snapshot.checkPutMany]
  | cons id ids ih =>
      rw [Snapshot.checkPutMany]
      have first := @checkPut mode entity id (s.contains entity id || seen.contains id)
      cases checked : Snapshot.checkPut mode entity id (s.contains entity id || seen.contains id)
      case error why => rwa [checked] at first
      case ok => exact ih

/-- A write that only checks something first misses what the check misses. -/
theorem write_checked {txn : Option Handle} {check : Snapshot → Except Refusal Unit}
    {change : Snapshot → α × Snapshot} (checks : ∀ s, check s ≠ .error .missing) :
    e.Halting thread misses (e.write thread txn fun s => do check s; return change s) := by
  refine write fun s missing => absurd ?_ (checks s)
  cases checked : check s with
  | ok _ =>
      simp only [checked] at missing
      cases missing
  | error why =>
      simp only [checked] at missing
      exact congrArg Except.error (Except.error.inj missing)

end Halting

/-- A call that is not served is refused with a detail, misses the object it is for, or waits for
another thread. -/
theorem halted_of_perform {halt : Halt} (failed : e.perform thread call = .error halt) :
    e.Halted thread (call.needsObject = true) halt := by
  revert halt
  change e.Halting thread (call.needsObject = true) (e.perform thread call)
  cases call with
  | defineEntity => exact .ok
  | defineRelation =>
      exact .map (.bind .requireEntity fun _ => .bind .requireEntity fun _ => .ok)
  | begin mode =>
      cases mode with
      | read => exact .ok
      | write => exact .bind .requireWriterFree fun _ => .ok
  | commit | abort =>
      refine .map (.bind .openTxn fun t => ?_)
      cases t.mode <;> exact .ok
  | idForPut =>
      exact .bind .requireEntity fun _ => .bind .requireWritable fun _ =>
        .ite (.ite (.refuse (by simp)) .ok) .ok
  | idsForPut =>
      exact .ite (.refuse (by simp)) (.bind .requireEntity fun _ => .bind .requireWritable fun _ =>
        .ite .ok (.refuse (by simp)))
  | put =>
      exact .map (.bind .requireEntity fun _ =>
        .bind (.write_checked fun s => Halting.checkPut) fun _ => .ok)
  | putMany =>
      exact .map (.bind .requireArrays fun _ => .bind .requireEntity fun _ =>
        .ite (.bind (.write_checked fun s => Halting.checkPutMany) fun _ => .ok)
          (.refuse (by simp)))
  | get =>
      refine .map (.bind .requireEntity fun _ => .bind .view fun s => ?_)
      split
      · exact .ok
      · exact .refuse fun _ => rfl
  | remove =>
      exact .map (.bind .requireEntity fun _ => .bind (.write fun _ _ => rfl) fun _ => .ok)
  | getMany | getAll =>
      exact .map (.bind .requireArrays fun _ => .bind .requireEntity fun _ =>
        .bind .view fun _ => .ok)
  | visitMany | visitAll | count | isEmpty | contains | containsMany =>
      exact .map (.bind .requireEntity fun _ => .bind .view fun _ => .ok)
  | removeMany | removeAll =>
      exact .bind .requireEntity fun _ => .write fun s changed => by cases changed
  | relPut =>
      exact .map (.bind .endpoints fun _ => .ite (.refuse (by simp))
        (.bind (.write fun s changed => by cases changed) fun _ => .ok))
  | relRemove =>
      exact .map (.bind .endpoints fun _ =>
        .bind (.write fun s changed => by cases changed) fun _ => .ok)
  | relGetIds => exact .map (.bind .endpoints fun _ => .bind .view fun _ => .ok)

/-- An abort needs no writer slot. -/
theorem abort_ne_waits {txn : Handle} : e.perform thread (.abort txn) ≠ .error .waits := by
  cases found : e.txns[txn]? with
  | none =>
      simp [perform, changing, abort, openTxn, found, bind, Except.bind, Except.map, refuse]
  | some t =>
      cases mode : t.mode <;>
        simp [perform, changing, abort, openTxn, found, mode, bind, Except.bind, pure, Except.pure,
          Except.map]

/-! ## Calls in a row -/

/-- The engine after calls of the caller, one after another. -/
def after (e : Engine) (calls : List Call) : Engine :=
  calls.foldl (fun e call => match e.perform callerThread call with
    | .ok (_, e') => e'
    | .error _ => e) e

@[simp] theorem after_nil : e.after [] = e := rfl

theorem after_append {calls calls' : List Call} :
    e.after (calls ++ calls') = (e.after calls).after calls' :=
  List.foldl_append

theorem after_served {answer : call.Answer}
    (done : e.perform callerThread call = .ok (answer, e')) : e.after [call] = e' := by
  simp [after, done]

theorem after_unserved {halt : Halt} (failed : e.perform callerThread call = .error halt) :
    e.after [call] = e := by
  simp [after, failed]

end Engine

end ObjectStore
