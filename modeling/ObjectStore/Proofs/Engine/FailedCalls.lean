import ObjectStore.Proofs.Engine.InPlace
import ObjectStore.Proofs.Store.Allocation

/-! # Calls that fail

A machine whose calls are made in place: a thread works on the engine that all of them share, and on
its own slot. Its steps are those of `Machine.step`. So whatever a call fails of, and wherever on its
way, it leaves the engine as it was, and tells why in the slot of its thread; only of a missing
object it does not tell. A call that is served leaves the slots alone.
-/

namespace ObjectStore

namespace Refusal

variable {why : Refusal}

theorem status_ne_ok : why.status ≠ .ok := by
  cases why <;> simp [status]

theorem status_eq_notFound : why.status = .notFound ↔ why = .missing := by
  cases why <;> simp [status]

theorem recordIn_eq {slot : ErrorSlot} (told : why ≠ .missing) :
    ∃ message, why.recordIn slot = slot.record why.status message := by
  cases why with
  | missing => exact absurd rfl told
  | _ => exact ⟨_, rfl⟩

end Refusal

namespace Engine

variable {e : Engine} {txn : Option Handle}

/-- If it fails, it is refused, and not for want of an object. -/
def Tells {α : Type} (x : Except Halt α) : Prop :=
  ∀ halt, x = .error halt → ∃ why, halt = .refused why ∧ why ≠ .missing

theorem tells_ok {α : Type} {a : α} : Tells (.ok a : Except Halt α) :=
  fun _ failed => by cases failed

theorem tells_refuse {α : Type} {why : Refusal} (told : why ≠ .missing) :
    Tells (refuse why : Except Halt α) := by
  rintro _ ⟨⟩
  exact ⟨why, rfl, told⟩

theorem Tells.bind {α β : Type} {x : Except Halt α} {f : α → Except Halt β} (first : Tells x)
    (next : ∀ a, Tells (f a)) : Tells (x >>= f) := by
  cases x with
  | error halt =>
      rintro _ ⟨⟩
      exact first halt rfl
  | ok a => exact next a

theorem Tells.ite {α : Type} {c : Prop} [Decidable c] {x x' : Except Halt α} (yes : Tells x)
    (no : Tells x') : Tells (if c then x else x') := by
  split
  · exact yes
  · exact no

theorem openTxn_tells {txn : Handle} : Tells (e.openTxn txn) := by
  unfold openTxn
  split
  · exact tells_ok
  · exact tells_refuse (by simp)

theorem idForPut_tells {entity : EntityId} {candidate : ObjectId} :
    Tells (e.idForPut txn entity candidate) := by
  have writable : Tells (e.requireWritable txn) := by
    cases txn with
    | none => exact tells_ok
    | some txn =>
        refine .bind (.bind openTxn_tells fun t => ?_) fun _ => tells_ok
        cases t.mode with
        | read => exact tells_refuse (by simp)
        | write => exact tells_ok
  refine .bind (.ite tells_ok (tells_refuse (by simp))) fun _ => .bind writable fun _ => ?_
  exact .ite (.ite (tells_refuse (by simp)) tells_ok) tells_ok

end Engine

namespace Machine

variable {m m' : Machine} {thread other : ThreadId} {call : Call}

/-- Let a thread make a call in place: what it is told, and the machine afterwards. -/
def act (m : Machine) (thread : ThreadId) (call : Call) : Except Stop call.Answer × Machine :=
  let (r, engine, slot) := (InPlace.perform thread call).run (m.engine, m.slot thread)
  (r, { engine, slots := m.slots.insert thread slot })

/-- A call failed: with a status or, if it was to hand out an id, with the id 0. -/
def Fails : (call : Call) → Except Stop call.Answer → Prop
  | .idForPut .., .ok id => id = 0
  | _, .error (.failed _) => True
  | _, _ => False

/-- The same engine and the same slots. -/
structure Same (m m' : Machine) : Prop where
  engine : m'.engine = m.engine
  slots (thread : ThreadId) : m'.slot thread = m.slot thread

/-- What a call was told that was made in place, and what it left. -/
structure Acted (m : Machine) (thread : ThreadId) (call : Call) (r : Except Stop call.Answer)
    (m' : Machine) : Prop where
  /-- The call ends as a step of the machine, and leaves the same. One that waits leaves nothing. -/
  step : match m.step thread call with
    | some (.ok answer, m₁) => r = .ok answer ∧ m₁.Same m'
    | some (.error why, m₁) => r = InPlace.told call (.error (.failed why.status)) ∧ m₁.Same m'
    | none => r = .error .waits ∧ m.Same m'
  /-- If it fails, the definitions, the committed state, the open transactions, the sequences, the
  writer slot and the count of link writes are as they were. -/
  unchanged : Fails call r → m'.engine = m.engine
  /-- A status it fails with is in the slot of its thread, unless it is that of a missing object. -/
  tells {status : Status} : r = .error (.failed status) → status ≠ .ok ∧
    if status = .notFound then m'.slot thread = m.slot thread
    else ∃ message, m'.slot thread = (m.slot thread).record status message
  /-- Why an id is 0 is told too. -/
  tellsId {answer : call.Answer} : r = .ok answer → Fails call r → ∃ status message,
    status ≠ .ok ∧ status ≠ .notFound ∧ m'.slot thread = (m.slot thread).record status message
  /-- If it is served, its thread's slot is as it was. -/
  served {answer : call.Answer} : r = .ok answer → ¬ Fails call r → m'.slot thread = m.slot thread
  others {other : ThreadId} : other ≠ thread → m'.slot other = m.slot other

/-! ## How a call ends -/

theorem slot_insert {slots : Std.ExtTreeMap ThreadId ErrorSlot} {e : Engine}
    {own : ErrorSlot} :
    (Machine.mk e (slots.insert thread own)).slot other =
      if thread = other then own else slots.getD other {} := by
  rw [slot, Std.ExtTreeMap.getD_insert]
  simp only [Std.compare_eq_iff_eq]

theorem slot_insert_self {e : Engine} :
    (Machine.mk e (m.slots.insert thread (m.slot thread))).slot other = m.slot other := by
  rw [slot_insert]
  split
  · subst other
    rfl
  · rfl

/-- A call in place comes to what it comes to on an engine that is thrown away if it fails. -/
theorem act_eq : m.act thread call =
    let (r, engine, slot) := InPlace.settled m.engine (m.slot thread)
      (m.engine.perform thread call)
    (InPlace.told call r, { engine, slots := m.slots.insert thread slot }) := by
  rw [act, InPlace.perform_run]

theorem not_fails {e : Engine} {answer : call.Answer}
    (done : m.engine.perform thread call = .ok (answer, e)) : ¬ Fails call (.ok answer) := by
  cases call with
  | idForPut => exact Engine.idForPut_ne_zero done
  | _ => exact id

theorem told_waits (waits : m.engine.perform thread call = .error .waits) :
    InPlace.told call (.error .waits) = .error .waits := by
  cases call with
  | idForPut =>
      obtain ⟨why, refused, -⟩ := Engine.idForPut_tells _ waits
      cases refused
  | _ => rfl

theorem told_refused {why : Refusal}
    (refused : m.engine.perform thread call = .error (.refused why)) :
    InPlace.told call (.error (.failed why.status)) = .error (.failed why.status) ∨
      why ≠ .missing ∧ ∃ answer, InPlace.told call (.error (.failed why.status)) = .ok answer ∧
        Fails call (.ok answer) := by
  cases call with
  | idForPut =>
      obtain ⟨_, ⟨⟩, told⟩ := Engine.idForPut_tells _ refused
      exact .inr ⟨told, 0, rfl, rfl⟩
  | _ => exact .inl rfl

theorem acted_of_served {e : Engine} {answer : call.Answer}
    (done : m.engine.perform thread call = .ok (answer, e)) : Acted m thread call (.ok answer)
      { engine := e, slots := m.slots.insert thread (m.slot thread) } where
  step := by
    rw [step_of_perform done]
    exact ⟨rfl, rfl, fun _ => slot_insert_self⟩
  unchanged failed := absurd failed (not_fails done)
  tells failed := by cases failed
  tellsId answered failed := by
    cases answered
    exact absurd failed (not_fails done)
  served _ _ := slot_insert_self
  others _ := slot_insert_self

theorem acted_of_waits (waits : m.engine.perform thread call = .error .waits) :
    Acted m thread call (.error .waits)
      { engine := m.engine, slots := m.slots.insert thread (m.slot thread) } where
  step := by
    simp only [step, waits]
    exact ⟨trivial, rfl, fun _ => slot_insert_self⟩
  unchanged _ := rfl
  tells failed := by cases failed
  tellsId answered := by cases answered
  served answered := by cases answered
  others _ := slot_insert_self

theorem acted_of_refused {why : Refusal}
    (refused : m.engine.perform thread call = .error (.refused why)) :
    Acted m thread call (InPlace.told call (.error (.failed why.status)))
      { engine := m.engine, slots := m.slots.insert thread (why.recordIn (m.slot thread)) } where
  step := by
    simp only [step, refused]
    exact ⟨trivial, rfl, fun _ => rfl⟩
  unchanged _ := rfl
  tells failed := by
    rcases told_refused refused with told | ⟨-, answer, told, -⟩
    · rw [told] at failed
      cases failed
      refine ⟨Refusal.status_ne_ok, ?_⟩
      rw [slot_insert, if_pos rfl]
      split
      case isTrue missing =>
        obtain rfl := Refusal.status_eq_notFound.mp missing
        rfl
      case isFalse other =>
        exact Refusal.recordIn_eq fun missing => other (Refusal.status_eq_notFound.mpr missing)
    · rw [told] at failed
      cases failed
  tellsId answered failed := by
    rcases told_refused refused with told | ⟨told, -⟩
    · rw [told] at answered
      cases answered
    · obtain ⟨message, recorded⟩ := @Refusal.recordIn_eq why (m.slot thread) told
      refine ⟨why.status, message, Refusal.status_ne_ok, ?_, ?_⟩
      · rwa [ne_eq, Refusal.status_eq_notFound]
      · rw [slot_insert, if_pos rfl, recorded]
  served answered served := by
    rcases told_refused refused with told | ⟨-, answer, told, failed⟩
    · rw [told] at answered
      cases answered
    · rw [told] at answered served
      exact absurd failed served
  others apart := by
    rw [slot_insert, if_neg apart.symm]
    rfl

/-- Whatever call a thread makes, if it fails, it changes nothing but the slot of its thread, and
the slot tells why. -/
theorem failed_call_only_tells (m : Machine) (thread : ThreadId) (call : Call) :
    Acted m thread call (m.act thread call).1 (m.act thread call).2 := by
  rw [act_eq]
  cases ended : m.engine.perform thread call with
  | ok done =>
      have told : InPlace.told call (.ok done.1) = .ok done.1 := by cases call <;> rfl
      simp only [InPlace.settled, told]
      exact acted_of_served ended
  | error halt =>
      cases halt with
      | waits =>
          simp only [InPlace.settled, told_waits ended]
          exact acted_of_waits ended
      | refused why => exact acted_of_refused ended

/-! ## Calls that hand out no id -/

section Ended

variable {α : Type}

/-- What a call comes to on the machine that comes to `outcome` on the engine. -/
def ended (m : Machine) (thread : ThreadId) (outcome : Except Halt (α × Engine)) :
    Except Stop α × Machine :=
  let (r, engine, slot) := InPlace.settled m.engine (m.slot thread) outcome
  (r, { engine, slots := m.slots.insert thread slot })

theorem act_eq_ended (plain : ∀ r, InPlace.told call r = r) :
    m.act thread call = m.ended thread (m.engine.perform thread call) := by
  rw [act_eq, ended]
  exact Prod.ext (plain _) rfl

theorem slot_ended_ok {a : α} {e : Engine} :
    (m.ended thread (.ok (a, e))).2.slot other = m.slot other :=
  slot_insert_self

theorem slot_ended_missing :
    (m.ended thread (.error (.refused .missing) : Except Halt (α × Engine))).2.slot other =
      m.slot other :=
  slot_insert_self

theorem slot_ended_congr {outcome : Except Halt (α × Engine)}
    (same : ∀ other, m'.slot other = m.slot other) :
    (m'.ended thread outcome).2.slot other = (m.ended thread outcome).2.slot other := by
  have slots := same other
  rcases outcome with (why | -) | ⟨a, e⟩ <;>
    simp only [ended, InPlace.settled, slot_insert, same] <;> exact congrArg (ite _ _) slots

end Ended

end Machine

end ObjectStore
