import ObjectStore.Proofs.Engine.Steps

/-! # Runs of an engine

A run is a list of calls by any threads; of those that have to wait nothing is left in it. Two
invariants hold along every run: at most one write transaction is open, and only while the writer
slot is taken (`Engine.Exclusive`), and no id is stored that its sequence has not reached
(`Engine.Numbered`). Where nothing is defined on the way, the schema stays too.
-/

namespace ObjectStore

/-- A call that was taken, and how it ended. -/
structure Taken where
  thread : ThreadId
  call : Call
  result : Except Refusal call.Answer

namespace Machine

/-- Let threads make calls one after another. A call that would wait is not taken. -/
def run (m : Machine) : List (ThreadId × Call) → List Taken × Machine
  | [] => ([], m)
  | (thread, call) :: calls =>
    match m.step thread call with
    | some (result, m) => ((⟨thread, call, result⟩ :: (m.run calls).1), (m.run calls).2)
    | none => m.run calls

variable {m : Machine} {thread : ThreadId} {call : Call} {calls : List (ThreadId × Call)}

theorem step_eq_some {result : Except Refusal call.Answer} {m' : Machine}
    (taken : m.step thread call = some (result, m')) :
    (∃ answer, result = .ok answer ∧ m.engine.perform thread call = .ok (answer, m'.engine) ∧
        m'.slots = m.slots) ∨
      (∃ why, result = .error why ∧ m'.engine = m.engine) := by
  simp only [step] at taken
  split at taken
  · cases taken
    exact .inl ⟨_, rfl, ‹_›, rfl⟩
  · cases taken
    exact .inr ⟨_, rfl, rfl⟩
  · cases taken

theorem step_of_perform {e : Engine} {answer : call.Answer}
    (done : m.engine.perform thread call = .ok (answer, e)) :
    m.step thread call = some (.ok answer, { m with engine := e }) := by
  simp only [step, done]

theorem run_append {more : List (ThreadId × Call)} :
    m.run (calls ++ more) =
      ((m.run calls).1 ++ ((m.run calls).2.run more).1, ((m.run calls).2.run more).2) := by
  induction calls generalizing m with
  | nil => rfl
  | cons first calls ih =>
      obtain ⟨thread, call⟩ := first
      simp only [List.cons_append, run]
      split
      · rw [ih]
        rfl
      · exact ih

/-- What every served call of a kind keeps, a run of such calls keeps. -/
theorem run_keeps {P : Engine → Prop} {Q : Call → Prop}
    (kept : ∀ {e e' : Engine} {thread : ThreadId} {served : Served}, P e → Q served.call →
      e.perform thread served.call = .ok (served.answer, e') → P e')
    (holds : P m.engine) (allowed : ∀ c ∈ calls, Q c.2) : P (m.run calls).2.engine := by
  induction calls generalizing m with
  | nil => exact holds
  | cons first calls ih =>
      obtain ⟨thread, call⟩ := first
      have allowedLater : ∀ c ∈ calls, Q c.2 :=
        fun c member => allowed c (List.mem_cons_of_mem _ member)
      simp only [run]
      split
      · rename_i result m' taken
        refine ih ?_ allowedLater
        rcases step_eq_some taken with ⟨answer, -, done, -⟩ | ⟨why, -, same⟩
        · exact @kept _ _ _ ⟨call, answer⟩ holds (allowed _ List.mem_cons_self) done
        · rw [same]
          exact holds
      · exact ih holds allowedLater

end Machine

namespace Engine

variable {e e' : Engine} {thread : ThreadId} {served : Served}

/-- At most one write transaction is open, and only while the writer slot is taken. -/
structure Exclusive (e : Engine) : Prop where
  below {txn : Handle} {t : OpenTxn} : e.txns[txn]? = some t → txn < e.nextHandle
  taken {txn : Handle} {s : Snapshot} : e.txns[txn]? = some ⟨.write, s⟩ → e.writer ≠ none
  single {txn txn' : Handle} {s s' : Snapshot} : e.txns[txn]? = some ⟨.write, s⟩ →
    e.txns[txn']? = some ⟨.write, s'⟩ → txn = txn'

/-- Every id stored in a snapshot is nonzero and at most the sequence of its entity type. -/
def Reaches (e : Engine) (s : Snapshot) : Prop :=
  ∀ entity id, s.contains entity id = true → id ≠ 0 ∧ id ≤ e.lastId entity

/-- No snapshot holds an id that its sequence has not reached. -/
structure Numbered (e : Engine) : Prop where
  committed : e.Reaches e.committed
  opened {txn : Handle} {t : OpenTxn} : e.txns[txn]? = some t → e.Reaches t.state

theorem Exclusive.recount {sequences : Std.ExtTreeMap EntityId ObjectId} {writes : Nat}
    (h : e.Exclusive) : (e.recount sequences writes).Exclusive :=
  ⟨h.below, h.taken, h.single⟩

theorem Exclusive.erase {txn : Handle} {s : Snapshot} (h : e.Exclusive)
    (found : e.txns[txn]? = some ⟨.write, s⟩) {txn' : Handle} {s' : Snapshot} :
    (e.txns.erase txn)[txn']? ≠ some ⟨.write, s'⟩ := by
  intro left
  rw [Std.ExtTreeMap.getElem?_erase] at left
  split at left
  · cases left
  · rename_i other
    exact other (Std.compare_eq_iff_eq.mpr (h.single found left))

theorem Exclusive.began {mode : TxnMode} (h : e.Exclusive)
    (free : mode = .write → e.writer = none) :
    Exclusive { e with
      txns := e.txns.insert e.nextHandle ⟨mode, e.committed⟩
      nextHandle := e.nextHandle + 1
      writer := if mode = .write then some thread else e.writer } := by
  refine ⟨?_, ?_, ?_⟩
  · intro txn t found
    have := @h.below txn t
    grind
  · intro txn s found
    have := @h.taken txn s
    grind
  · intro txn txn' s s' found found'
    have := @h.single txn txn' s s'
    have := @h.taken txn s
    have := @h.taken txn' s'
    grind

theorem Exclusive.closed {txn : Handle} (h : e.Exclusive) :
    Exclusive { e with txns := e.txns.erase txn } := by
  refine ⟨?_, ?_, ?_⟩
  · intro txn' t left
    have := @h.below txn' t
    grind
  · intro txn' s left
    have := @h.taken txn' s
    grind
  · intro txn' txn'' s s' left left'
    have := @h.single txn' txn'' s s'
    grind

/-- A write keeps the transaction it is made in a write transaction, and the only one. -/
theorem Exclusive.wroteIn {txn : Handle} {s s' : Snapshot} (h : e.Exclusive)
    (found : e.txns[txn]? = some ⟨.write, s⟩) :
    Exclusive { e with txns := e.txns.insert txn ⟨.write, s'⟩ } := by
  refine ⟨?_, ?_, ?_⟩
  · intro txn' t left
    have := h.below found
    have := @h.below txn' t
    grind
  · intro txn' s left
    exact h.taken found
  · intro txn₁ txn₂ s₁ s₂ left left'
    have own : ∀ {txn' s''}, (e.txns.insert txn ⟨.write, s'⟩)[txn']? = some ⟨.write, s''⟩ →
        txn' = txn := by
      intro txn' s'' left
      have := @h.single txn' txn s'' s
      grind
    rw [own left, own left']

theorem Exclusive.moved (h : e.Exclusive) (quiet : served.call.defines = false)
    (moved : e.Moved thread served e') : e'.Exclusive := by
  cases moved with
  | defined defines => simp [quiet] at defines
  | read plays => exact h
  | numbered plays grows => exact ⟨h.below, h.taken, h.single⟩
  | began plays free => exact h.began free
  | committed plays found | aborted plays found =>
      refine ⟨?_, fun left => absurd left (h.erase found), fun left => absurd left (h.erase found)⟩
      intro txn' t left
      have := @h.below txn' t
      grind
  | closed plays found => exact h.closed
  | wrote plays wrote turns covers grows =>
      apply Exclusive.recount
      cases wrote with
      | alone free => exact ⟨h.below, h.taken, h.single⟩
      | inTxn found => exact h.wroteIn found

theorem Reaches.mono {s : Snapshot} (h : e.Reaches s)
    (grows : ∀ entity, e.lastId entity ≤ e'.lastId entity) : e'.Reaches s := by
  intro entity id held
  obtain ⟨nonzero, bound⟩ := h entity id held
  exact ⟨nonzero, Std.le_trans bound (grows entity)⟩

theorem Numbered.mono (h : e.Numbered) (same : e'.committed = e.committed)
    (txns : e'.txns = e.txns) (grows : ∀ entity, e.lastId entity ≤ e'.lastId entity) :
    e'.Numbered := by
  refine ⟨?_, fun {txn t} found => ?_⟩
  · rw [same]
    exact h.committed.mono grows
  · rw [txns] at found
    exact (h.opened found).mono grows

theorem Numbered.view {txn : Option Handle} {s : Snapshot} (h : e.Numbered)
    (view : e.view txn = .ok s) : e.Reaches s := by
  have seen := view_eq_ok.mp view
  cases txn with
  | none => exact seen ▸ h.committed
  | some txn =>
      obtain ⟨mode, found⟩ := seen
      exact h.opened found

theorem Numbered.moved (h : e.Numbered) (quiet : served.call.defines = false)
    (moved : e.Moved thread served e') : e'.Numbered := by
  cases moved with
  | defined defines => simp [quiet] at defines
  | read plays => exact h
  | numbered plays grows => exact h.mono rfl rfl fun _ => lastId_le_setLastId grows
  | began plays free =>
      refine ⟨h.committed, ?_⟩
      intro txn t found
      rw [Std.ExtTreeMap.getElem?_insert] at found
      split at found
      · cases found
        exact h.committed
      · exact h.opened found
  | committed plays found =>
      refine ⟨h.opened found, ?_⟩
      intro txn' t left
      refine h.opened (?_ : e.txns[txn']? = some t)
      grind
  | aborted plays found | closed plays found =>
      refine ⟨h.committed, ?_⟩
      intro txn' t left
      refine h.opened (?_ : e.txns[txn']? = some t)
      grind
  | @wrote _ _ s s' e₁ sequences writes plays wrote turns covers grows =>
      have reached : e.Reaches s → (e₁.recount sequences writes).Reaches s' := by
        intro before entity id held
        cases covers entity id held with
        | inl old => exact before.mono grows entity id old
        | inr new => exact new
      cases wrote with
      | alone free => exact ⟨reached h.committed, fun found => (h.opened found).mono grows⟩
      | inTxn found =>
          refine ⟨h.committed.mono grows, ?_⟩
          intro txn' t left
          rw [recount, Std.ExtTreeMap.getElem?_insert] at left
          split at left
          · cases left
            exact reached (h.opened found)
          · exact (h.opened left).mono grows

theorem lastId_le_of_moved {entity : EntityId} (quiet : served.call.defines = false)
    (moved : e.Moved thread served e') : e.lastId entity ≤ e'.lastId entity := by
  cases moved with
  | defined defines => simp [quiet] at defines
  | numbered plays grows => exact lastId_le_setLastId grows
  | wrote plays wrote turns covers grows => exact grows entity
  | _ => exact Std.le_refl _

theorem SameSchema.moved {d : Engine} (h : d.SameSchema e) (quiet : served.call.defines = false)
    (moved : e.Moved thread served e') : d.SameSchema e' := by
  cases moved with
  | defined defines => simp [quiet] at defines
  | wrote plays wrote turns covers grows =>
      cases wrote <;> exact ⟨h.arrays, h.entities, h.relations⟩
  | _ => exact ⟨h.arrays, h.entities, h.relations⟩

theorem arrays_of_perform {call : Call} {answer : call.Answer} (quiet : call.defines = false)
    (done : e.perform thread call = .ok (answer, e')) : e'.arrays = e.arrays := by
  have moved : e.Moved thread ⟨call, answer⟩ e' := moved_of_perform done
  have same : e.SameSchema e := ⟨rfl, rfl, rfl⟩
  exact (same.moved quiet moved).arrays

/-! ## Whatever is called -/

theorem Exclusive.perform (h : e.Exclusive)
    (done : e.perform thread served.call = .ok (served.answer, e')) : e'.Exclusive := by
  cases quiet : served.call.defines with
  | false => exact h.moved quiet (moved_of_perform done)
  | true =>
      obtain ⟨entities, relations, rfl⟩ := eq_of_defines quiet done
      exact ⟨h.below, h.taken, h.single⟩

theorem Numbered.perform (h : e.Numbered)
    (done : e.perform thread served.call = .ok (served.answer, e')) : e'.Numbered := by
  cases quiet : served.call.defines with
  | false => exact h.moved quiet (moved_of_perform done)
  | true =>
      obtain ⟨entities, relations, rfl⟩ := eq_of_defines quiet done
      exact ⟨h.committed, h.opened⟩

theorem lastId_le_of_perform {entity : EntityId}
    (done : e.perform thread served.call = .ok (served.answer, e')) :
    e.lastId entity ≤ e'.lastId entity := by
  cases quiet : served.call.defines with
  | false => exact lastId_le_of_moved quiet (moved_of_perform done)
  | true =>
      obtain ⟨entities, relations, rfl⟩ := eq_of_defines quiet done
      exact Std.le_refl _

/-- Engines that any calls of any threads make of a new one. -/
inductive Arises (arrays : Bool) : Engine → Prop where
  | fresh : Arises arrays { arrays }
  | served {e e' : Engine} {thread : ThreadId} {served : Served} : Arises arrays e →
      e.perform thread served.call = .ok (served.answer, e') → Arises arrays e'

variable {arrays : Bool}

theorem Arises.exclusive (h : e.Arises arrays) : e.Exclusive := by
  induction h with
  | fresh => refine ⟨?_, ?_, ?_⟩ <;> simp
  | served _ done ih => exact ih.perform done

theorem Arises.numbered (h : e.Arises arrays) : e.Numbered := by
  induction h with
  | fresh => refine ⟨?_, ?_⟩ <;> simp [Reaches, Snapshot.contains, Snapshot.table]
  | served _ done ih => exact ih.perform done

end Engine

theorem Machine.arises_run {m : Machine} {arrays : Bool} {calls : List (ThreadId × Call)}
    (h : m.engine.Arises arrays) : (m.run calls).2.engine.Arises arrays :=
  run_keeps (Q := fun _ => True) (fun held _ done => .served held done) h fun _ _ => trivial

end ObjectStore
