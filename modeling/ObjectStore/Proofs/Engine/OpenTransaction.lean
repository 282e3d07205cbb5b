import ObjectStore.Proofs.Engine.OwnTransaction

/-! # What surrounds an open transaction

Calls made through a transaction reach nothing outside it. While they are made, the engine is the
one it was with that transaction at another snapshot (`Engine.InTxn`), whatever the sequences and
the count of link writes.
-/

namespace ObjectStore

/-- The transaction a call is made through. -/
def Call.through : Call → Option Handle
  | idForPut txn .. | idsForPut txn .. | put txn .. | putMany txn .. | get txn .. | getMany txn ..
  | getAll txn .. | visitMany txn .. | visitAll txn .. | remove txn .. | removeMany txn ..
  | removeAll txn .. | count txn .. | isEmpty txn .. | contains txn .. | containsMany txn ..
  | relPut txn .. | relRemove txn .. | relGetIds txn .. => txn
  | defineEntity .. | defineRelation .. | begin .. | commit .. | abort .. => none

/-- A call that neither defines anything nor begins or ends a transaction. -/
def Call.onData : Call → Bool
  | defineEntity .. | defineRelation .. | begin .. | commit .. | abort .. => false
  | _ => true

theorem Call.onData_of_through {call : Call} {txn : Handle} (through : call.through = some txn) :
    call.onData = true := by
  cases call <;> first | rfl | cases through

theorem Served.part_of_onData {served : Served} (data : served.call.onData = true) :
    served.call.defines = false ∧
      (served.part = .none ∨ ∃ write, served.part = .writes served.call.through write) := by
  obtain ⟨call, answer⟩ := served
  cases call with
  | defineEntity | defineRelation | begin | commit | abort => cases data
  | idForPut | idsForPut | get | getMany | getAll | visitMany | visitAll | count | isEmpty
  | contains | containsMany | relGetIds => exact ⟨rfl, .inl rfl⟩
  | put | putMany | remove | removeMany | removeAll | relPut | relRemove =>
      exact ⟨rfl, .inr ⟨_, rfl⟩⟩

namespace Engine

variable {base e e' : Engine} {handle : Handle} {mode : TxnMode} {s s' : Snapshot}
  {thread : ThreadId} {served : Served}

/-- The engine is `base` with an open transaction at `s`. -/
structure InTxn (base : Engine) (handle : Handle) (mode : TxnMode) (s : Snapshot) (e : Engine) :
    Prop where
  schema : base.SameSchema e
  committed : e.committed = base.committed
  txns : e.txns = base.txns.insert handle ⟨mode, s⟩
  nextHandle : e.nextHandle = base.nextHandle
  writer : e.writer = base.writer

namespace InTxn

theorem refl (found : base.txns[handle]? = some ⟨mode, s⟩) : base.InTxn handle mode s base := by
  refine ⟨⟨rfl, rfl, rfl⟩, rfl, ?_, rfl, rfl⟩
  ext txn : 1
  grind

theorem found (h : base.InTxn handle mode s e) : e.txns[handle]? = some ⟨mode, s⟩ := by
  rw [h.txns]
  exact Std.ExtTreeMap.getElem?_insert_self

theorem other (h : base.InTxn handle mode s e) {txn : Handle} (other : txn ≠ handle) :
    e.txns[txn]? = base.txns[txn]? := by
  rw [h.txns]
  grind

theorem known (h : base.InTxn handle mode s e) {entity : EntityId} :
    e.entities.contains entity = base.entities.contains entity := by
  rw [h.schema.entities]

theorem recount (h : base.InTxn handle mode s e) {writes : Nat}
    {sequences : Std.ExtTreeMap EntityId ObjectId} :
    base.InTxn handle mode s (e.recount sequences writes) :=
  ⟨⟨h.schema.arrays, h.schema.entities, h.schema.relations⟩, h.committed, h.txns, h.nextHandle,
    h.writer⟩

theorem setLastId (h : base.InTxn handle mode s e) {entity : EntityId} {id : ObjectId} :
    base.InTxn handle mode s (e.setLastId entity id) :=
  h.recount

theorem view (h : base.InTxn handle mode s e) : e.view (some handle) = .ok s :=
  view_eq_ok.mpr ⟨mode, h.found⟩

theorem writable (h : base.InTxn handle .write s e) : e.requireWritable (some handle) = .ok () := by
  refine requireWritable_eq_ok.mpr ?_
  rintro _ ⟨⟩
  exact ⟨s, h.found⟩

theorem insert (h : base.InTxn handle mode s e) :
    base.InTxn handle mode s' { e with txns := e.txns.insert handle ⟨mode, s'⟩ } := by
  refine ⟨⟨h.schema.arrays, h.schema.entities, h.schema.relations⟩, h.committed, ?_, h.nextHandle,
    h.writer⟩
  simp only [h.txns]
  ext txn : 1
  grind

theorem wrote (h : base.InTxn handle .write s e) (s' : Snapshot) :
    ∃ e', e.Wrote (some handle) s s' e' ∧ base.InTxn handle .write s' e' :=
  ⟨_, .inTxn h.found, h.insert⟩

/-- A call through the transaction leaves it open, and everything else as it was. -/
theorem perform (h : base.InTxn handle mode s e) (through : served.call.through = some handle)
    (done : e.perform thread served.call = .ok (served.answer, e')) :
    ∃ s', base.InTxn handle mode s' e' := by
  obtain ⟨quiet, part⟩ := Served.part_of_onData (Call.onData_of_through through)
  rw [through] at part
  cases moved_of_perform done with
  | defined defines => simp [quiet] at defines
  | read plays => exact ⟨s, h⟩
  | numbered plays grows => exact ⟨s, h.setLastId⟩
  | began plays | committed plays | aborted plays => simp [plays] at part
  | closed plays found => rcases plays with plays | plays <;> simp [plays] at part
  | wrote plays wrote turns covers grows =>
      simp only [plays, reduceCtorEq, Served.Part.writes.injEq, exists_eq_right', false_or] at part
      subst part
      cases wrote with
      | inTxn found =>
          obtain rfl : mode = .write := by
            rw [h.found, Option.some.injEq, OpenTxn.mk.injEq] at found
            exact found.1
          exact ⟨_, h.insert.recount⟩

end InTxn

theorem Within.inTxn {e₁ : Engine} (h : base.Within thread mode s e₁)
    (inside : e₁.InTxn base.nextHandle mode s' e) : base.Within thread mode s' e := by
  refine ⟨⟨inside.schema.arrays.trans h.schema.arrays,
    inside.schema.entities.trans h.schema.entities,
    inside.schema.relations.trans h.schema.relations⟩, inside.committed.trans h.committed, ?_,
    inside.nextHandle.trans h.nextHandle, inside.writer.trans h.writer⟩
  rw [inside.txns, h.txns]
  ext txn : 1
  grind

end Engine

end ObjectStore
