import ObjectStore.Store.Put
import ObjectStore.Proofs.Engine.Steps
import ObjectStore.Proofs.Store.Allocation

/-! # Programs in a transaction of their own

A program run in its own transaction leads to where it leads on the engine with the transaction
open, and from there to what the commit, or after an error the abort, leaves. If the transaction
cannot begin, nothing happens.
-/

namespace ObjectStore

variable {store : Store} {e e₁ e' : Engine} {σ α : Type} {objects : σ} {v : Store × Engine}

/-- The record that is made of a body, or the error there is no record for. -/
def Record.made (id : ObjectId) : Except CodecError Cbor.Value → Except StoreError Bytes
  | .error why => .error (.codec why)
  | .ok body => match (write id body).refusal with
    | some why => .error (.codec (.refused why))
    | none => .ok (write id body).bytes

/-- What begins a write transaction fails with where the caller has one. -/
def StoreError.writerHeld : StoreError :=
  .engine "begin" .illegalState
    "a write transaction is already open on this thread; pass its handle instead"

/-- What the begin of a write transaction of the caller ends in while the writer slot is taken. -/
inductive Engine.Unbegun (e : Engine) : StoreError → Prop where
  | held : e.writer = some callerThread → e.Unbegun .writerHeld
  | waits : e.HeldByOther callerThread → e.Unbegun .waits

namespace StoreM

theorem store_leads {Q : Except StoreError Store → Store × Engine → Prop}
    (any : ∀ pool, Q (.ok { store with pool }) (store, e)) :
    Leads StoreM.store (store, e) Q := by
  rintro s ⟨shows, same⟩
  refine ⟨(store, e), ⟨shows, same⟩, ?_⟩
  have found : (Runs.run StoreM.store.run s).1 = .ok s.store := rfl
  rw [found, same]
  exact any _

theorem ensureOpen_ends (opened : store.closed = false) :
    Ends ensureOpen (store, e) (.ok ()) (store, e) := by
  refine Leads.bind (store_leads fun pool => ?_)
  simp only [Onward, opened]
  exact Ends.pure

theorem ensureOpen_closed (closed : store.closed = true) :
    Ends ensureOpen (store, e) (.error .closed) (store, e) := by
  refine Leads.bind (store_leads fun pool => ?_)
  simp only [Onward, closed]
  exact Ends.throw

theorem misuse_ends {why : Misuse} :
    Ends (misuse why : StoreM α) v (.error (.misuse why)) v :=
  Ends.throw

/-- What becomes of a body does not depend on the encoder that writes it. -/
theorem encodeRecord_makes {id : ObjectId} {body : Except CodecError Cbor.Value} :
    Ends (encodeRecord id body) v (Record.made id body) v := by
  obtain ⟨store, e⟩ := v
  rintro s ⟨shows, same⟩
  have encoded : ∃ pool, s.store.pool.encode id body = (match body with
      | .error why => .error why
      | .ok body => match (Record.write id body).refusal with
        | some why => .error (.refused why)
        | none => .ok (Record.write id body).bytes, pool) := by
    cases body with
    | error why => exact ⟨_, rfl⟩
    | ok body =>
        simp only [EncoderPool.encode, Encoder.encode]
        cases (Record.write id body).refusal <;> exact ⟨_, rfl⟩
  obtain ⟨pool, encoded⟩ := encoded
  have ran : encodeRecord id body s =
      (Record.made id body, { s with store := { s.store with pool } }) := by
    simp only [encodeRecord, getThe, bind, ExceptT.bind, ExceptT.bindCont, ExceptT.mk,
      StateT.bind, MonadStateOf.get, liftM, monadLift, MonadLift.monadLift, ExceptT.lift,
      Functor.map, StateT.map, StateT.get, pure, encoded]
    cases body with
    | error why => rfl
    | ok body =>
        simp only [Record.made]
        cases (Record.write id body).refusal <;> rfl
  refine ⟨_, ⟨?_, ?_⟩, ?_, rfl⟩ <;> rw [show Runs.run (encodeRecord id body).run s = _ from ran]
  · exact shows
  · rw [same]

/-- A body that can be written is. -/
theorem encodeRecord_ends {id : ObjectId} {body : Cbor.Value}
    (plain : (Record.write id body).refusal = none) :
    Ends (encodeRecord id (.ok body)) (store, e) (.ok (Record.write id body).bytes) (store, e) := by
  have made : Record.made id (.ok body) = .ok (Record.write id body).bytes := by
    simp only [Record.made, plain]
  rw [← made]
  exact encodeRecord_makes

theorem boxFor_ends {T : Type} {binding : Binding T} {descriptor : EntityDescriptor}
    (opened : store.closed = false) (bound : store.model.bound? binding.name = some descriptor) :
    Ends (Store.boxFor binding) (store, e) (.ok { descriptor, binding }) (store, e) := by
  apply Ends.bind (ensureOpen_ends opened)
  refine Leads.bind (store_leads fun pool => ?_)
  simp only [Onward, bound]
  exact Ends.pure

end StoreM

namespace Box

variable {T : Type} {b : Box T} {object : T} {id : ObjectId}

theorem encode_makes : Ends (b.encode id object) v (Record.made id (b.binding.body object)) v :=
  StoreM.encodeRecord_makes

theorem idOf_reads : Ends (b.idOf object) v (b.binding.id object) v := by
  rw [Box.idOf]
  cases b.binding.id object with
  | ok id => exact Ends.pure
  | error why => exact Ends.throw

end Box

namespace Editing

theorem current_ends : Ends (current : Editing σ σ) (objects, v) (.ok objects) (objects, v) := by
  rintro ⟨found, s⟩ ⟨same, shows⟩
  refine ⟨(objects, v), ⟨same, shows⟩, ?_, rfl⟩
  rw [← show found = objects from same]
  rfl

theorem replace_ends {other : σ} :
    Ends (replace other : Editing σ Unit) (objects, v) (.ok ()) (other, v) := by
  rintro ⟨found, s⟩ ⟨same, shows⟩
  exact ⟨(other, v), ⟨rfl, shows⟩, rfl, rfl⟩

/-- A program whose outcome is an answer leads on with it. -/
theorem outcome_leads {program : Editing σ α}
    {Q : Except StoreError (Except StoreError α) → σ × Store × Engine → Prop}
    (h : Leads program (objects, v) fun r => Q (.ok r)) :
    Leads (outcome program) (objects, v) Q :=
  h

/-- What a program answers, its objects being dropped. -/
def answer (objects : σ) (program : Editing σ α) : StoreM α :=
  ExceptT.mk do return (← program.run objects).1

theorem answer_leads {program : Editing σ α} {Q : Except StoreError α → Store × Engine → Prop}
    (h : Leads program (objects, v) fun r w => Q r w.2) : Leads (answer objects program) v Q := by
  intro s shows
  obtain ⟨w, ⟨-, shown⟩, holds⟩ := h (objects, s) ⟨rfl, shows⟩
  exact ⟨w.2, shown, holds⟩

/-- A program on a part of the objects leads to the objects with that part changed. -/
theorem focus_leads {τ : Type} {part : σ → τ} {fill : σ → τ → σ} {program : Editing τ α}
    {Q : Except StoreError α → σ × Store × Engine → Prop}
    (h : Leads program (part objects, v) fun r w => Q r (fill objects w.1, w.2)) :
    Leads (focus part fill program) (objects, v) Q := by
  rintro ⟨found, s⟩ ⟨same, shows⟩
  obtain rfl : found = objects := same
  obtain ⟨w, ⟨changed, shown⟩, holds⟩ := h (part found, s) ⟨rfl, shows⟩
  exact ⟨(fill found w.1, w.2), ⟨congrArg (fill found) changed, shown⟩, holds⟩

end Editing

/-! ## Own transactions -/

namespace Txn

theorem begin_ends {mode : TxnMode} {handle : Handle}
    (begun : e.begin callerThread mode = .ok (handle, e')) :
    Ends (begin mode) e (.ok ⟨handle, mode⟩) e' := by
  unfold begin
  exact Ends.bind (HostM.request_ends begun) Ends.pure

theorem commit_ends {txn : Txn} (ended : e.commit txn.handle = .ok e') :
    Ends txn.commit e (.ok ()) e' :=
  HostM.request_ends (Engine.changing_eq_ok.mpr ended)

theorem drop_ends {txn : Txn} (ended : e.abort txn.handle = .ok e') :
    Ends txn.drop e (.ok ()) e' := by
  have aborted : e.perform callerThread (.abort txn.handle) = .ok ((), e') :=
    Engine.changing_eq_ok.mpr ended
  unfold drop
  exact Ends.bind (HostM.perform_ends aborted) Ends.pure

theorem begin_unbegun (taken : e.writer ≠ none) :
    Leads (Txn.begin .write) e fun r e' => (∃ why, r = .error why ∧ e.Unbegun why) ∧ e' = e := by
  obtain ⟨owner, writer⟩ := Option.ne_none_iff_exists'.mp taken
  have blocked : e.perform callerThread (.begin .write) = _ := Engine.begin_taken writer
  by_cases own : owner = callerThread
  · rw [if_pos own] at blocked
    exact Ends.bind_error (HostM.request_refused blocked rfl)
      ⟨⟨_, rfl, .held (own ▸ writer)⟩, rfl⟩
  · rw [if_neg own] at blocked
    exact Ends.bind_error (HostM.request_waits blocked) ⟨⟨_, rfl, .waits ⟨owner, own, writer⟩⟩, rfl⟩

end Txn

namespace Store

/-- Where a program leads from a view with its transaction open: after an answer to a commit, after
    an error to an abort. -/
def Ending (handle : Handle) (Q : Except StoreError α → σ × Store × Engine → Prop) :
    Except StoreError α → σ × Store × Engine → Prop
  | .ok a, (objects, store, e) => ∃ e', e.commit handle = .ok e' ∧ Q (.ok a) (objects, store, e')
  | .error why, (objects, store, e) =>
    ∃ e', e.abort handle = .ok e' ∧ Q (.error why) (objects, store, e')

theorem beginTxn_ends {mode : TxnMode} {handle : Handle} (opened : store.closed = false)
    (begun : e.begin callerThread mode = .ok (handle, e₁)) :
    Ends (beginTxn mode) (store, e) (.ok ⟨handle, mode⟩) (store, e₁) :=
  Ends.bind (StoreM.ensureOpen_ends opened) (Ends.ofHost (Txn.begin_ends begun))

theorem runIn_leads {mode : TxnMode} {program : Txn → Editing σ α} {handle : Handle}
    {Q : Except StoreError α → σ × Store × Engine → Prop} (opened : store.closed = false)
    (begun : e.begin callerThread mode = .ok (handle, e₁))
    (body : Leads (program ⟨handle, mode⟩) (objects, store, e₁) (Ending handle Q)) :
    Leads (runIn mode program) (objects, store, e) Q := by
  apply Ends.bind (Ends.ofStore (beginTxn_ends opened begun))
  refine Leads.bind (Editing.outcome_leads (body.mono ?_))
  rintro (why | a) ⟨objects, store, e⟩ ⟨e', ended, holds⟩
  · apply Ends.bind (Ends.ofStore (Ends.ofHost (Txn.drop_ends ended)))
    exact Leads.throw holds
  · apply Ends.bind (Ends.ofStore (Ends.ofHost (Txn.commit_ends ended)))
    exact Leads.pure holds

theorem beginTxn_unbegun (opened : store.closed = false) (taken : e.writer ≠ none) :
    Leads (beginTxn .write) (store, e) fun r v =>
      (∃ why, r = .error why ∧ e.Unbegun why) ∧ v = (store, e) := by
  apply Ends.bind (StoreM.ensureOpen_ends opened)
  refine Leads.ofHost ((Txn.begin_unbegun taken).mono ?_)
  rintro r e' ⟨unbegun, rfl⟩
  exact ⟨unbegun, rfl⟩

/-- If its transaction cannot begin, a program is not run. -/
theorem runIn_unbegun {program : Txn → Editing σ α}
    {Q : Except StoreError α → σ × Store × Engine → Prop} (opened : store.closed = false)
    (taken : e.writer ≠ none)
    (holds : ∀ why, e.Unbegun why → Q (.error why) (objects, store, e)) :
    Leads (runIn .write program) (objects, store, e) Q := by
  refine Leads.bind (Leads.ofStore ((beginTxn_unbegun opened taken).mono ?_))
  rintro r v ⟨⟨why, rfl, unbegun⟩, rfl⟩
  exact holds why unbegun

theorem runInTxn_leads {mode : TxnMode} {program : Txn → StoreM α}
    {Q : Except StoreError α → Store × Engine → Prop}
    (h : Leads (runIn mode fun txn => (program txn : Editing Unit α)) ((), v)
      fun r w => Q r w.2) :
    Leads (runInTxn mode program) v Q :=
  Editing.answer_leads h

end Store

end ObjectStore
